import HeaderConstants.Text.Basic

/-!
# Blanks

The blank characters are those with the property White_Space: five ASCII controls, the space, and
the spaces and separators beyond ASCII. Cutting and trimming at blanks is by list recursion.
-/

namespace HeaderConstants
set_option autoImplicit false

/-- White_Space of the Unicode character database. -/
def isBlank (c : Char) : Bool :=
  let n := c.toNat
  (9 ≤ n && n ≤ 13) || n = 0x20 || n = 0x85 || n = 0xA0 || n = 0x1680
    || (0x2000 ≤ n && n ≤ 0x200A) || n = 0x2028 || n = 0x2029 || n = 0x202F || n = 0x205F
    || n = 0x3000

namespace Text

def trimStart (t : Text) : Text := t.dropWhile isBlank

def trimEnd (t : Text) : Text := (t.reverse.dropWhile isBlank).reverse

def trim (t : Text) : Text := trimEnd (trimStart t)

/-- The pieces between the characters that satisfy `p`; always at least one piece. -/
def splitWhere (p : Char → Bool) : Text → List Text
  | [] => [[]]
  | c :: rest =>
    if p c then [] :: splitWhere p rest
    else
      match splitWhere p rest with
      | [] => [[c]]
      | piece :: more => (c :: piece) :: more

/-- The maximal runs of characters that are not blank. -/
def words (t : Text) : List Text := (splitWhere isBlank t).filter (fun w => !w.isEmpty)

/-! ## Trimming -/

theorem length_trimStart_le (t : Text) : (trimStart t).length ≤ t.length :=
  (List.dropWhile_suffix isBlank).length_le

theorem splitWhere_ne_nil (p : Char → Bool) (t : Text) : splitWhere p t ≠ [] := by
  cases t with
  | nil => simp [splitWhere]
  | cons c rest =>
    simp only [splitWhere]
    split
    · simp
    · split <;> simp

end Text

end HeaderConstants
