/-!
# Text

Text is a list of characters, so that every reader and printer of the library is a function by
recursion on its characters. The order of names is the order of their code points.

* `Text.precedes`: strictly earlier in code-point order, a strict total order;
* `Text.decimal`: the decimal text of a number;
* `Text.joined`: pieces with a separator between them.
-/

namespace HeaderConstants
set_option autoImplicit false

abbrev Text := List Char

namespace Text

instance : Coe String Text := ⟨String.toList⟩

def startsWith (t start : Text) : Bool := start.isPrefixOf t

def endsWith (t ending : Text) : Bool := ending.isSuffixOf t

def joined (separator : Text) : List Text → Text
  | [] => []
  | [t] => t
  | t :: u :: more => t ++ separator ++ joined separator (u :: more)

def decimal (n : Nat) : Text := Nat.toDigits 10 n

def signedDecimal : Int → Text
  | .ofNat n => decimal n
  | .negSucc n => '-' :: decimal (n + 1)

/-- Strict code-point order; a proper start of a text comes before the text. -/
def precedes : Text → Text → Bool
  | _, [] => false
  | [], _ :: _ => true
  | a :: s, b :: t => if a = b then precedes s t else a.toNat < b.toNat

/-- ASCII capitals in lower case, all else unchanged. -/
def asciiLower (t : Text) : Text := t.map Char.toLower

/-! ## The order of names -/

theorem precedes_irrefl (t : Text) : precedes t t = false := by
  induction t with
  | nil => rfl
  | cons c t ih => simp [precedes, ih]

theorem not_precedes_nil (t : Text) : precedes t [] = false := by cases t <;> rfl

theorem precedes_append (t : Text) (c : Char) (more : Text) :
    precedes t (t ++ c :: more) = true := by
  induction t with
  | nil => rfl
  | cons d t ih => simp [precedes, ih]

theorem precedes_trans {s t u : Text} (hst : precedes s t) (htu : precedes t u) :
    precedes s u := by
  induction s generalizing t u with
  | nil =>
    cases u with
    | nil => simp [not_precedes_nil] at htu
    | cons c u => rfl
  | cons a s ih =>
    match t, u with
    | [], _ => simp [not_precedes_nil] at hst
    | _ :: _, [] => simp [not_precedes_nil] at htu
    | b :: t, c :: u =>
      simp only [precedes] at hst htu ⊢
      by_cases hab : a = b
      · subst hab
        by_cases hac : a = c
        · subst hac
          simp only [if_pos] at hst htu ⊢
          exact ih hst htu
        · simpa [hac] using htu
      · by_cases hbc : b = c
        · subst hbc
          simpa [hab] using hst
        · have hlt : a.toNat < c.toNat := by
            simp only [hab, hbc, if_false, decide_eq_true_eq] at hst htu
            omega
          have hac : a ≠ c := by
            rintro rfl
            omega
          simp [hac, hlt]

/-- Of two different names one precedes the other. -/
theorem precedes_connex {s t : Text} (h : s ≠ t) : precedes s t ∨ precedes t s := by
  induction s generalizing t with
  | nil =>
    cases t with
    | nil => exact absurd rfl h
    | cons b t => exact .inl rfl
  | cons a s ih =>
    cases t with
    | nil => exact .inr rfl
    | cons b t =>
      simp only [precedes]
      by_cases hab : a = b
      · subst hab
        simpa using ih (fun e => h (e ▸ rfl))
      · have hne : a.toNat ≠ b.toNat := fun e => hab (Char.toNat_inj.1 e)
        simp only [hab, Ne.symm hab, if_false, decide_eq_true_eq]
        omega

end Text

end HeaderConstants
