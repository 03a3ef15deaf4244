import HeaderConstants.Emit.Java
import HeaderConstants.Proofs.Expr.Acceptance

/-!
# Printed values

A value is printed as a hexadecimal literal in a form of its own: eight digits at least, and more
only where the first of them counts. Wherever literals are read, by themselves or as expressions,
the printed form gives the value back, in parentheses and with the suffix of long literals too.

* `HexLiteral.IsPrinted`: the form;
* `Expr.evaluate_group_of_spells`: the value of one literal in parentheses;
* `Expr.printed_value_read_back`: how a printed value is read.
-/

namespace HeaderConstants
set_option autoImplicit false

open Text

variable {v : UInt64} {s w : Text}

namespace HexLiteral

/-- The text is `0x` and capital hexadecimal digits, eight or, with no zero in front, more. -/
def IsPrinted (t : Text) : Prop :=
  ∃ digits, t = '0' :: 'x' :: digits ∧ 8 ≤ digits.length ∧
    (∀ d ∈ digits, d.isDigit = true ∨ 'A' ≤ d ∧ d ≤ 'F') ∧
    (8 < digits.length → digits.head? ≠ some '0')

theorem isPrinted_text (v : UInt64) : IsPrinted (text v) := by
  refine ⟨_, rfl, ?_, fun d hd => isCapital_of_mem_write hd, fun h => ?_⟩
  · rw [Numeral.length_write, width]
    omega
  · rw [Numeral.length_write] at h
    exact head?_write_ne_zero h

/-- A sign is no letter and no digit. -/
theorem isHex_of_parse (hs : ∀ c ∈ s, c.isAlphanum = true) (h : parse s = .ok v) : IsHex s v := by
  refine (parse_eq_ok_iff.1 h).resolve_right ?_
  rintro ⟨x, digits, rfl, -⟩
  exact absurd (hs '+' (by simp)) (by decide)

end HexLiteral

/-- A Java constant ends with the printed value and the suffix of long literals. -/
theorem Emit.Java.exists_declaration_eq (c : Constant) (v : UInt64) :
    ∃ before, declaration c v = before ++ (HexLiteral.text v ++ ['L']) ++ [';'] := by
  have hend : ("L;" : Text) = ['L'] ++ [';'] := by decide
  unfold declaration
  rw [hend, ← List.append_assoc, List.append_assoc _ (HexLiteral.text v)]
  exact ⟨_, rfl⟩

namespace Expr

theorem evaluate_group_of_spells (h : Spells w v.toNat) : evaluate (group w) = .ok v := by
  have hlt : v.toNat < 2 ^ 64 := v.toNat_lt
  have hwrites : Writes ('(' :: (w ++ [] ++ [')'])) ((Tree.group (.literal v.toNat)).tokens 0) :=
    .single rfl (.literal h (by omega) .none (.single rfl .nil))
  have hbare : (Tree.group (.literal v.toNat)).bare = (Tree.literal v.toNat).bare := rfl
  rw [List.append_nil] at hwrites
  exact (evaluate_iff_of_writes hwrites hbare).2 ⟨_, rfl, toWord_eq_ok_iff.1 (toWord_toNat v)⟩

/-- A value is printed in its form, and different values differently. The printed value is read as
that value, by itself and as an expression, also in parentheses and with the suffix that it has in a
declaration; and letters and digits that are read as a value have that value as an expression. -/
theorem printed_value_read_back :
    (∀ v : UInt64,
      HexLiteral.IsPrinted (HexLiteral.text v) ∧
      (∀ w, HexLiteral.text w = HexLiteral.text v → w = v) ∧
      HexLiteral.parse (HexLiteral.text v) = .ok v ∧
      evaluate (HexLiteral.text v) = .ok v ∧
      evaluate ('(' :: HexLiteral.text v ++ [')']) = .ok v ∧
      evaluate (HexLiteral.text v ++ ['L']) = .ok v ∧
      ∀ c, ∃ before,
        Emit.Java.declaration c v = before ++ (HexLiteral.text v ++ ['L']) ++ [';']) ∧
    ∀ s v, (∀ c ∈ s, c.isAlphanum = true) → HexLiteral.parse s = .ok v → evaluate s = .ok v := by
  constructor
  · intro v
    have hparse : HexLiteral.parse (HexLiteral.text v) = .ok v := HexLiteral.parse_text v
    have hspells := spells_hexLiteral v
    have hlong : IsSuffix ['L'] := .long (l := ['L']) (u := []) (by decide) (by decide)
    refine ⟨HexLiteral.isPrinted_text v, fun w hw => ?_, hparse, evaluate_hexLiteral v,
      evaluate_group_of_spells hspells, evaluate_of_spells hspells hlong,
      fun c => Emit.Java.exists_declaration_eq c v⟩
    rw [← hw, HexLiteral.parse_text w] at hparse
    exact Except.ok.inj hparse
  · intro s v hs h
    have hspells := spells_of_isHex (HexLiteral.isHex_of_parse hs h)
    have hvalue := evaluate_of_spells hspells .none
    rwa [List.append_nil] at hvalue

/-- The digits have capitals and small letters and are more than eight. -/
theorem printed_value_read_back_mixed_case :
    let s : Text := "0X00DeadBeef9"
    (∀ c ∈ s, c.isAlphanum = true) ∧ HexLiteral.parse s = .ok 0xDEADBEEF9 ∧
      evaluate s = .ok 0xDEADBEEF9 := by
  intro s
  have hs : ∀ c ∈ s, c.isAlphanum = true := List.all_eq_true.1 rfl
  have hparse : HexLiteral.parse s = .ok 0xDEADBEEF9 := by decide +kernel
  exact ⟨hs, hparse, printed_value_read_back.2 s _ hs hparse⟩

end Expr

end HeaderConstants
