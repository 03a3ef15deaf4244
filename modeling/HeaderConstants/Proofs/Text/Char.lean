import HeaderConstants.Text.Blank
import HeaderConstants.Text.Word

/-!
# Characters by their code points

The classes of characters as ranges of code points. Name characters are word characters and no
blanks, and no blank is a word character.
-/

namespace HeaderConstants
set_option autoImplicit false

variable {c : Char}

theorem isDigit_iff : c.isDigit = true ↔ 48 ≤ c.toNat ∧ c.toNat ≤ 57 := by
  simp only [Char.isDigit, Bool.and_eq_true, decide_eq_true_eq, ge_iff_le, UInt32.le_iff_toNat_le]
  rfl

theorem isUpper_iff : c.isUpper = true ↔ 65 ≤ c.toNat ∧ c.toNat ≤ 90 := by
  refine decide_eq_true_iff.trans ?_
  simp only [ge_iff_le, UInt32.le_iff_toNat_le]
  rfl

theorem isLower_iff : c.isLower = true ↔ 97 ≤ c.toNat ∧ c.toNat ≤ 122 := by
  refine Bool.and_eq_true_iff.trans ?_
  simp only [decide_eq_true_eq, ge_iff_le, UInt32.le_iff_toNat_le]
  rfl

theorem isAlpha_iff : c.isAlpha = true ↔
    (65 ≤ c.toNat ∧ c.toNat ≤ 90) ∨ (97 ≤ c.toNat ∧ c.toNat ≤ 122) :=
  Bool.or_eq_true_iff.trans (or_congr isUpper_iff isLower_iff)

theorem isNameStart_iff : isNameStart c = true ↔
    (65 ≤ c.toNat ∧ c.toNat ≤ 90) ∨ (97 ≤ c.toNat ∧ c.toNat ≤ 122) ∨ c.toNat = 95 := by
  rw [isNameStart, Bool.or_eq_true, isAlpha_iff, decide_eq_true_eq, ← Char.toNat_inj, or_assoc]
  rfl

theorem isNameChar_iff : isNameChar c = true ↔ isNameStart c = true ∨ c.isDigit = true := by
  simp only [isNameChar, isNameStart, Char.isAlphanum, Bool.or_eq_true]
  exact or_right_comm

theorem isNameChar_of_isDigit (h : c.isDigit = true) : isNameChar c = true :=
  isNameChar_iff.2 (.inr h)

theorem isNameChar_of_isNameStart (h : isNameStart c = true) : isNameChar c = true :=
  isNameChar_iff.2 (.inl h)

theorem not_isNameStart_of_isDigit (h : c.isDigit = true) : isNameStart c = false := by
  rw [← Bool.not_eq_true, isNameStart_iff]
  rw [isDigit_iff] at h
  omega

theorem isWordChar_of_isNameChar (h : isNameChar c = true) : isWordChar c = true := by
  have hc : c.toNat < 0x80 := by
    rw [isNameChar_iff, isNameStart_iff, isDigit_iff] at h
    omega
  rw [isWordChar, if_pos hc, h]

theorem not_isBlank_of_isNameChar (h : isNameChar c = true) : isBlank c = false := by
  rw [isNameChar_iff, isNameStart_iff, isDigit_iff] at h
  rw [← Bool.not_eq_true]
  simp only [isBlank, Bool.or_eq_true, Bool.and_eq_true, decide_eq_true_eq]
  omega

/-! ## No name characters -/

theorem not_isNameChar_of_neither (hd : ¬ c.isDigit = true) (hs : ¬ isNameStart c = true) :
    isNameChar c = false := by
  rw [← Bool.not_eq_true, isNameChar_iff]
  exact not_or.2 ⟨hs, hd⟩

theorem not_isNameChar_of_not_isWordChar (h : isWordChar c = false) : isNameChar c = false := by
  cases hc : isNameChar c with
  | false => rfl
  | true => rw [← h, isWordChar_of_isNameChar hc]

theorem not_isNameChar_of_isBlank (h : isBlank c = true) : isNameChar c = false := by
  cases hc : isNameChar c with
  | false => rfl
  | true => rw [← h, not_isBlank_of_isNameChar hc]

theorem not_isNameStart_of_not_isNameChar (h : isNameChar c = false) : isNameStart c = false := by
  cases hc : isNameStart c with
  | false => rfl
  | true => rw [← h, isNameChar_of_isNameStart hc]

theorem not_isDigit_of_not_isNameChar (h : isNameChar c = false) : c.isDigit = false := by
  cases hc : c.isDigit with
  | false => rfl
  | true => rw [← h, isNameChar_of_isDigit hc]

/-! ## Blanks -/

/-- The code points of the blanks beyond ASCII. -/
def wideBlanks : List Nat :=
  [0x85, 0xA0, 0x1680, 0x2000, 0x2001, 0x2002, 0x2003, 0x2004, 0x2005, 0x2006, 0x2007, 0x2008,
    0x2009, 0x200A, 0x2028, 0x2029, 0x202F, 0x205F, 0x3000]

theorem mem_wideBlanks_of_isBlank (h : isBlank c = true) (hc : 0x80 ≤ c.toNat) :
    c.toNat ∈ wideBlanks := by
  simp only [isBlank, Bool.or_eq_true, Bool.and_eq_true, decide_eq_true_eq] at h
  simp only [wideBlanks, List.mem_cons, List.not_mem_nil, or_false]
  omega

theorem not_inRanges_wideBlanks : ∀ n ∈ wideBlanks, inRanges n wordRanges = false := by
  decide +kernel

theorem not_isWordChar_of_isBlank (h : isBlank c = true) : isWordChar c = false := by
  rw [isWordChar]
  split
  · exact not_isNameChar_of_isBlank h
  · exact not_inRanges_wideBlanks _ (mem_wideBlanks_of_isBlank h (by omega))

end HeaderConstants
