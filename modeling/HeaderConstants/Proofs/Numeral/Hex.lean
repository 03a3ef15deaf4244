import Mathlib.Algebra.Group.Nat.Defs
import HeaderConstants.Numeral.Hex
import HeaderConstants.Proofs.Text.Char

/-!
# Digits written and read

Reading gives back the number whose digits were written. The hexadecimal literal of a 64-bit value
has digits enough for it and is a single word.

* `Numeral.readFrom?_write`: digits after a value that was read before them;
* `HexLiteral.read?_write`, `HexLiteral.head?_write_ne_zero`: the digits of a literal;
* `HexLiteral.Outside`: texts that stand in no literal.
-/

namespace HeaderConstants
set_option autoImplicit false

namespace Numeral

variable {base width n value d : Nat} {c : Char} {u w : Text}

theorem digitValue?_digitChar (hd : d < 16) : digitValue? (digitChar d) = some d := by
  have hall : ∀ d < 16, digitValue? (digitChar d) = some d := by decide
  exact hall d hd

theorem digit?_digitChar (hbase : base ≤ 16) (hd : d < base) :
    digit? base (digitChar d) = some d := by
  rw [digit?, digitValue?_digitChar (Nat.lt_of_lt_of_le hd hbase)]
  simp [hd]

theorem readFrom?_append (base value : Nat) (u w : Text) :
    readFrom? base value (u ++ w) = (readFrom? base value u).bind (readFrom? base · w) := by
  induction u generalizing value with
  | nil => rfl
  | cons c u ih =>
    simp only [List.cons_append, readFrom?, ih]
    cases digit? base c <;> rfl

theorem readFrom?_write (hpos : 0 < base) (hbase : base ≤ 16) (width value n : Nat) :
    readFrom? base value (write base width n) =
      some (value * base ^ width + n % base ^ width) := by
  induction width generalizing n with
  | zero => simp [write, readFrom?, Nat.mod_one]
  | succ width ih =>
    have hdigit := digit?_digitChar hbase (Nat.mod_lt n hpos)
    have hsplit : n % base ^ (width + 1) = n / base % base ^ width * base + n % base := by
      rw [Nat.pow_succ', Nat.mod_mul, Nat.mul_comm, Nat.add_comm]
    rw [write, readFrom?_append, ih, Option.bind_some]
    simp only [readFrom?, hdigit]
    rw [hsplit, Nat.pow_succ, Nat.add_mul, Nat.mul_assoc, Nat.add_assoc]

theorem read?_write (hpos : 0 < base) (hbase : base ≤ 16) (hwidth : 0 < width)
    (hn : n < base ^ width) : read? base (write base width n) = some n := by
  have hne : write base width n ≠ [] := fun h => by
    have hlen := length_write base width n
    rw [h] at hlen
    exact absurd hlen (Nat.ne_of_lt hwidth)
  rw [read?, if_neg (by simpa using hne), readFrom?_write hpos hbase, Nat.zero_mul, Nat.zero_add,
    Nat.mod_eq_of_lt hn]

/-- What is written starts with the digit of the highest place. -/
theorem write_succ_eq_cons (base width n : Nat) :
    write base (width + 1) n = digitChar (n / base ^ width % base) :: write base width n := by
  induction width generalizing n with
  | zero => simp [write]
  | succ width ih =>
    have hplace : n / base / base ^ width = n / base ^ (width + 1) := by
      rw [Nat.div_div_eq_div_mul, Nat.pow_succ']
    calc write base (width + 2) n
      _ = write base (width + 1) (n / base) ++ [digitChar (n % base)] := rfl
      _ = digitChar (n / base ^ (width + 1) % base) ::
            (write base width (n / base) ++ [digitChar (n % base)]) := by
        rw [ih, hplace, List.cons_append]
      _ = digitChar (n / base ^ (width + 1) % base) :: write base (width + 1) n := rfl

theorem digitChar_ne_zero (hpos : 0 < d) (hd : d < 16) : digitChar d ≠ '0' := by
  have hall : ∀ d < 16, 0 < d → digitChar d ≠ '0' := by decide
  exact hall d hd hpos

/-- A property of all digits below the base holds of what is written. -/
theorem of_mem_write {p : Char → Prop} (hpos : 0 < base) (hp : ∀ d < base, p (digitChar d))
    (hc : c ∈ write base width n) : p c := by
  induction width generalizing n with
  | zero => exact absurd hc List.not_mem_nil
  | succ width ih =>
    rw [write, List.mem_append, List.mem_singleton] at hc
    rcases hc with hc | rfl
    · exact ih hc
    · exact hp _ (Nat.mod_lt n hpos)

end Numeral

namespace HexLiteral

open Numeral

theorem digits?_eq_some_iff {t digits : Text} :
    digits? t = some digits ↔ ∃ x, t = '0' :: x :: digits ∧ (x = 'x' ∨ x = 'X') := by
  constructor
  · intro h
    unfold digits? at h
    split at h
    · exact ⟨'x', by rw [Option.some.inj h], .inl rfl⟩
    · exact ⟨'X', by rw [Option.some.inj h], .inr rfl⟩
    · exact absurd h (by simp)
  · rintro ⟨x, rfl, rfl | rfl⟩ <;> rfl

theorem lt_pow_width (v : UInt64) : v.toNat < 16 ^ width v := by
  have hlog : v.toNat < 2 ^ (Nat.log2 v.toNat + 1) := Nat.lt_log2_self
  have hexp : Nat.log2 v.toNat + 1 ≤ 4 * width v := by
    unfold width
    omega
  calc v.toNat < 2 ^ (Nat.log2 v.toNat + 1) := hlog
    _ ≤ 2 ^ (4 * width v) := Nat.pow_le_pow_right (by decide) hexp
    _ = 16 ^ width v := Nat.pow_mul 2 4 (width v)

theorem width_pos (v : UInt64) : 0 < width v := by
  unfold width
  omega

/-- Where more than eight digits are written, the first one is not zero. -/
theorem head?_write_ne_zero {v : UInt64} (h : 8 < width v) :
    (write 16 (width v) v.toNat).head? ≠ some '0' := by
  obtain ⟨k, hk⟩ : ∃ k, width v = k + 1 := ⟨width v - 1, by omega⟩
  have hlog : 4 * k ≤ Nat.log2 v.toNat ∧ Nat.log2 v.toNat ≠ 0 := by
    unfold width at h hk
    omega
  have hne : v.toNat ≠ 0 := by
    intro hzero
    exact hlog.2 (by rw [hzero]; rfl)
  have hlow : 16 ^ k ≤ v.toNat :=
    calc 16 ^ k = 2 ^ (4 * k) := (Nat.pow_mul 2 4 k).symm
      _ ≤ 2 ^ Nat.log2 v.toNat := Nat.pow_le_pow_right (by decide) hlog.1
      _ ≤ v.toNat := Nat.log2_self_le hne
  have hhigh : v.toNat / 16 ^ k < 16 := by
    rw [Nat.div_lt_iff_lt_mul (Nat.pow_pos (by decide)), ← Nat.pow_succ', Nat.succ_eq_add_one, ← hk]
    exact lt_pow_width v
  have hpos : 0 < v.toNat / 16 ^ k := Nat.div_pos hlow (Nat.pow_pos (by decide))
  rw [hk, write_succ_eq_cons, List.head?_cons, Nat.mod_eq_of_lt hhigh]
  exact fun he => digitChar_ne_zero hpos hhigh (Option.some.inj he)

theorem read?_write (v : UInt64) :
    Numeral.read? 16 (write 16 (width v) v.toNat) = some v.toNat :=
  Numeral.read?_write (by decide) (by decide) (width_pos v) (lt_pow_width v)

theorem isCapital_of_mem_write {v : UInt64} {d : Char} (hd : d ∈ write 16 (width v) v.toNat) :
    d.isDigit = true ∨ 'A' ≤ d ∧ d ≤ 'F' := by
  refine of_mem_write (p := fun d => d.isDigit = true ∨ 'A' ≤ d ∧ d ≤ 'F') (by decide) ?_ hd
  decide

/-- What holds of `x` and of the hexadecimal digits holds of a literal. -/
theorem of_mem_text {p : Char → Prop} {v : UInt64} {c : Char} (hx : p 'x')
    (hp : ∀ d < 16, p (digitChar d)) (hc : c ∈ text v) : p c := by
  rw [text, List.mem_cons, List.mem_cons] at hc
  rcases hc with rfl | rfl | hc
  · exact hp 0 (by decide)
  · exact hx
  · exact of_mem_write (by decide) hp hc

/-- The text stands in nothing that is written like a literal. -/
def Outside (n : Text) : Prop :=
  ∀ digits : Text, (∀ d ∈ digits, d.isDigit ∨ 'A' ≤ d ∧ d ≤ 'F') → ¬ n <:+: '0' :: 'x' :: digits

theorem outside_of_mem {n : Text} {d : Char} (hd : d ∈ n) (hx : d ≠ 'x')
    (hdigit : d.isDigit = false) (hletter : ¬ ('A' ≤ d ∧ d ≤ 'F')) : Outside n := by
  intro digits hdigits hin
  have hmem : d ∈ '0' :: 'x' :: digits := hin.subset hd
  rw [List.mem_cons, List.mem_cons] at hmem
  rcases hmem with rfl | rfl | hmem
  · exact absurd hdigit (by decide)
  · exact hx rfl
  · rcases hdigits d hmem with h | h
    · rw [hdigit] at h
      exact Bool.noConfusion h
    · exact hletter h

theorem Outside.not_infix_text {n : Text} (h : Outside n) (v : UInt64) : ¬ n <:+: text v :=
  h _ fun _ hd => isCapital_of_mem_write hd

end HexLiteral

end HeaderConstants
