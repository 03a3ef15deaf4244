import HeaderConstants.Proofs.Numeral.Hex

/-!
# Decimal numerals

A number is written with the digits of its tenth and its last digit, so that reading gives it back
and only the numeral of zero opens with a zero.

* `Text.isDigit_of_mem_decimal`: the characters of a numeral;
* `Text.decimal_eq_cons`: the first of them;
* `Numeral.read?_decimal`: a numeral read.
-/

namespace HeaderConstants
set_option autoImplicit false

namespace Text

variable {c : Char} {n : Nat}

theorem isDigit_of_mem_decimal (hc : c ∈ decimal n) : c.isDigit = true :=
  Nat.isDigit_of_mem_toDigits (by decide) (by decide) hc

theorem not_mem_decimal (hc : c.isDigit = false) (n : Nat) : c ∉ decimal n :=
  fun hin => Bool.noConfusion (hc.symm.trans (isDigit_of_mem_decimal hin))

theorem decimal_of_lt (h : n < 10) : decimal n = [n.digitChar] := Nat.toDigits_of_lt_base h

theorem decimal_of_le (h : 10 ≤ n) : decimal n = decimal (n / 10) ++ [(n % 10).digitChar] :=
  Nat.toDigits_of_base_le (by decide) h

theorem head?_decimal (h : 0 < n) : (decimal n).head? ≠ some '0' := by
  induction n using Nat.strongRecOn with
  | ind n ih =>
    rcases Nat.lt_or_ge n 10 with hlt | hge
    · rw [decimal_of_lt hlt, List.head?_singleton, Ne, Option.some.injEq, Nat.digitChar_eq_zero]
      omega
    · have htenth : decimal (n / 10) ≠ [] := Nat.toDigits_ne_nil
      rw [decimal_of_le hge, List.head?_append, Option.or_of_isSome (by simpa using htenth)]
      exact ih (n / 10) (by omega) (by omega)

theorem decimal_eq_cons (n : Nat) : ∃ c u, decimal n = c :: u ∧
    (∀ d ∈ c :: u, d.isDigit = true) ∧ (0 < n → c ≠ '0') := by
  have hne : decimal n ≠ [] := Nat.toDigits_ne_nil
  obtain ⟨c, u, hu⟩ := List.exists_cons_of_ne_nil hne
  refine ⟨c, u, hu, fun d hd => isDigit_of_mem_decimal (hu ▸ hd), ?_⟩
  rintro hn rfl
  exact head?_decimal hn (by rw [hu, List.head?_cons])

end Text

namespace Numeral

open Text

theorem digit?_ten_digitChar {d : Nat} (hd : d < 10) : digit? 10 d.digitChar = some d := by
  have hall : ∀ d < 10, digit? 10 (Nat.digitChar d) = some d := by decide
  exact hall d hd

theorem readFrom?_decimal (n : Nat) : readFrom? 10 0 (decimal n) = some n := by
  induction n using Nat.strongRecOn with
  | ind n ih =>
    rcases Nat.lt_or_ge n 10 with hlt | hge
    · simp [decimal_of_lt hlt, readFrom?, digit?_ten_digitChar hlt]
    · have hlast : n % 10 < 10 := Nat.mod_lt n (by decide)
      rw [decimal_of_le hge, readFrom?_append, ih (n / 10) (by omega), Option.bind_some]
      simp only [readFrom?, digit?_ten_digitChar hlast, Nat.div_add_mod']

theorem read?_decimal (n : Nat) : read? 10 (decimal n) = some n := by
  have hne : decimal n ≠ [] := Nat.toDigits_ne_nil
  rw [read?, if_neg (by simpa using hne), readFrom?_decimal]

end Numeral

end HeaderConstants
