import HeaderConstants.Proofs.Numeral.Hex
import HeaderConstants.Proofs.Numeral.Value

/-!
# Which texts are hexadecimal literals

A literal is `0x` or `0X` and hexadecimal digits behind it, nothing else. Every literal of a value
below `2 ^ 64` is read as its value; what else is read has one plus sign before its digits and would
be a literal without it. All other texts are refused by name.

* `HexLiteral.IsHex`, `HexLiteral.IsSigned`: literals, and literals with a plus sign;
* `HexLiteral.read?_eq_some_iff`, `HexLiteral.parse_eq_ok_iff`: what is read, and as which value;
* `HexLiteral.read?_text`: what is printed;
* `HexLiteral.parse_eq_error_iff`: what is refused.
-/

namespace HeaderConstants.HexLiteral
set_option autoImplicit false

variable {s t digits : Text} {v : UInt64} {e : Unreadable}

/-- The text is `0x` or `0X` and hexadecimal digits, which have the value. -/
def IsHex (s : Text) (v : UInt64) : Prop :=
  ∃ x digits, s = '0' :: x :: digits ∧ (x = 'x' ∨ x = 'X') ∧ Numeral.IsNumeral 16 digits v.toNat

/-- The text has a plus sign before its digits, and is a literal of the value without it. -/
def IsSigned (s : Text) (v : UInt64) : Prop :=
  ∃ x digits, s = '0' :: x :: '+' :: digits ∧ IsHex ('0' :: x :: digits) v

theorem not_isNumeral_plus {base n : Nat} : ¬ Numeral.IsNumeral base ('+' :: t) n := by
  intro h
  obtain ⟨d, -, hd⟩ := h.exists_digit (List.mem_cons_self ..)
  exact absurd hd (by simp [Numeral.digitValue?])

theorem isNumeral_unsigned_iff {n : Nat} : Numeral.IsNumeral 16 (unsigned t) n ↔
    Numeral.IsNumeral 16 t n ∨ ∃ digits, t = '+' :: digits ∧ Numeral.IsNumeral 16 digits n := by
  unfold unsigned
  split
  · next digits =>
    simp [not_isNumeral_plus]
  · next hplus =>
    exact ⟨.inl, fun h => h.resolve_right fun ⟨digits, ht, _⟩ => hplus digits ht⟩

theorem read?_eq_some_iff_unsigned : read? s = some v ↔
    ∃ x digits, s = '0' :: x :: digits ∧ (x = 'x' ∨ x = 'X') ∧
      Numeral.IsNumeral 16 (unsigned digits) v.toNat := by
  have hword (n : Nat) : (if n < UInt64.size then some (UInt64.ofNat n) else none) = some v ↔
      n = v.toNat := by
    constructor
    · intro h
      split at h
      · next hn =>
        obtain rfl := Option.some.inj h
        exact (UInt64.toNat_ofNat_of_lt hn).symm
      · exact absurd h (by simp)
    · rintro rfl
      rw [if_pos v.toNat_lt_size, UInt64.ofNat_toNat]
  simp only [read?, Option.bind_eq_bind, Option.bind_eq_some_iff, hword, digits?_eq_some_iff,
    Numeral.read?_eq_some_iff]
  constructor
  · rintro ⟨digits, ⟨x, rfl, hx⟩, n, hn, rfl⟩
    exact ⟨x, digits, rfl, hx, hn⟩
  · rintro ⟨x, digits, rfl, hx, hn⟩
    exact ⟨digits, ⟨x, rfl, hx⟩, _, hn, rfl⟩

theorem read?_eq_some_iff : read? s = some v ↔ IsHex s v ∨ IsSigned s v := by
  rw [read?_eq_some_iff_unsigned]
  constructor
  · rintro ⟨x, digits, rfl, hx, hn⟩
    rcases isNumeral_unsigned_iff.1 hn with hn | ⟨digits, rfl, hn⟩
    · exact .inl ⟨x, digits, rfl, hx, hn⟩
    · exact .inr ⟨x, digits, rfl, x, digits, rfl, hx, hn⟩
  · rintro (⟨x, digits, rfl, hx, hn⟩ | ⟨x, digits, rfl, x', digits', he, hx, hn⟩)
    · exact ⟨x, digits, rfl, hx, isNumeral_unsigned_iff.2 (.inl hn)⟩
    · obtain ⟨-, rfl, rfl⟩ : '0' = '0' ∧ x = x' ∧ digits = digits' := by simpa using he
      exact ⟨x, '+' :: digits, rfl, hx, isNumeral_unsigned_iff.2 (.inr ⟨digits, rfl, hn⟩)⟩

theorem parse_eq_ok_iff : parse s = .ok v ↔ IsHex s v ∨ IsSigned s v := by
  rw [← read?_eq_some_iff, parse]
  cases read? s with
  | some w => simp
  | none => simp

theorem isHex_text (v : UInt64) : IsHex (text v) v :=
  ⟨'x', _, rfl, .inl rfl, Numeral.read?_eq_some_iff.1 (read?_write v)⟩

theorem read?_text (v : UInt64) : read? (text v) = some v :=
  read?_eq_some_iff.2 (.inl (isHex_text v))

theorem parse_text (v : UInt64) : parse (text v) = .ok v := parse_eq_ok_iff.2 (.inl (isHex_text v))

theorem parse_eq_error_iff :
    parse s = .error e ↔ e = ⟨s⟩ ∧ ∀ v, ¬ (IsHex s v ∨ IsSigned s v) := by
  simp only [← read?_eq_some_iff, parse]
  cases read? s with
  | some w => simp
  | none => simp [eq_comm]

/-- A plus sign is no digit, so a text with one before its digits is no literal. -/
theorem IsSigned.not_isHex {w : UInt64} (h : IsSigned s v) : ¬ IsHex s w := by
  rintro ⟨x, digits, rfl, -, hn⟩
  obtain ⟨x', digits', he, -⟩ := h
  obtain ⟨-, -, rfl⟩ : '0' = '0' ∧ x = x' ∧ digits = '+' :: digits' := by simpa using he
  exact not_isNumeral_plus hn

/-- What is read of a text is a literal, if and only if it is no literal with a plus sign. -/
theorem reads_as_hex_iff : (∀ v, parse s = .ok v ↔ IsHex s v) ↔ ∀ v, ¬ IsSigned s v := by
  constructor
  · intro h v hsigned
    exact hsigned.not_isHex ((h v).1 (parse_eq_ok_iff.2 (.inr hsigned)))
  · intro h v
    rw [parse_eq_ok_iff]
    exact or_iff_left (h v)

end HeaderConstants.HexLiteral
