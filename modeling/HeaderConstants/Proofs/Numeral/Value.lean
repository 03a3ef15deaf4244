import Mathlib.Data.Nat.Digits.Defs
import HeaderConstants.Numeral.Digits

/-!
# The number that digits stand for

A numeral is a nonempty row of digits below the base, the most significant first. Reading accepts
the numerals and nothing else, and gives the number that their digits stand for.
-/

namespace HeaderConstants.Numeral
set_option autoImplicit false

variable {base value n : Nat} {c : Char} {w : Text}

/-- The characters stand for the digits, which are below the base. -/
def HasDigits (base : Nat) (w : Text) (digits : List Nat) : Prop :=
  w.map digitValue? = digits.map some ∧ ∀ d ∈ digits, d < base

/-- The text is a numeral of the number in the base. -/
def IsNumeral (base : Nat) (w : Text) (n : Nat) : Prop :=
  w ≠ [] ∧ ∃ digits, HasDigits base w digits ∧ n = Nat.ofDigits base digits.reverse

theorem hasDigits_nil_iff {digits : List Nat} : HasDigits base [] digits ↔ digits = [] := by
  constructor
  · rintro ⟨h, -⟩
    exact (List.map_eq_nil_iff.1 h.symm)
  · rintro rfl
    exact ⟨rfl, by simp⟩

theorem hasDigits_cons_iff {digits : List Nat} : HasDigits base (c :: w) digits ↔
    ∃ d more, digits = d :: more ∧ digit? base c = some d ∧ HasDigits base w more := by
  constructor
  · rintro ⟨h, hlt⟩
    cases digits with
    | nil => exact absurd h (by simp)
    | cons d more =>
      obtain ⟨hc, hw⟩ := List.cons.inj h
      have hd := hlt d (List.mem_cons_self ..)
      refine ⟨d, more, rfl, ?_, hw, fun x hx => hlt x (List.mem_cons_of_mem d hx)⟩
      rw [digit?, hc, Option.filter_some, if_pos (by simpa using hd)]
  · rintro ⟨d, more, rfl, hc, hw, hlt⟩
    rw [digit?, Option.filter_eq_some_iff] at hc
    refine ⟨by rw [List.map_cons, List.map_cons, hc.1, hw], fun x hx => ?_⟩
    rcases List.mem_cons.1 hx with rfl | hx
    · simpa using hc.2
    · exact hlt x hx

theorem HasDigits.length_eq {digits : List Nat} (h : HasDigits base w digits) :
    digits.length = w.length := by
  simpa using (congrArg List.length h.1).symm

theorem readFrom?_eq_some_iff : readFrom? base value w = some n ↔
    ∃ digits, HasDigits base w digits ∧
      n = value * base ^ w.length + Nat.ofDigits base digits.reverse := by
  induction w generalizing value with
  | nil => simp [readFrom?, hasDigits_nil_iff, eq_comm]
  | cons c w ih =>
    have hstep {d : Nat} {more : List Nat} (hmore : HasDigits base w more) :
        (value * base + d) * base ^ w.length + Nat.ofDigits base more.reverse =
          value * base ^ (c :: w).length + Nat.ofDigits base (d :: more).reverse := by
      rw [List.reverse_cons, Nat.ofDigits_append, Nat.ofDigits_singleton, List.length_reverse,
        hmore.length_eq, List.length_cons, Nat.pow_succ]
      ring
    simp only [hasDigits_cons_iff, readFrom?]
    cases hd : digit? base c with
    | none => simp
    | some d =>
      rw [ih]
      constructor
      · rintro ⟨more, hmore, rfl⟩
        exact ⟨d :: more, ⟨d, more, rfl, rfl, hmore⟩, hstep hmore⟩
      · rintro ⟨_, ⟨d, more, rfl, hd, hmore⟩, rfl⟩
        obtain rfl := Option.some.inj hd
        exact ⟨more, hmore, (hstep hmore).symm⟩

theorem read?_eq_some_iff : read? base w = some n ↔ IsNumeral base w n := by
  rw [read?, IsNumeral]
  by_cases hw : w = []
  · simp [hw]
  · rw [if_neg (by simpa using hw), readFrom?_eq_some_iff]
    simp [hw]

theorem IsNumeral.exists_digit (h : IsNumeral base w n) (hc : c ∈ w) :
    ∃ d < base, digitValue? c = some d := by
  obtain ⟨-, digits, ⟨hmap, hlt⟩, -⟩ := h
  obtain ⟨d, hd, hvalue⟩ := List.mem_map.1 (hmap ▸ List.mem_map_of_mem (f := digitValue?) hc)
  exact ⟨d, hlt d hd, hvalue.symm⟩

end HeaderConstants.Numeral
