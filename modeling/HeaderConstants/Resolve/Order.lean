import HeaderConstants.Text.Basic

/-!
# The order of candidates

Names are tried in descending code-point order, each once. A name comes after every name that
extends it, so at one place the longest name is found first.

* `Resolve.order`: the names in that order;
* `Resolve.mem_order`, `Resolve.descending_order`: no name is lost, and the order is strict.
-/

namespace HeaderConstants
set_option autoImplicit false

namespace Resolve

/-- Puts a name before the first one that precedes it, unless it is already there. -/
def insertName (name : Text) : List Text → List Text
  | [] => [name]
  | other :: more =>
    if name = other then other :: more
    else if other.precedes name then name :: other :: more
    else other :: insertName name more

def order (names : List Text) : List Text := names.foldr insertName []

theorem mem_insertName {x name : Text} {names : List Text} :
    x ∈ insertName name names ↔ x = name ∨ x ∈ names := by
  induction names with
  | nil => simp [insertName]
  | cons other more ih =>
    simp only [insertName]
    split
    · next h => simp [h]
    · split
      · simp
      · simp only [List.mem_cons, ih]
        constructor
        · rintro (h | h | h) <;> simp [h]
        · rintro (h | h | h) <;> simp [h]

theorem mem_order {x : Text} {names : List Text} : x ∈ order names ↔ x ∈ names := by
  induction names with
  | nil => simp [order]
  | cons name names ih =>
    have : order (name :: names) = insertName name (order names) := rfl
    rw [this, mem_insertName, ih, List.mem_cons]

/-- The order is strictly descending: each name precedes those before it. -/
def Descending (names : List Text) : Prop := names.Pairwise fun a b => b.precedes a

theorem descending_insertName {name : Text} {names : List Text} (h : Descending names) :
    Descending (insertName name names) := by
  induction names with
  | nil => simp [insertName, Descending]
  | cons other more ih =>
    have hp := List.pairwise_cons.1 h
    simp only [insertName]
    split
    · exact h
    · next hne =>
      split
      · next hlt =>
        refine List.pairwise_cons.2 ⟨?_, h⟩
        intro x hx
        rcases List.mem_cons.1 hx with rfl | hx
        · exact hlt
        · exact Text.precedes_trans (hp.1 x hx) hlt
      · next hnot =>
        refine List.pairwise_cons.2 ⟨?_, ih hp.2⟩
        intro x hx
        rcases mem_insertName.1 hx with rfl | hx
        · exact (Text.precedes_connex hne).resolve_right hnot
        · exact hp.1 x hx

theorem descending_order (names : List Text) : Descending (order names) := by
  induction names with
  | nil => exact .nil
  | cons name names ih => exact descending_insertName ih

end Resolve

end HeaderConstants
