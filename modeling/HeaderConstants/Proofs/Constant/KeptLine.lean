import HeaderConstants.Constant.Basic
import HeaderConstants.Header.Copyright
import HeaderConstants.Proofs.Text.Apart

/-!
# The line of a constant

A constant keeps the line of its definition with a space in each comment marker. The openers get
theirs first. No marker comes about by this, and a character that is in two markers, as the star of
`/*/`, has a space on both of its sides.

* `Constant.defuse_eq_setApart`: both kinds of markers at once;
* `Constant.line_sets_markers_apart`: what a constant keeps of a line.
-/

namespace HeaderConstants
set_option autoImplicit false

open Text Header

variable {c d : Char} {p q t : Text}

/-! ## Markers -/

/-- Whether two neighbours are no comment marker. -/
def noMarker (c d : Char) : Bool := [c, d] != opener && [c, d] != closer

theorem noMarker_iff : noMarker c d = true ↔ [c, d] ≠ opener ∧ [c, d] ≠ closer := by
  rw [noMarker, Bool.and_eq_true, bne_iff_ne, bne_iff_ne]

theorem keepsSpaces_noMarker : KeepsSpaces noMarker := fun c => by
  simp [noMarker, opener, closer]

theorem not_infix_of_isChain (h : t.IsChain fun c d => noMarker c d = true) :
    ¬ opener <:+: t ∧ ¬ closer <:+: t := by
  have hpair : ∀ c d, [c, d] <:+: t → [c, d] ≠ opener ∧ [c, d] ≠ closer := by
    intro c d hin
    have hchain := h.infix hin
    have hstay := List.isChain_pair.1 hchain
    exact noMarker_iff.1 hstay
  exact ⟨fun hin => (hpair _ _ hin).1 rfl, fun hin => (hpair _ _ hin).2 rfl⟩

/-- Where two parts meet in a marker, each of them has one of its characters. -/
theorem exists_cut_marker
    (h : ∃ (hp : p ≠ []) (hq : q ≠ []), noMarker (p.getLast hp) (q.head hq) = false) :
    ∃ u w, (p = u ++ ['/'] ∧ q = '*' :: w) ∨ (p = u ++ ['*'] ∧ q = '/' :: w) := by
  obtain ⟨hp, hq, h⟩ := h
  have hleft := (List.dropLast_append_getLast hp).symm
  have hright := (List.cons_head_tail hq).symm
  refine ⟨p.dropLast, q.tail, ?_⟩
  rw [noMarker, Bool.and_eq_false_iff, bne_eq_false_iff_eq, bne_eq_false_iff_eq] at h
  rcases h with hopener | hcloser
  · obtain ⟨hslash, hstar⟩ : p.getLast hp = '/' ∧ q.head hq = '*' := by simpa [opener] using hopener
    exact .inl ⟨hslash ▸ hleft, hstar ▸ hright⟩
  · obtain ⟨hstar, hslash⟩ : p.getLast hp = '*' ∧ q.head hq = '/' := by simpa [closer] using hcloser
    exact .inr ⟨hstar ▸ hleft, hslash ▸ hright⟩

namespace Constant

/-! ## Lines -/

/-- The openers get their spaces first, and the closers are then as they were. -/
theorem defuse_eq_setApart (line : Text) : defuse line = setApart noMarker line := by
  have hopeners : replaceAll ['/', '*'] ['/', ' ', '*'] line =
      setApart (fun c d => [c, d] != opener) line := replaceAll_pair (by decide) line
  have hspaces : KeepsSpaces fun c d => [c, d] != closer := fun c => by simp [closer]
  rw [defuse, hopeners]
  exact (replaceAll_pair (by decide) _).trans (setApart_setApart hspaces line)

theorem not_infix_defuse (line : Text) : ¬ opener <:+: defuse line ∧ ¬ closer <:+: defuse line := by
  rw [defuse_eq_setApart]
  exact not_infix_of_isChain (isChain_setApart keepsSpaces_noMarker line)

/-- The line of a constant has no comment marker. It is the line that was given, cut in the middle
of each of its markers and nowhere else, with one space at every cut. -/
theorem line_sets_markers_apart (name rawValue sourceFile : Text) (sourceLine : Nat)
    (line : Text) :
    let kept := (define name rawValue sourceFile sourceLine line).line
    let parts := line.splitBy noMarker
    (¬ ['/', '*'] <:+: kept ∧ ¬ ['*', '/'] <:+: kept) ∧
    kept = joined [' '] parts ∧ parts.flatten = line ∧
    (∀ p ∈ parts, p ≠ [] ∧ ¬ ['/', '*'] <:+: p ∧ ¬ ['*', '/'] <:+: p) ∧
    parts.IsChain fun p q =>
      ∃ u w, (p = u ++ ['/'] ∧ q = '*' :: w) ∨ (p = u ++ ['*'] ∧ q = '/' :: w) := by
  intro kept parts
  refine ⟨not_infix_defuse line, defuse_eq_setApart line, List.flatten_splitBy noMarker line,
    fun p hp => ⟨List.ne_nil_of_mem_splitBy hp, ?_⟩, ?_⟩
  · exact not_infix_of_isChain (List.isChain_of_mem_splitBy hp)
  · exact (List.isChain_getLast_head_splitBy noMarker line).imp fun p q => exists_cut_marker

/-- Markers that overlap. -/
example : (define "A" "1" "t.h" 1 "/*/ */*").line = "/ * / * / *" := by decide

end Constant

end HeaderConstants
