import HeaderConstants.Emit.Document
import HeaderConstants.Proofs.Constant.KeptLine
import HeaderConstants.Proofs.Text.Line

/-!
# Texts inside a comment

A text that does not end the comment around it has no closing marker. Where it has a character that
is not part of a marker its two sides count apart. A text whose markers were taken apart has none,
and no replacement of a pattern without marker characters makes one go away.

* `NoCloser`: the comment goes on behind the text;
* `noCloser_defuse`: a line whose markers were taken apart;
* `noCloser_of_replaceAll`: a marker stays through a replacement.
-/

namespace HeaderConstants
set_option autoImplicit false

open Text Header

variable {c : Char} {p r t u w : Text}

/-- No comment ends within the text. -/
def NoCloser (t : Text) : Prop := ¬ closer <:+: t

instance (t : Text) : Decidable (NoCloser t) := inferInstanceAs (Decidable (¬ closer <:+: t))

theorem noCloser_nil : NoCloser [] := by decide

theorem noCloser_of_not_mem (h : '/' ∉ t) : NoCloser t :=
  fun hin => h (hin.subset (List.mem_cons_of_mem _ (List.mem_cons_self ..)))

theorem noCloser_append_cons (hc : c ∉ closer) :
    NoCloser (u ++ c :: w) ↔ NoCloser u ∧ NoCloser w := by
  rw [NoCloser, infix_append_cons_iff (by decide) hc, not_or]
  rfl

theorem noCloser_cons (hc : c ≠ '*') : NoCloser (c :: t) ↔ NoCloser t := by
  have hfirst : ¬ closer <+: c :: t := fun h => hc (List.cons_prefix_cons.1 h).1.symm
  rw [NoCloser, List.infix_cons_iff, not_or, and_iff_right hfirst]
  rfl

theorem noCloser_concat (hc : c ≠ '/') : NoCloser (t ++ [c]) ↔ NoCloser t := by
  have hlast : ¬ closer <:+ t ++ [c] := by
    rintro ⟨s, hs⟩
    have hsame : s ++ ['*'] ++ ['/'] = t ++ [c] := by rw [List.append_assoc]; exact hs
    exact hc (List.singleton_inj.1 (List.append_inj' hsame rfl).2).symm
  rw [NoCloser, List.infix_concat_iff, not_or, and_iff_right hlast]
  rfl

theorem NoCloser.of_infix (h : NoCloser t) (hin : u <:+: t) : NoCloser u :=
  fun hcloser => h (hcloser.trans hin)

/-! ## Lines -/

theorem noCloser_defuse (line : Text) : NoCloser (Constant.defuse line) :=
  (Constant.not_infix_defuse line).2

theorem noCloser_unlines_iff {lines : List Text} :
    NoCloser (Emit.unlines lines) ↔ ∀ line ∈ lines, NoCloser line := by
  induction lines with
  | nil => exact iff_of_true noCloser_nil (List.forall_mem_nil _)
  | cons line more ih =>
    rw [unlines_cons, noCloser_append_cons (by decide), List.forall_mem_cons, ih]

theorem noCloser_unlines {lines : List Text} (h : ∀ line ∈ lines, NoCloser line) :
    NoCloser (Emit.unlines lines) := noCloser_unlines_iff.2 h

/-! ## Replacements -/

/-- The pattern is not empty and has no character of a comment marker. -/
def Unmarked (p : Text) : Prop := p ≠ [] ∧ '*' ∉ p ∧ '/' ∉ p

theorem Unmarked.noCloser (hp : Unmarked p) : NoCloser p :=
  fun hin => hp.2.1 (hin.subset (List.mem_cons_self ..))

theorem noCloser_of_replaceAll (hp : Unmarked p) (h : NoCloser (replaceAll p r t)) :
    NoCloser t := by
  rintro ⟨u, w, rfl⟩
  have hkept : replaceAll p r (u ++ closer ++ w) =
      replaceAll p r u ++ closer ++ replaceAll p r w := by
    rw [List.append_assoc, List.append_assoc]
    exact (replaceAll_append_cons hp.1 hp.2.1).trans
      (congrArg (_ ++ '*' :: ·) (replaceAll_cons hp.1 hp.2.2))
  exact h ⟨_, _, hkept.symm⟩

/-- What takes the place of a pattern that occurs stands in the result. -/
theorem noCloser_replacement (hp : Unmarked p) (hin : p <:+: t)
    (h : NoCloser (replaceAll p r t)) : NoCloser r := by
  obtain ⟨u, w, -, -, hr⟩ := exists_first_occurrence hp.1 hin
  rw [hr] at h
  exact h.of_infix ⟨_, _, rfl⟩

end HeaderConstants
