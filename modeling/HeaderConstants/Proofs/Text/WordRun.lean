import Mathlib.Data.List.SplitBy
import HeaderConstants.Text.Word

/-!
# Runs of word characters

A text falls into its maximal runs of word characters and the single characters between them. No
other row of runs and single characters gives the text, unless two of its runs meet.

* `Text.pieces`: the runs and the characters between them, in order;
* `Text.Cut`, `Text.cut_pieces`, `Text.Cut.pieces_eq`: how a text falls into them.
-/

namespace HeaderConstants.Text
set_option autoImplicit false

/-- A nonempty run of word characters. -/
def IsWordRun (w : Text) : Prop := w ≠ [] ∧ ∀ c ∈ w, isWordChar c = true

/-- Whether two neighbours are in one run. -/
def inOneRun (c d : Char) : Bool := isWordChar c && isWordChar d

/-- The maximal runs of word characters, and each other character by itself. -/
def pieces (t : Text) : List Text := t.splitBy inOneRun

/-- The text is these runs and single characters one behind the other, and no two runs meet. -/
inductive Cut : Text → List Text → Prop
  | nil : Cut [] []
  | mark {c : Char} {t : Text} {ps : List Text} (hc : isWordChar c = false) (h : Cut t ps) :
      Cut (c :: t) ([c] :: ps)
  | run {w t : Text} {ps : List Text} (hw : IsWordRun w)
      (ht : ∀ c ∈ t.head?, isWordChar c = false) (h : Cut t ps) : Cut (w ++ t) (w :: ps)

variable {c : Char} {t w : Text} {ps : List Text}

theorem IsWordRun.cons (hc : isWordChar c = true) (hw : ∀ d ∈ w, isWordChar d = true) :
    IsWordRun (c :: w) :=
  ⟨List.cons_ne_nil c w, List.forall_mem_cons.2 ⟨hc, hw⟩⟩

theorem exists_cut (t : Text) : ∃ ps, Cut t ps := by
  induction t with
  | nil => exact ⟨[], .nil⟩
  | cons c t ih =>
    obtain ⟨ps, h⟩ := ih
    cases hc : isWordChar c with
    | false => exact ⟨_, .mark hc h⟩
    | true =>
      have alone (ht : ∀ d ∈ t.head?, isWordChar d = false) : Cut ([c] ++ t) ([c] :: ps) :=
        .run (.cons hc (by simp)) ht h
      cases h with
      | nil => exact ⟨_, alone (by simp)⟩
      | mark hd h => exact ⟨_, alone (by simpa using hd)⟩
      | run hw ht h => exact ⟨_, .run (.cons hc hw.2) ht h⟩

theorem splitBy_of_isWordRun (hw : IsWordRun w) : w.splitBy inOneRun = [w] := by
  have hpair : w.Pairwise fun c d => inOneRun c d = true :=
    List.pairwise_of_forall_mem_list fun c hc d hd => by simp [inOneRun, hw.2 c hc, hw.2 d hd]
  exact List.splitBy_of_isChain hw.1 hpair.isChain

theorem Cut.pieces_eq (h : Cut t ps) : pieces t = ps := by
  induction h with
  | nil => rfl
  | @mark c t ps hc h ih =>
    have hcut : ∀ x ∈ [c].getLast?, ∀ y ∈ t.head?, inOneRun x y = false := by
      simp [inOneRun, hc]
    show ([c] ++ t).splitBy inOneRun = [c] :: ps
    rw [List.splitBy_append hcut, ← ih]
    rfl
  | @run w t ps hw ht h ih =>
    have hcut : ∀ x ∈ w.getLast?, ∀ y ∈ t.head?, inOneRun x y = false := by
      intro x _ y hy
      simp [inOneRun, ht y hy]
    rw [pieces, List.splitBy_append hcut, splitBy_of_isWordRun hw, ← ih]
    rfl

theorem cut_pieces (t : Text) : Cut t (pieces t) := by
  obtain ⟨ps, h⟩ := exists_cut t
  rwa [h.pieces_eq]

theorem Cut.flatten_eq (h : Cut t ps) : ps.flatten = t := by
  rw [← h.pieces_eq]
  exact List.flatten_splitBy inOneRun t

end HeaderConstants.Text
