import Mathlib.Data.List.SplitBy
import HeaderConstants.Proofs.Text.Search

/-!
# Neighbours set apart

A relation says which neighbours stay together. A text falls into its longest parts in which all
neighbours do, and these are set apart with one space between any two of them. A pair of characters
that gives way, wherever it occurs, to itself with a space in it sets the text apart at that pair.
Where spaces stay together with all characters, two relations one behind the other are one.

* `Text.setApart`: a text with its parts set apart;
* `Text.setApart_setApart`: two relations one behind the other;
* `Text.isChain_setApart`: whatever stands side by side afterwards stays together;
* `Text.replaceAll_pair`: a pair of characters that is replaced wherever it occurs.
-/

namespace HeaderConstants.Text
set_option autoImplicit false

variable {a b c d : Char} {t : Text} {ps : List Text} {q r : Char → Char → Bool}

/-- The longest parts in which all neighbours are related, with one space between them. -/
def setApart (r : Char → Char → Bool) (t : Text) : Text := joined [' '] (t.splitBy r)

/-! ## Character by character -/

/-- A character that stays together with the next one belongs to the same part. -/
theorem splitBy_cons_cons_of_pos (h : r c d = true) :
    ∃ p ps, (d :: t).splitBy r = (d :: p) :: ps ∧
      (c :: d :: t).splitBy r = (c :: d :: p) :: ps := by
  obtain ⟨part, ps, hsplit⟩ :=
    List.exists_cons_of_ne_nil (List.splitBy_ne_nil (r := r).2 (List.cons_ne_nil d t))
  obtain ⟨hflat, hnil, hchain, hcut⟩ := List.splitBy_eq_iff.1 hsplit
  obtain ⟨hpart, hps⟩ := not_or.1 (mt List.mem_cons.2 hnil)
  obtain ⟨e, p, rfl⟩ := List.exists_cons_of_ne_nil (Ne.symm hpart)
  obtain ⟨rfl, ht⟩ := List.cons.inj hflat
  obtain ⟨hp, hmore⟩ := List.forall_mem_cons.1 hchain
  obtain ⟨hnext, hrest⟩ := List.isChain_cons.1 hcut
  refine ⟨p, ps, hsplit, List.splitBy_eq_iff.2 ⟨congrArg (c :: ·) hflat, ?_, ?_, ?_⟩⟩
  · simpa using hps
  · exact List.forall_mem_cons.2 ⟨List.isChain_cons_cons.2 ⟨h, hp⟩, hmore⟩
  · refine List.isChain_cons.2 ⟨fun next hin => ?_, hrest⟩
    obtain ⟨hleft, hright, hcut⟩ := hnext next hin
    exact ⟨List.cons_ne_nil _ _, hright, by rwa [List.getLast_cons hleft]⟩

theorem joined_cons_cons (separator : Text) :
    joined separator ((c :: t) :: ps) = c :: joined separator (t :: ps) := by
  cases ps <;> rfl

theorem setApart_cons_cons_of_pos (h : r c d = true) :
    setApart r (c :: d :: t) = c :: setApart r (d :: t) := by
  obtain ⟨p, ps, hnext, hsplit⟩ := splitBy_cons_cons_of_pos (t := t) h
  rw [setApart, setApart, hsplit, hnext, joined_cons_cons]

theorem setApart_cons_cons_of_neg (h : r c d = false) :
    setApart r (c :: d :: t) = c :: ' ' :: setApart r (d :: t) := by
  have hsplit : (c :: d :: t).splitBy r = [c] :: (d :: t).splitBy r :=
    List.splitBy_append (l := [c]) (m := d :: t) (by simpa using h)
  obtain ⟨part, ps, hnext⟩ :=
    List.exists_cons_of_ne_nil (List.splitBy_ne_nil (r := r).2 (List.cons_ne_nil d t))
  rw [setApart, setApart, hsplit, hnext]
  rfl

/-- The first character stays the first one. -/
theorem exists_setApart_cons (r : Char → Char → Bool) (c : Char) (t : Text) :
    ∃ w, setApart r (c :: t) = c :: w := by
  cases t with
  | nil => exact ⟨[], rfl⟩
  | cons d t =>
    cases h : r c d with
    | true => exact ⟨_, setApart_cons_cons_of_pos h⟩
    | false => exact ⟨_, setApart_cons_cons_of_neg h⟩

/-! ## Nothing left to be set apart -/

/-- A space stays together with every character. -/
def KeepsSpaces (r : Char → Char → Bool) : Prop := ∀ c, r c ' ' = true ∧ r ' ' c = true

theorem isChain_setApart (hr : KeepsSpaces r) (t : Text) :
    (setApart r t).IsChain fun c d => r c d = true := by
  induction t with
  | nil => exact List.isChain_nil
  | cons c t ih =>
    cases t with
    | nil => exact List.isChain_singleton c
    | cons d t =>
      obtain ⟨w, hw⟩ := exists_setApart_cons r d t
      cases h : r c d with
      | true =>
        rw [setApart_cons_cons_of_pos h, hw]
        exact List.isChain_cons_cons.2 ⟨h, hw ▸ ih⟩
      | false =>
        rw [setApart_cons_cons_of_neg h, hw]
        exact List.isChain_cons_cons.2 ⟨(hr c).1, List.isChain_cons_cons.2 ⟨(hr d).2, hw ▸ ih⟩⟩

/-- What one relation has set apart is left as it is by the other. -/
theorem setApart_setApart (hr : KeepsSpaces r) (t : Text) :
    setApart r (setApart q t) = setApart (fun c d => q c d && r c d) t := by
  induction t with
  | nil => rfl
  | cons c t ih =>
    cases t with
    | nil => rfl
    | cons d t =>
      obtain ⟨w, hw⟩ := exists_setApart_cons q d t
      cases hq : q c d with
      | false =>
        -- the space between the two stays together with both of them
        have hboth : (q c d && r c d) = false := by rw [hq, Bool.false_and]
        rw [setApart_cons_cons_of_neg hq, setApart_cons_cons_of_pos (hr c).1, hw,
          setApart_cons_cons_of_pos (hr d).2, ← hw, ih]
        exact (setApart_cons_cons_of_neg hboth).symm
      | true =>
        have hboth : (q c d && r c d) = r c d := by rw [hq, Bool.true_and]
        rw [setApart_cons_cons_of_pos hq, hw]
        cases h : r c d with
        | true =>
          rw [setApart_cons_cons_of_pos h, setApart_cons_cons_of_pos (hboth.trans h), ← ih, hw]
        | false =>
          rw [setApart_cons_cons_of_neg h, setApart_cons_cons_of_neg (hboth.trans h), ← ih, hw]

/-! ## Replacement of a pair -/

/-- The second character of a pair does not start another occurrence. -/
theorem replaceAll_pair (hab : a ≠ b) (t : Text) :
    replaceAll [a, b] [a, ' ', b] t = setApart (fun c d => [c, d] != [a, b]) t := by
  induction t with
  | nil => rfl
  | cons c t ih =>
    cases t with
    | nil => exact replaceAll_cons_of_not_isPrefix (by simp)
    | cons d t =>
      by_cases hpair : [c, d] = [a, b]
      · obtain ⟨rfl, rfl⟩ : c = a ∧ d = b := by simpa using hpair
        have hnext : ¬ [c, d] <+: d :: t := fun h => hab (List.cons_prefix_cons.1 h).1
        rw [setApart_cons_cons_of_neg (by simp), ← ih, replaceAll_cons_of_not_isPrefix hnext]
        exact replaceAll_pattern_append (p := [c, d]) (by simp)
      · have hfirst : ¬ [a, b] <+: c :: d :: t := by
          intro h
          obtain ⟨rfl, hsecond⟩ := List.cons_prefix_cons.1 h
          obtain ⟨rfl, -⟩ := List.cons_prefix_cons.1 hsecond
          exact hpair rfl
        rw [setApart_cons_cons_of_pos (by simpa using hpair), ← ih,
          replaceAll_cons_of_not_isPrefix hfirst]

end HeaderConstants.Text
