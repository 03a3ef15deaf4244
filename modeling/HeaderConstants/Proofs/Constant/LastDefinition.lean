import Mathlib.Data.List.Dedup
import Mathlib.Data.List.Forall2
import HeaderConstants.Proofs.Constant.Selection

/-!
# Last definitions

A set that takes up one constant after another holds of each name the constant that came last, in
the order in which these came. Whatever was taken up and is not there any more was given back when
it was superseded.

* `lastDefinitions`: the constants of a list whose names do not come again;
* `ConstantSet.ofList_eq`: what a list is collected to;
* `ConstantSet.perm_insert`: an insertion loses nothing.
-/

namespace HeaderConstants
set_option autoImplicit false

variable {c d : Constant} {cs cs' ds batch : List Constant} {set : ConstantSet} {name : Text}
  {R : Constant → Constant → Prop}

/-- The constants of a list whose names do not come again in it. -/
def lastDefinitions : List Constant → List Constant
  | [] => []
  | c :: more =>
    if ∃ d ∈ more, d.name = c.name then lastDefinitions more else c :: lastDefinitions more

theorem lastDefinitions_cons_of_mem (h : ∃ d ∈ cs, d.name = c.name) :
    lastDefinitions (c :: cs) = lastDefinitions cs := by
  rw [lastDefinitions, if_pos h]

theorem lastDefinitions_cons_of_not_mem (h : ¬ ∃ d ∈ cs, d.name = c.name) :
    lastDefinitions (c :: cs) = c :: lastDefinitions cs := by
  rw [lastDefinitions, if_neg h]

/-- The names are in the order in which they came last. -/
theorem map_name_lastDefinitions (cs : List Constant) :
    (lastDefinitions cs).map Constant.name = (cs.map Constant.name).dedup := by
  induction cs with
  | nil => rfl
  | cons c more ih =>
    rw [List.map_cons]
    by_cases h : ∃ d ∈ more, d.name = c.name
    · rw [lastDefinitions_cons_of_mem h, List.dedup_cons_of_mem (List.mem_map.2 h), ih]
    · rw [lastDefinitions_cons_of_not_mem h, List.map_cons,
        List.dedup_cons_of_notMem (mt List.mem_map.1 h), ih]

theorem lastDefinitions_subset (cs : List Constant) : lastDefinitions cs ⊆ cs := by
  induction cs with
  | nil => exact List.Subset.refl []
  | cons c more ih =>
    rw [lastDefinitions]
    split
    · exact List.subset_cons_of_subset c ih
    · exact List.cons_subset_cons c ih

theorem nodup_lastDefinitions (cs : List Constant) :
    ((lastDefinitions cs).map Constant.name).Nodup := by
  rw [map_name_lastDefinitions]
  exact List.nodup_dedup _

theorem lastDefinitions_of_nodup (h : (cs.map Constant.name).Nodup) : lastDefinitions cs = cs := by
  induction cs with
  | nil => rfl
  | cons c more ih =>
    obtain ⟨hc, hmore⟩ := List.nodup_cons.1 h
    rw [lastDefinitions_cons_of_not_mem (mt List.mem_map.2 hc), ih hmore]

/-- A last definition takes the place of the earlier ones of its name. -/
theorem lastDefinitions_concat (cs : List Constant) (c : Constant) :
    lastDefinitions (cs ++ [c]) =
      (lastDefinitions cs).filter (fun d => d.name ≠ c.name) ++ [c] := by
  induction cs with
  | nil => simp [lastDefinitions]
  | cons d more ih =>
    have hagain : (∃ e ∈ more ++ [c], e.name = d.name) ↔
        (∃ e ∈ more, e.name = d.name) ∨ c.name = d.name := by simp
    rw [List.cons_append]
    by_cases h : ∃ e ∈ more, e.name = d.name
    · rw [lastDefinitions_cons_of_mem (hagain.2 (.inl h)), lastDefinitions_cons_of_mem h, ih]
    · rw [lastDefinitions_cons_of_not_mem h]
      by_cases hname : d.name = c.name
      · rw [lastDefinitions_cons_of_mem (hagain.2 (.inr hname.symm)), ih,
          List.filter_cons_of_neg (by simp [hname])]
      · have hnew : ¬ ∃ e ∈ more ++ [c], e.name = d.name := by
          rw [hagain, not_or]
          exact ⟨h, Ne.symm hname⟩
        rw [lastDefinitions_cons_of_not_mem hnew, ih, List.filter_cons_of_pos (by simp [hname]),
          List.cons_append]

theorem lastDefinitions_filter (p : Text → Bool) (cs : List Constant) :
    lastDefinitions (cs.filter fun c => p c.name) =
      (lastDefinitions cs).filter fun c => p c.name := by
  induction cs with
  | nil => rfl
  | cons c more ih =>
    cases hp : p c.name with
    | false =>
      rw [List.filter_cons_of_neg (by simp [hp]), ih]
      by_cases h : ∃ d ∈ more, d.name = c.name
      · rw [lastDefinitions_cons_of_mem h]
      · rw [lastDefinitions_cons_of_not_mem h, List.filter_cons_of_neg (by simp [hp])]
    | true =>
      have hagain : (∃ d ∈ more.filter (fun c => p c.name), d.name = c.name) ↔
          ∃ d ∈ more, d.name = c.name := by
        constructor
        · rintro ⟨d, hd, hname⟩
          exact ⟨d, List.mem_of_mem_filter hd, hname⟩
        · rintro ⟨d, hd, hname⟩
          exact ⟨d, List.mem_filter.2 ⟨hd, by rw [hname, hp]⟩, hname⟩
      rw [List.filter_cons_of_pos (by simp [hp])]
      by_cases h : ∃ d ∈ more, d.name = c.name
      · rw [lastDefinitions_cons_of_mem h, lastDefinitions_cons_of_mem (hagain.2 h), ih]
      · rw [lastDefinitions_cons_of_not_mem h, lastDefinitions_cons_of_not_mem (mt hagain.1 h),
          List.filter_cons_of_pos (by simp [hp]), ih]

/-- What is found of a name is its last definition. -/
theorem find?_lastDefinitions (cs : List Constant) (name : Text) :
    (lastDefinitions cs).find? (fun c => c.name = name) =
      cs.reverse.find? (fun c => c.name = name) := by
  induction cs with
  | nil => rfl
  | cons c more ih =>
    rw [List.reverse_cons, List.find?_append, ← ih]
    by_cases h : ∃ d ∈ more, d.name = c.name
    · rw [lastDefinitions_cons_of_mem h]
      by_cases hname : c.name = name
      · obtain ⟨d, hd, hsame⟩ := h
        have hfound : (more.reverse.find? fun c => c.name = name).isSome = true := by
          rw [List.find?_isSome]
          exact ⟨d, List.mem_reverse.2 hd, by simp [hsame, hname]⟩
        obtain ⟨e, he⟩ := Option.isSome_iff_exists.1 hfound
        rw [ih, he, Option.some_or]
      · simp [hname]
    · rw [lastDefinitions_cons_of_not_mem h]
      by_cases hname : c.name = name
      · have hnone : more.reverse.find? (fun c => c.name = name) = none := by
          rw [List.find?_eq_none]
          intro d hd hsame
          exact h ⟨d, List.mem_reverse.1 hd, (of_decide_eq_true hsame).trans hname.symm⟩
        rw [ih, hnone]
        simp [hname]
      · simp [hname]

/-! ## Constants that correspond -/

theorem exists_name_iff_of_forall₂ (h : List.Forall₂ R cs cs')
    (hname : ∀ c c', R c c' → c'.name = c.name) :
    (∃ d ∈ cs', d.name = name) ↔ ∃ d ∈ cs, d.name = name := by
  induction h with
  | nil => simp
  | cons hc _ ih => simp [ih, hname _ _ hc]

theorem forall₂_lastDefinitions (h : List.Forall₂ R cs cs')
    (hname : ∀ c c', R c c' → c'.name = c.name) :
    List.Forall₂ R (lastDefinitions cs) (lastDefinitions cs') := by
  induction h with
  | nil => exact .nil
  | @cons c c' more more' hc hmore ih =>
    have hagain : (∃ d ∈ more', d.name = c'.name) ↔ ∃ d ∈ more, d.name = c.name := by
      rw [hname c c' hc]
      exact exists_name_iff_of_forall₂ hmore hname
    by_cases h : ∃ d ∈ more, d.name = c.name
    · rw [lastDefinitions_cons_of_mem h, lastDefinitions_cons_of_mem (hagain.2 h)]
      exact ih
    · rw [lastDefinitions_cons_of_not_mem h, lastDefinitions_cons_of_not_mem (mt hagain.1 h)]
      exact .cons hc ih

theorem rel_find?_of_forall₂ (h : List.Forall₂ R cs cs')
    (hname : ∀ c c', R c c' → c'.name = c.name) (name : Text) :
    Option.Rel R (cs.find? fun c => c.name = name) (cs'.find? fun c => c.name = name) := by
  induction h with
  | nil => exact .none
  | @cons c c' more more' hc _ ih =>
    by_cases hfound : c.name = name
    · have hfound' : c'.name = name := (hname c c' hc).trans hfound
      rw [List.find?_cons_of_pos (by simpa using hfound),
        List.find?_cons_of_pos (by simpa using hfound')]
      exact .some hc
    · have hother : ¬ c'.name = name := fun h => hfound ((hname c c' hc).symm.trans h)
      rw [List.find?_cons_of_neg (by simpa using hfound),
        List.find?_cons_of_neg (by simpa using hother)]
      exact ih

/-! ## Sets -/

namespace ConstantSet

theorem eraseP_name_of_nodup (h : (cs.map Constant.name).Nodup) (name : Text) :
    cs.eraseP (fun d => d.name = name) = cs.filter fun d => d.name ≠ name := by
  induction cs with
  | nil => rfl
  | cons c more ih =>
    obtain ⟨hc, hmore⟩ := List.nodup_cons.1 h
    by_cases hname : c.name = name
    · have hrest : ∀ d ∈ more, decide (d.name ≠ name) = true := by
        intro d hd
        refine decide_eq_true fun hsame => hc ?_
        rw [hname, ← hsame]
        exact List.mem_map_of_mem hd
      rw [List.eraseP_cons_of_pos (by simpa using hname),
        List.filter_cons_of_neg (by simp [hname]), List.filter_eq_self.2 hrest]
    · rw [List.eraseP_cons_of_neg (by simpa using hname),
        List.filter_cons_of_pos (by simpa using hname), ih hmore]

theorem add_lastDefinitions (cs : List Constant) (c : Constant) :
    (⟨lastDefinitions cs⟩ : ConstantSet).add c = ⟨lastDefinitions (cs ++ [c])⟩ := by
  rw [add, lastDefinitions_concat, eraseP_name_of_nodup (nodup_lastDefinitions cs)]

theorem foldl_add_lastDefinitions (cs ds : List Constant) :
    ds.foldl add ⟨lastDefinitions cs⟩ = ⟨lastDefinitions (cs ++ ds)⟩ := by
  induction ds generalizing cs with
  | nil => rw [List.foldl_nil, List.append_nil]
  | cons d more ih =>
    rw [List.foldl_cons, add_lastDefinitions, ih, List.append_assoc, List.singleton_append]

theorem ofList_eq (cs : List Constant) : ofList cs = ⟨lastDefinitions cs⟩ :=
  foldl_add_lastDefinitions [] cs

/-- What is superseded does not count for what comes after. -/
theorem lastDefinitions_append (cs ds : List Constant) :
    lastDefinitions (lastDefinitions cs ++ ds) = lastDefinitions (cs ++ ds) := by
  have hagain := lastDefinitions_of_nodup (nodup_lastDefinitions cs)
  have h := foldl_add_lastDefinitions (lastDefinitions cs) ds
  rw [hagain, foldl_add_lastDefinitions] at h
  exact (ConstantSet.mk.inj h).symm

theorem perm_eraseP {α : Type} (p : α → Bool) (xs : List α) :
    (xs.eraseP p ++ (xs.find? p).toList).Perm xs := by
  induction xs with
  | nil => exact .refl _
  | cons x more ih =>
    cases hx : p x with
    | true =>
      rw [List.eraseP_cons_of_pos hx, List.find?_cons_of_pos hx]
      exact List.perm_append_singleton x more
    | false =>
      rw [List.eraseP_cons_of_neg (by simp [hx]), List.find?_cons_of_neg (by simp [hx])]
      exact ih.cons x

/-- What was there and what was inserted is there or was given back. -/
theorem perm_insert (set : ConstantSet) (c : Constant) :
    ((set.insert c).1.constants ++ (set.insert c).2.toList).Perm (set.constants ++ [c]) := by
  have hrest := perm_eraseP (fun d : Constant => d.name = c.name) set.constants
  calc
    _ = set.constants.eraseP (fun d => d.name = c.name) ++ [c] ++ (set.find? c.name).toList := rfl
    _ = set.constants.eraseP (fun d => d.name = c.name) ++ ([c] ++ (set.find? c.name).toList) :=
      List.append_assoc ..
    List.Perm _ (set.constants.eraseP (fun d => d.name = c.name) ++
        ((set.find? c.name).toList ++ [c])) := List.perm_append_comm.append_left _
    _ = set.constants.eraseP (fun d => d.name = c.name) ++ (set.find? c.name).toList ++ [c] :=
      (List.append_assoc ..).symm
    List.Perm _ (set.constants ++ [c]) := hrest.append_right [c]

theorem size_insert (set : ConstantSet) (c : Constant) :
    (set.insert c).1.size + (set.insert c).2.toList.length = set.size + 1 := by
  have h := (perm_insert set c).length_eq
  rwa [List.length_append, List.length_append] at h

end ConstantSet

end HeaderConstants
