import Mathlib.Data.List.Nodup
import HeaderConstants.Constant.Allowlist

/-!
# What a selection takes up

A selection holds constants of its batches with allowed names, each name once. A batch of constants
with allowed names of which none comes twice is taken up as it is.

* `Selection.takenFrom_select`: the constants of a selection;
* `Selection.select_of_distinct`: a batch with nothing to leave out.
-/

namespace HeaderConstants
set_option autoImplicit false

variable {c : Constant} {batch done : List Constant} {set : ConstantSet}

namespace ConstantSet

theorem names_add (set : ConstantSet) (c : Constant) :
    (set.add c).names = set.names.erase c.name ++ [c.name] := by
  have herase : set.names.erase c.name =
      (set.constants.eraseP fun d => d.name = c.name).map Constant.name := by
    rw [names, List.erase_eq_eraseP, List.eraseP_map]
    congr 2
    funext d
    rw [Function.comp_apply, Bool.eq_iff_iff, beq_iff_eq, decide_eq_true_iff, eq_comm]
  rw [herase, names, add, List.map_append]
  rfl

theorem nodup_names_add (h : set.names.Nodup) (c : Constant) : (set.add c).names.Nodup := by
  rw [names_add, List.nodup_append_comm, List.singleton_append, List.nodup_cons]
  exact ⟨h.not_mem_erase, h.erase c.name⟩

theorem mem_add {d : Constant} (hd : d ∈ (set.add c).constants) : d = c ∨ d ∈ set.constants := by
  rw [add, List.mem_append, List.mem_singleton] at hd
  exact hd.symm.imp_right List.mem_of_mem_eraseP

theorem insert_of_not_mem (h : c.name ∉ set.names) :
    set.insert c = (⟨set.constants ++ [c]⟩, none) := by
  have habsent : ∀ d ∈ set.constants, ¬ (decide (d.name = c.name) = true) := by
    intro d hd hname
    exact h (of_decide_eq_true hname ▸ List.mem_map_of_mem hd)
  rw [insert, add, find?, List.eraseP_of_forall_not habsent, List.find?_eq_none.2 habsent]

end ConstantSet

namespace Selection

open ConstantSet

variable {sel : Selection}

/-- The set holds constants of the batch with allowed names, each name once. -/
structure TakenFrom (a : Allowlist) (batch : List Constant) (set : ConstantSet) : Prop where
  mem : ∀ c ∈ set.constants, c ∈ batch
  allows : ∀ c ∈ set.constants, a.allows c.name = true
  nodup : set.names.Nodup

theorem allowlist_offer (sel : Selection) (set : ConstantSet) (c : Constant) :
    (offer (sel, set) c).1.allowlist = sel.allowlist := by
  rw [offer]
  split <;> rfl

theorem TakenFrom.offer (h : TakenFrom sel.allowlist batch set) (hc : c ∈ batch) :
    TakenFrom sel.allowlist batch (offer (sel, set) c).2 := by
  rw [Selection.offer]
  split
  · next hallows =>
    refine ⟨fun d hd => ?_, fun d hd => ?_, nodup_names_add h.nodup c⟩
    · rcases mem_add hd with rfl | hd
      · exact hc
      · exact h.mem d hd
    · rcases mem_add hd with rfl | hd
      · exact hallows
      · exact h.allows d hd
  · exact h

theorem takenFrom_foldl {all : List Constant} (hset : TakenFrom sel.allowlist all set)
    (hbatch : batch ⊆ all) :
    TakenFrom sel.allowlist all (batch.foldl offer (sel, set)).2 := by
  induction batch generalizing sel set with
  | nil => exact hset
  | cons c more ih =>
    obtain ⟨hc, hmore⟩ := List.cons_subset.1 hbatch
    have hnext := hset.offer hc
    rw [← allowlist_offer sel set c] at hnext ⊢
    exact ih hnext hmore

/-- A selection holds constants of its batch with allowed names, each name once. -/
theorem takenFrom_select (sel : Selection) (batch : List Constant) :
    TakenFrom sel.allowlist batch (sel.select batch).2 := by
  have hempty : TakenFrom sel.allowlist batch .empty := ⟨by simp [empty], by simp [empty], .nil⟩
  exact takenFrom_foldl hempty (List.Subset.refl batch)

theorem foldl_offer_of_distinct (hallows : ∀ c ∈ batch, sel.allowlist.allows c.name = true)
    (hnodup : ((done ++ batch).map Constant.name).Nodup) :
    batch.foldl offer (sel, ⟨done⟩) = (sel, ⟨done ++ batch⟩) := by
  induction batch generalizing done with
  | nil => simp
  | cons c more ih =>
    obtain ⟨hc, hmore⟩ := List.forall_mem_cons.1 hallows
    have hsplit : done ++ c :: more = done ++ [c] ++ more := by simp
    have hnew : c.name ∉ (⟨done⟩ : ConstantSet).names := by
      rw [List.map_append, List.map_cons, List.nodup_middle] at hnodup
      intro hmem
      exact (List.nodup_cons.1 hnodup).1 (List.mem_append_left _ hmem)
    have hoffer : offer (sel, ⟨done⟩) c = (sel, ⟨done ++ [c]⟩) := by
      rw [offer, insert_of_not_mem hnew, if_pos hc]
      rfl
    rw [List.foldl_cons, hoffer, hsplit]
    exact ih hmore (hsplit ▸ hnodup)

/-- A batch of constants with distinct allowed names is taken up as it is. -/
theorem select_of_distinct (hallows : ∀ c ∈ batch, sel.allowlist.allows c.name = true)
    (hnodup : (batch.map Constant.name).Nodup) :
    sel.select batch =
      (⟨sel.allowlist, ⟨sel.stats.kept + batch.length, sel.stats.ignored, sel.stats.superseded⟩⟩,
        ⟨batch⟩) := by
  have hfold : batch.foldl offer (sel, .empty) = (sel, ⟨batch⟩) :=
    foldl_offer_of_distinct hallows hnodup
  rw [select, hfold]
  rfl

end Selection

end HeaderConstants
