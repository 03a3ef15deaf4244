import Mathlib.Data.List.Perm.Basic
import HeaderConstants.Proofs.Constant.Index
import HeaderConstants.Proofs.Constant.LastDefinition
import HeaderConstants.Proofs.Resolve.Progress

/-!
# Sets as ordered maps

A set is filled by insertions, collected anew or from what it holds and further constants, and
resolved, with success or not. Whatever is done to it, it holds of each name the constant that was
inserted last, in the order of these insertions; a resolution only gives values. What is inserted
into a set one by one is there afterwards or was given back.

* `ConstantSet.Step`, `ConstantSet.after`: what is done to a set;
* `ConstantSet.Holds`, `ConstantSet.Holds.after`: the last definitions, up to their values;
* `ConstantSet.IsMapOf`: an ordered map of the constants inserted;
* `ConstantSet.Accounts.after`: nothing is lost;
* `ConstantSet.ordered_map`: every set that comes about.
-/

namespace HeaderConstants
set_option autoImplicit false

theorem forall₂_trans {α : Type} {R : α → α → Prop} {xs ys zs : List α}
    (htrans : ∀ x y z, R x y → R y z → R x z) (h : List.Forall₂ R xs ys)
    (h' : List.Forall₂ R ys zs) : List.Forall₂ R xs zs := by
  induction h generalizing zs with
  | nil => exact h'
  | cons hxy _ ih =>
    obtain ⟨z, more, hyz, hmore, rfl⟩ := List.forall₂_cons_left_iff.1 h'
    exact .cons (htrans _ _ _ hxy hyz) (ih hmore)

theorem Constant.Keeps.trans {c d e : Constant} (h : Keeps c d) (h' : Keeps d e) : Keeps c e := by
  obtain ⟨⟨hname, hvalue, hfile, hline, htext⟩, hres⟩ := h
  obtain ⟨⟨hname', hvalue', hfile', hline', htext'⟩, hres'⟩ := h'
  refine ⟨⟨hname'.trans hname, hvalue'.trans hvalue, hfile'.trans hfile, hline'.trans hline,
    htext'.trans htext⟩, fun hc => ?_⟩
  obtain rfl := hres hc
  exact hres' hc

namespace ConstantSet

open Constant

inductive Step where
  | insert (c : Constant)
  | collect (cs : List Constant)
  | extend (cs : List Constant)
  | resolve (r : Resolver)
  deriving DecidableEq, Repr

namespace Step

def apply (s : ConstantSet) : Step → ConstantSet
  | insert c => (s.insert c).1
  | collect cs => ofList cs
  | extend cs => s.extend cs
  | resolve r => ⟨(r.run s.constants).constants⟩

/-- The constants inserted since the set was last collected anew. -/
def log (inserted : List Constant) : Step → List Constant
  | insert c => inserted ++ [c]
  | collect cs => cs
  | extend cs => inserted ++ cs
  | resolve _ => inserted

/-- The step does not put another set in the place of the set. -/
def OneByOne : Step → Prop
  | insert _ => True
  | resolve _ => True
  | _ => False

/-- What the step gives back. -/
def returned (s : ConstantSet) : Step → List Constant
  | insert c => (s.insert c).2.toList
  | _ => []

end Step

def after (s : ConstantSet) (steps : List Step) : ConstantSet := steps.foldl Step.apply s

def logAfter (inserted : List Constant) (steps : List Step) : List Constant :=
  steps.foldl Step.log inserted

/-- What the steps give back, one after another. -/
def returnedBy (s : ConstantSet) : List Step → List Constant
  | [] => []
  | step :: more => step.returned s ++ returnedBy (step.apply s) more

variable {inserted ds present returned : List Constant} {s : ConstantSet} {steps : List Step}

/-! ## The last definitions -/

/-- The set holds the last definitions of what was inserted, some with values given since. -/
def Holds (inserted : List Constant) (s : ConstantSet) : Prop :=
  List.Forall₂ Keeps (lastDefinitions inserted) s.constants

theorem Holds.names_eq (h : Holds inserted s) :
    s.names = (inserted.map Constant.name).dedup := by
  rw [← map_name_lastDefinitions]
  exact map_eq_of_forall₂ Constant.name Constant.name h fun _ _ hkeeps => hkeeps.1.1

theorem Holds.nodup (h : Holds inserted s) : s.names.Nodup := by
  rw [h.names_eq]
  exact List.nodup_dedup _

theorem Holds.append (h : Holds inserted s) (ds : List Constant) :
    Holds (inserted ++ ds) ⟨lastDefinitions (s.constants ++ ds)⟩ := by
  have hds : List.Forall₂ Keeps ds ds := List.forall₂_same.2 fun d _ => Keeps.refl d
  rw [Holds, ← lastDefinitions_append]
  exact forall₂_lastDefinitions (List.rel_append h hds) fun _ _ hkeeps => hkeeps.1.1

theorem insert_eq (h : s.names.Nodup) (c : Constant) :
    (s.insert c).1 = ⟨lastDefinitions (s.constants ++ [c])⟩ := by
  have hadd := add_lastDefinitions s.constants c
  rwa [lastDefinitions_of_nodup h] at hadd

theorem Holds.apply (h : Holds inserted s) (step : Step) :
    Holds (step.log inserted) (step.apply s) := by
  cases step with
  | insert c =>
    rw [Step.log, Step.apply, insert_eq h.nodup]
    exact h.append [c]
  | collect cs =>
    rw [Step.log, Step.apply, ofList_eq]
    exact List.forall₂_same.2 fun c _ => Keeps.refl c
  | extend cs =>
    rw [Step.log, Step.apply, ConstantSet.extend, ofList_eq]
    exact h.append cs
  | resolve r =>
    exact forall₂_trans (fun _ _ _ => Keeps.trans) h (Resolver.keeps_run r s.constants)

theorem Holds.after (h : Holds inserted s) (steps : List Step) :
    Holds (logAfter inserted steps) (s.after steps) := by
  induction steps generalizing inserted s with
  | nil => exact h
  | cons step more ih => exact ih (h.apply step)

/-- The set is an ordered map of the constants inserted. -/
structure IsMapOf (inserted : List Constant) (s : ConstantSet) : Prop where
  nodup : s.names.Nodup
  /-- The names are in the order of their last insertions. -/
  names_eq : s.names = (inserted.map Constant.name).dedup
  rel_find? : ∀ name, Option.Rel Keeps (inserted.reverse.find? fun c => c.name = name)
    (s.find? name)
  contains_iff : ∀ name, s.contains name = true ↔ ∃ c ∈ inserted, c.name = name
  size_eq : s.size = (inserted.map Constant.name).dedup.length
  isEmpty_iff : s.isEmpty = true ↔ inserted = []
  nodup_index : (s.index.map Prod.fst).Nodup
  mem_index : ∀ name i, (name, i) ∈ s.index ↔ ∃ c, s.constants[i]? = some c ∧ c.name = name
  size_index : s.index.length = s.size
  find?_index : ∀ name c,
    s.find? name = some c ↔ ∃ i, (name, i) ∈ s.index ∧ s.constants[i]? = some c
  insert_returns : ∀ c d, (s.insert c).2 = some d ↔ d ∈ s.constants ∧ d.name = c.name
  find?_insert : ∀ c name,
    (s.insert c).1.find? name = if c.name = name then some c else s.find? name
  find?_extend : ∀ cs name,
    (s.extend cs).find? name = (cs.reverse.find? fun c => c.name = name).or (s.find? name)

theorem Holds.rel_find? (h : Holds inserted s) (name : Text) :
    Option.Rel Keeps (inserted.reverse.find? fun c => c.name = name) (s.find? name) := by
  rw [← find?_lastDefinitions]
  exact rel_find?_of_forall₂ h (fun _ _ hkeeps => hkeeps.1.1) name

theorem Holds.contains_iff (h : Holds inserted s) (name : Text) :
    s.contains name = true ↔ ∃ c ∈ inserted, c.name = name := by
  calc
    s.contains name = true ↔ name ∈ s.names := by
      rw [contains, find?, List.find?_isSome]
      simp only [decide_eq_true_eq]
      exact List.mem_map.symm
    _ ↔ ∃ c ∈ inserted, c.name = name := by rw [h.names_eq, List.mem_dedup, List.mem_map]

theorem Holds.isEmpty_iff (h : Holds inserted s) : s.isEmpty = true ↔ inserted = [] := by
  have hnames : s.names = [] ↔ inserted = [] := by
    rw [h.names_eq, List.dedup_eq_nil, List.map_eq_nil_iff]
  rw [← hnames, isEmpty, List.isEmpty_iff, names, List.map_eq_nil_iff]

/-- What is appended is found before what is there. -/
theorem find?_lastDefinitions_append (h : s.names.Nodup) (ds : List Constant) (name : Text) :
    (⟨lastDefinitions (s.constants ++ ds)⟩ : ConstantSet).find? name =
      (ds.reverse.find? fun c => c.name = name).or (s.find? name) := by
  have hpresent : s.constants.reverse.find? (fun c => c.name = name) = s.find? name := by
    rw [← find?_lastDefinitions, lastDefinitions_of_nodup h, find?]
  rw [find?, find?_lastDefinitions, List.reverse_append, List.find?_append, hpresent]

theorem find?_insert (h : s.names.Nodup) (c : Constant) (name : Text) :
    (s.insert c).1.find? name = if c.name = name then some c else s.find? name := by
  rw [insert_eq h, find?_lastDefinitions_append h]
  by_cases hname : c.name = name
  · simp [hname]
  · simp [hname]

theorem find?_extend (h : s.names.Nodup) (cs : List Constant) (name : Text) :
    (s.extend cs).find? name = (cs.reverse.find? fun c => c.name = name).or (s.find? name) := by
  rw [extend, ofList_eq, find?_lastDefinitions_append h]

theorem Holds.isMapOf (h : Holds inserted s) : IsMapOf inserted s where
  nodup := h.nodup
  names_eq := h.names_eq
  rel_find? := h.rel_find?
  contains_iff := h.contains_iff
  size_eq := by rw [← h.names_eq, names, List.length_map, size]
  isEmpty_iff := h.isEmpty_iff
  nodup_index := ConstantSet.nodup_index s
  mem_index name i := by
    rw [mem_index_iff_of_nodup h.nodup, names, List.getElem?_map, Option.map_eq_some_iff]
  size_index := ConstantSet.size_index h.nodup
  find?_index _ _ := find?_eq_some_iff_index h.nodup
  insert_returns _ _ := find?_eq_some_iff_mem h.nodup
  find?_insert := ConstantSet.find?_insert h.nodup
  find?_extend := ConstantSet.find?_extend h.nodup

/-! ## Nothing is lost -/

/-- What was inserted is present or was returned, some of it with values given since. -/
def Accounts (inserted present returned : List Constant) : Prop :=
  ∃ kept, List.Forall₂ Keeps inserted kept ∧ kept.Perm (present ++ returned)

/-- What an insertion returns goes to what was returned before. -/
theorem perm_insert_returned (s : ConstantSet) (c : Constant) (returned : List Constant) :
    (s.constants ++ returned ++ [c]).Perm
      ((s.insert c).1.constants ++ (returned ++ (s.insert c).2.toList)) := by
  calc
    List.Perm (s.constants ++ returned ++ [c]) (s.constants ++ [c] ++ returned) := by
      rw [List.append_assoc, List.append_assoc]
      exact List.perm_append_comm.append_left _
    List.Perm _ ((s.insert c).1.constants ++ (s.insert c).2.toList ++ returned) :=
      (perm_insert s c).symm.append_right returned
    List.Perm _ ((s.insert c).1.constants ++ (returned ++ (s.insert c).2.toList)) := by
      rw [List.append_assoc]
      exact List.perm_append_comm.append_left _

theorem Accounts.apply {step : Step} (h : Accounts inserted s.constants returned)
    (hstep : step.OneByOne) :
    Accounts (step.log inserted) (step.apply s).constants (returned ++ step.returned s) := by
  obtain ⟨kept, hkept, hperm⟩ := h
  cases step with
  | collect cs => exact hstep.elim
  | extend cs => exact hstep.elim
  | insert c =>
    refine ⟨kept ++ [c], List.rel_append hkept (.cons (Keeps.refl c) .nil), ?_⟩
    exact (hperm.append_right [c]).trans (perm_insert_returned s c returned)
  | resolve r =>
    -- the values that the run gives to what is present are carried over to what was kept
    have hreturned : List.Forall₂ Keeps returned returned :=
      List.forall₂_same.2 fun c _ => Keeps.refl c
    obtain ⟨kept', hgiven, hperm'⟩ := List.perm_comp_forall₂ hperm
      (List.rel_append (Resolver.keeps_run r s.constants) hreturned)
    have hnothing : (Step.resolve r).returned s = [] := rfl
    refine ⟨kept', forall₂_trans (fun _ _ _ => Keeps.trans) hkept hgiven, ?_⟩
    rw [hnothing, List.append_nil]
    exact hperm'

theorem Accounts.after (h : Accounts inserted s.constants returned)
    (hsteps : ∀ step ∈ steps, step.OneByOne) :
    Accounts (logAfter inserted steps) (s.after steps).constants
      (returned ++ s.returnedBy steps) := by
  induction steps generalizing inserted s returned with
  | nil =>
    rw [returnedBy, List.append_nil]
    exact h
  | cons step more ih =>
    obtain ⟨hstep, hmore⟩ := List.forall_mem_cons.1 hsteps
    rw [returnedBy, ← List.append_assoc]
    exact ih (h.apply hstep) hmore

/-- Without a resolution in between, what was inserted is there as it was. -/
theorem perm_insertions (s : ConstantSet) (returned cs : List Constant) :
    (s.constants ++ returned ++ cs).Perm
      ((s.after (cs.map .insert)).constants ++ (returned ++ s.returnedBy (cs.map .insert))) := by
  induction cs generalizing s returned with
  | nil => simp [after, returnedBy]
  | cons c more ih =>
    calc
      s.constants ++ returned ++ c :: more = s.constants ++ returned ++ [c] ++ more := by simp
      List.Perm _ ((s.insert c).1.constants ++ (returned ++ (s.insert c).2.toList) ++ more) :=
        (perm_insert_returned s c returned).append_right more
      List.Perm _ (((s.insert c).1.after (more.map .insert)).constants ++
          (returned ++ (s.insert c).2.toList ++ (s.insert c).1.returnedBy (more.map .insert))) :=
        ih (s.insert c).1 (returned ++ (s.insert c).2.toList)
      _ = ((s.insert c).1.after (more.map .insert)).constants ++
          (returned ++ ((s.insert c).2.toList ++
            (s.insert c).1.returnedBy (more.map .insert))) := by rw [List.append_assoc returned]

/-- Every set that comes about is an ordered map of what was inserted into it. What is inserted one
by one from then on is present or was returned, and where no resolution gives it a value it is there
as it was. -/
theorem ordered_map (steps : List Step) :
    let s := empty.after steps
    IsMapOf (logAfter [] steps) s ∧
    (∀ cs : List Constant,
      ((s.after (cs.map .insert)).constants ++ s.returnedBy (cs.map .insert)).Perm
        (s.constants ++ cs)) ∧
    ∀ later : List Step, (∀ step ∈ later, step.OneByOne) →
      Accounts (logAfter s.constants later) (s.after later).constants (s.returnedBy later) := by
  have hempty : Holds [] empty := .nil
  refine ⟨(hempty.after steps).isMapOf, fun cs => ?_, fun later hlater => ?_⟩
  · have hperm := perm_insertions (empty.after steps) [] cs
    rw [List.append_nil, List.nil_append] at hperm
    exact hperm.symm
  · have hstart : Accounts (empty.after steps).constants (empty.after steps).constants [] :=
      ⟨_, List.forall₂_same.2 fun c _ => Keeps.refl c, by rw [List.append_nil]⟩
    exact hstart.after hlater

/-- A resolution fails for want of `B` after it has given `A` a value; `A` is then inserted anew and
`B` after it, with a resolution that succeeds. -/
theorem ordered_map_redefined :
    let define (name value : String) : Constant := .define name value "" 0 ""
    let resolver : Resolver := .new .standard
    let steps : List Step := [.collect [define "A" "1", define "C" "0", define "A" "2"],
      .extend [define "D" "B"], .resolve resolver]
    let later : List Step := [.insert (define "A" "B + 1"), .insert (define "B" "4"),
      .resolve resolver, .insert (define "D" "5")]
    let s := empty.after steps
    s.names = ["C", "A", "D"] ∧
    (s.find? "A").map Constant.resolvedValue = some (some 2) ∧
    IsMapOf (logAfter [] steps) s ∧
    (s.returnedBy later).map Constant.name = ["A", "D"] ∧
    (s.returnedBy later).map Constant.resolvedValue = [some 2, some 4] ∧
    Accounts (logAfter s.constants later) (s.after later).constants (s.returnedBy later) := by
  intro define resolver steps later s
  obtain ⟨hmap, -, haccounts⟩ := ordered_map steps
  have hlater : ∀ step ∈ later, step.OneByOne := by simp [later, Step.OneByOne]
  exact ⟨by decide +kernel, by decide +kernel, hmap, by decide +kernel, by decide +kernel,
    haccounts later hlater⟩

end ConstantSet

end HeaderConstants
