import HeaderConstants.Proofs.Constant.LastDefinition
import HeaderConstants.Proofs.Generate.Resolved

/-!
# Every constant counts once

A selection takes up the last definitions of the allowed names of each batch. Over all batches its
counts tell of every constant that came whether it was kept, has a name that is not allowed or was
superseded, so that the counts of a generation add up.

* `Selection.exists_select_eq`, `Selection.total_select`: the set and the counts of one batch;
* `Selection.selectAll`: batches one after another;
* `Selection.selectAll_exact`: their sets and counts, and the counts of a generation.
-/

namespace HeaderConstants
set_option autoImplicit false

variable {c : Constant} {set : ConstantSet} {name : Text}

theorem Allowlist.allows_iff {a : Allowlist} :
    a.allows name = true ↔ ∃ start ∈ a.prefixes, start <+: name := by
  simp only [allows, Text.startsWith, List.any_eq_true, List.isPrefixOf_iff_prefix]

def SelectionStats.total (s : SelectionStats) : Nat := s.kept + s.ignored + s.superseded

namespace Selection

open ConstantSet

variable {sel : Selection}

theorem offer_of_allows (h : sel.allowlist.allows c.name = true) :
    offer (sel, set) c =
      (⟨sel.allowlist, ⟨sel.stats.kept, sel.stats.ignored,
          sel.stats.superseded + (set.insert c).2.toList.length⟩⟩,
        set.add c) := by
  rw [offer, if_pos h]
  rfl

theorem offer_of_not_allows (h : sel.allowlist.allows c.name = false) :
    offer (sel, set) c =
      (⟨sel.allowlist, ⟨sel.stats.kept, sel.stats.ignored + 1, sel.stats.superseded⟩⟩, set) := by
  rw [offer, if_neg (by simp [h])]

/-- Offers take up the allowed constants and count the others. -/
theorem exists_foldl_offer_eq (sel : Selection) (set : ConstantSet) (batch : List Constant) :
    ∃ superseded, batch.foldl offer (sel, set) =
      (⟨sel.allowlist, ⟨sel.stats.kept,
          sel.stats.ignored + batch.countP (fun c => !sel.allowlist.allows c.name), superseded⟩⟩,
        (batch.filter fun c => sel.allowlist.allows c.name).foldl add set) := by
  induction batch generalizing sel set with
  | nil => exact ⟨_, rfl⟩
  | cons c more ih =>
    cases hc : sel.allowlist.allows c.name with
    | true =>
      rw [List.foldl_cons, offer_of_allows hc, List.countP_cons_of_neg (by simp [hc]),
        List.filter_cons_of_pos (by simpa using hc), List.foldl_cons]
      exact ih _ _
    | false =>
      rw [List.foldl_cons, offer_of_not_allows hc, List.countP_cons_of_pos (by simp [hc]),
        List.filter_cons_of_neg (by simp [hc]), ← Nat.add_assoc, Nat.add_right_comm]
      exact ih _ _

/-- A constant that is offered is ignored, supersedes another or makes the set larger. -/
theorem total_offer (sel : Selection) (set : ConstantSet) (c : Constant) :
    (offer (sel, set) c).1.stats.total + (offer (sel, set) c).2.size =
      sel.stats.total + set.size + 1 := by
  cases hc : sel.allowlist.allows c.name with
  | true =>
    have hsize : (set.add c).size + (set.insert c).2.toList.length = set.size + 1 :=
      size_insert set c
    rw [offer_of_allows hc]
    simp only [SelectionStats.total]
    omega
  | false =>
    rw [offer_of_not_allows hc]
    simp only [SelectionStats.total]
    omega

theorem total_foldl_offer (sel : Selection) (set : ConstantSet) (batch : List Constant) :
    (batch.foldl offer (sel, set)).1.stats.total + (batch.foldl offer (sel, set)).2.size =
      sel.stats.total + set.size + batch.length := by
  induction batch generalizing sel set with
  | nil => rfl
  | cons c more ih =>
    rw [List.foldl_cons, ih, total_offer, List.length_cons, Nat.add_assoc, Nat.add_comm 1]

/-- A batch is taken up as the last definitions of its allowed names. -/
theorem exists_select_eq (sel : Selection) (batch : List Constant) :
    ∃ superseded, sel.select batch =
      (⟨sel.allowlist, ⟨sel.stats.kept + (sel.select batch).2.size,
          sel.stats.ignored + batch.countP (fun c => !sel.allowlist.allows c.name), superseded⟩⟩,
        ⟨(lastDefinitions batch).filter fun c => sel.allowlist.allows c.name⟩) := by
  obtain ⟨superseded, h⟩ := exists_foldl_offer_eq sel empty batch
  have hset : (batch.filter fun c => sel.allowlist.allows c.name).foldl add empty =
      ⟨(lastDefinitions batch).filter fun c => sel.allowlist.allows c.name⟩ := by
    rw [← lastDefinitions_filter]
    exact ofList_eq _
  refine ⟨superseded, ?_⟩
  rw [select, h, hset]

theorem snd_select (sel : Selection) (batch : List Constant) :
    (sel.select batch).2 =
      ⟨(lastDefinitions batch).filter fun c => sel.allowlist.allows c.name⟩ := by
  obtain ⟨_, h⟩ := exists_select_eq sel batch
  exact congrArg Prod.snd h

theorem allowlist_select (sel : Selection) (batch : List Constant) :
    (sel.select batch).1.allowlist = sel.allowlist := by
  obtain ⟨_, h⟩ := exists_select_eq sel batch
  exact congrArg (fun p => p.1.allowlist) h

theorem kept_select (sel : Selection) (batch : List Constant) :
    (sel.select batch).1.stats.kept = sel.stats.kept + (sel.select batch).2.size := by
  obtain ⟨_, h⟩ := exists_select_eq sel batch
  exact congrArg (fun p => p.1.stats.kept) h

theorem ignored_select (sel : Selection) (batch : List Constant) :
    (sel.select batch).1.stats.ignored =
      sel.stats.ignored + batch.countP fun c => !sel.allowlist.allows c.name := by
  obtain ⟨_, h⟩ := exists_select_eq sel batch
  exact congrArg (fun p => p.1.stats.ignored) h

/-- A selection counts every constant of its batch once. -/
theorem total_select (sel : Selection) (batch : List Constant) :
    (sel.select batch).1.stats.total = sel.stats.total + batch.length := by
  have hoffered := total_foldl_offer sel empty batch
  have hkept : (sel.select batch).1.stats.total =
      (batch.foldl offer (sel, empty)).1.stats.total + (batch.foldl offer (sel, empty)).2.size := by
    simp only [select, SelectionStats.total]
    omega
  rw [hkept, hoffered]
  rfl

/-! ## Batches -/

/-- Batches through one selection: the selection after them and their sets. -/
def selectAll (sel : Selection) : List (List Constant) → Selection × List ConstantSet
  | [] => (sel, [])
  | batch :: more =>
    let (sel', set) := sel.select batch
    let (last, sets) := selectAll sel' more
    (last, set :: sets)

theorem selectAll_cons (sel : Selection) (batch : List Constant) (more : List (List Constant)) :
    sel.selectAll (batch :: more) =
      (((sel.select batch).1.selectAll more).1,
        (sel.select batch).2 :: ((sel.select batch).1.selectAll more).2) := rfl

theorem snd_selectAll (sel : Selection) (batches : List (List Constant)) :
    (sel.selectAll batches).2 = batches.map fun batch =>
      ⟨(lastDefinitions batch).filter fun c => sel.allowlist.allows c.name⟩ := by
  induction batches generalizing sel with
  | nil => rfl
  | cons batch more ih => rw [selectAll_cons, ih, snd_select, allowlist_select, List.map_cons]

theorem kept_selectAll (sel : Selection) (batches : List (List Constant)) :
    (sel.selectAll batches).1.stats.kept =
      sel.stats.kept + ((sel.selectAll batches).2.map ConstantSet.size).sum := by
  induction batches generalizing sel with
  | nil => rfl
  | cons batch more ih =>
    rw [selectAll_cons, ih, kept_select, List.map_cons, List.sum_cons, Nat.add_assoc]

theorem ignored_selectAll (sel : Selection) (batches : List (List Constant)) :
    (sel.selectAll batches).1.stats.ignored =
      sel.stats.ignored + batches.flatten.countP fun c => !sel.allowlist.allows c.name := by
  induction batches generalizing sel with
  | nil => rfl
  | cons batch more ih =>
    rw [selectAll_cons, ih, ignored_select, allowlist_select, List.flatten_cons,
      List.countP_append, Nat.add_assoc]

theorem total_selectAll (sel : Selection) (batches : List (List Constant)) :
    (sel.selectAll batches).1.stats.total = sel.stats.total + batches.flatten.length := by
  induction batches generalizing sel with
  | nil => rfl
  | cons batch more ih =>
    rw [selectAll_cons, ih, total_select, List.flatten_cons, List.length_append, Nat.add_assoc]

theorem definitions_of_resolve {config : GeneratorConfig} {sources : List HeaderSource}
    {resolved : ResolvedConstants} (h : config.resolve sources = .ok resolved) :
    resolved.stats.definitions =
      resolved.stats.constants + resolved.stats.ignored + resolved.stats.superseded := by
  obtain ⟨headers, -, hresolved⟩ := GeneratorConfig.resolve_eq_ok_iff.1 h
  obtain ⟨-, rfl⟩ := GeneratorConfig.resolveHeaders_eq_ok_iff.1 hresolved
  have htotal := total_select (.new config.allowlist) (GeneratorConfig.definitions headers)
  have hkept := kept_select (.new config.allowlist) (GeneratorConfig.definitions headers)
  simp only [SelectionStats.total, new, Nat.zero_add] at htotal hkept
  rw [hkept] at htotal
  exact htotal.symm

/-- Of each batch a selection keeps the constants that have an allowed name which does not come
again in the batch, and of all constants it counts each once. So the counts of a generation add
up. -/
theorem selectAll_exact (a : Allowlist) (batches : List (List Constant)) :
    let (sel, sets) := (new a).selectAll batches
    sets.map ConstantSet.constants = batches.map (fun batch =>
      (lastDefinitions batch).filter fun c => ∃ start ∈ a.prefixes, start <+: c.name) ∧
    sel.stats.kept = (sets.map ConstantSet.size).sum ∧
    sel.stats.ignored =
      (batches.flatten.filter fun c => ¬ ∃ start ∈ a.prefixes, start <+: c.name).length ∧
    sel.stats.kept + sel.stats.ignored + sel.stats.superseded = batches.flatten.length ∧
    ∀ (config : GeneratorConfig) (sources : List HeaderSource) (resolved : ResolvedConstants),
      config.resolve sources = .ok resolved →
        resolved.stats.definitions =
          resolved.stats.constants + resolved.stats.ignored + resolved.stats.superseded := by
  have hallows : ∀ c : Constant,
      decide (∃ start ∈ a.prefixes, start <+: c.name) = a.allows c.name := fun c => by
    rw [Bool.eq_iff_iff, decide_eq_true_iff, Allowlist.allows_iff]
  have hkept := kept_selectAll (new a) batches
  have hignored := ignored_selectAll (new a) batches
  have htotal := total_selectAll (new a) batches
  simp only [new, SelectionStats.total, Nat.zero_add, Nat.add_zero] at hkept hignored htotal
  refine ⟨?_, hkept, ?_, htotal, fun _ _ _ h => definitions_of_resolve h⟩
  · rw [snd_selectAll, List.map_map]
    simp only [hallows]
    rfl
  · simp only [decide_not, hallows]
    rw [← List.countP_eq_length_filter]
    exact hignored

/-- A name that comes in three batches, twice in the first of them, among a name that is not
allowed; the headers of a generation define it twice too. -/
theorem selectAll_exact_redefined :
    let define (name value : String) : Constant := .define name value "" 0 ""
    let batches : List (List Constant) :=
      [[define "CKA_A" "1", define "OTHER" "2", define "CKA_B" "3", define "CKA_A" "4"],
        [], [define "CKA_A" "5"]]
    let sources : List HeaderSource :=
      [⟨"a.h", "#define CKA_A 1\n#define OTHER 2"⟩, ⟨"b.h", "#define CKA_A CKA_B\n#define CKA_B 3"⟩]
    let (sel, sets) := (new .pkcs11).selectAll batches
    sets.map ConstantSet.constants =
      [[define "CKA_B" "3", define "CKA_A" "4"], [], [define "CKA_A" "5"]] ∧
    sel.stats = ⟨3, 1, 1⟩ ∧
    ∃ resolved, GeneratorConfig.standard.resolve sources = .ok resolved ∧
      resolved.stats.definitions =
        resolved.stats.constants + resolved.stats.ignored + resolved.stats.superseded := by
  intro define batches sources
  have hrun : (GeneratorConfig.standard.resolve sources).toOption.isSome = true := by
    decide +kernel
  obtain ⟨resolved, hok⟩ := Option.isSome_iff_exists.1 hrun
  have h : GeneratorConfig.standard.resolve sources = .ok resolved := toOption_eq_some_iff.1 hok
  obtain ⟨-, -, -, -, hadd⟩ := selectAll_exact .pkcs11 batches
  exact ⟨by decide +kernel, by decide +kernel, resolved, h, hadd _ _ _ h⟩

end Selection

end HeaderConstants
