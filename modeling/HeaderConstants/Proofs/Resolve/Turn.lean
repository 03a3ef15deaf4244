import Mathlib.Data.Finset.Card
import HeaderConstants.Proofs.Resolve.Settling

/-!
# Turns

In a run each constant without a value is resolved once, against the table of that moment: its turn.
All tables of a run have the same names, each name once.

* `Resolver.turns`, `Resolver.turn_of_mem_constants`: the turns of a run;
* `Resolve.length_table`: a table has a place for each name;
* `Resolver.invariant_of_mem_turnsFrom`: what refreshing keeps holds of the table of every turn.
-/

namespace HeaderConstants
set_option autoImplicit false

/-- A constant with the table against which it is resolved. -/
structure Turn where
  table : Resolve.Table
  constant : Constant
  deriving DecidableEq

namespace Resolver

/-- The turns from a table on. Where the tables keep up the first failure ends them; else each
constant has its turn. -/
def turnsFrom (keepUp : Bool) (limit : Nat) : Resolve.Table → List Constant → List Turn
  | _, [] => []
  | t, c :: more =>
    if c.isResolved then turnsFrom keepUp limit t more
    else
      ⟨t, c⟩ :: match Resolve.resolveConstant t limit c with
        | .error _ => if keepUp then [] else turnsFrom keepUp limit t more
        | .ok r =>
          turnsFrom keepUp limit (Resolve.tableAfter keepUp t (c.resolve r.value r.trace) more) more

/-- The pass limit of a run over the constants. -/
def limit (r : Resolver) (cs : List Constant) : Nat := r.config.passLimit (Resolve.table cs).length

def turns (r : Resolver) (cs : List Constant) : List Turn :=
  turnsFrom (!r.config.parallel) (r.limit cs) (Resolve.table cs) cs

end Resolver

namespace Resolve

variable {t : Table} {cs more : List Constant} {c : Constant}

/-! ## Tables -/

theorem table_map_name (cs : List Constant) :
    (table cs).map Substitution.name = order (cs.map Constant.name) := by
  simp [table, Function.comp_def]

theorem nodup_of_descending {names : List Text} (h : Descending names) : names.Nodup := by
  refine h.imp fun hba e => ?_
  rw [e, Text.precedes_irrefl] at hba
  exact Bool.false_ne_true hba

theorem length_table (cs : List Constant) :
    (table cs).length = (cs.map Constant.name).toFinset.card := by
  have hnodup := nodup_of_descending (descending_order (cs.map Constant.name))
  have hset : (order (cs.map Constant.name)).toFinset = (cs.map Constant.name).toFinset := by
    ext name
    rw [List.mem_toFinset, List.mem_toFinset, mem_order]
  rw [← hset, List.toFinset_card_of_nodup hnodup, ← table_map_name, List.length_map]

theorem exists_constant_of_mem_table {s : Substitution} (hs : s ∈ table cs) :
    ∃ c ∈ cs, c.name = s.name ∧ s.replacement = c.substitutionText := by
  obtain ⟨name, hname, rfl⟩ := List.mem_map.1 hs
  rw [mem_order] at hname
  unfold replacementOf
  cases hf : cs.reverse.find? (fun c => c.name = name) with
  | none =>
    obtain ⟨c, hc, rfl⟩ := List.mem_map.1 hname
    rw [List.find?_eq_none] at hf
    exact absurd (by simp) (hf c (List.mem_reverse.2 hc))
  | some c =>
    refine ⟨c, List.mem_reverse.1 (List.mem_of_find?_eq_some hf), ?_, rfl⟩
    simpa using List.find?_some hf

theorem enclosing_table (h : ∀ c ∈ cs, PlainName c.name) : Enclosing (table cs) := by
  intro s hs
  obtain ⟨c, hc, hname, hrep⟩ := exists_constant_of_mem_table hs
  exact ⟨hname ▸ h c hc, c.body, hrep⟩

/-! ## Refreshing -/

theorem map_name_tableAfter (keepUp : Bool) (t : Table) (c : Constant) (more : List Constant) :
    (tableAfter keepUp t c more).map Substitution.name = t.map Substitution.name := by
  unfold tableAfter
  split
  · rw [refresh, List.map_map]
    refine List.map_congr_left fun s _ => ?_
    simp only [Function.comp_apply]
    split <;> rfl
  · rfl

theorem length_tableAfter (keepUp : Bool) (t : Table) (c : Constant) (more : List Constant) :
    (tableAfter keepUp t c more).length = t.length := by
  simpa using congrArg List.length (map_name_tableAfter keepUp t c more)

/-- After a turn an entry is the old one, or the one of the constant, which owns its name. -/
theorem mem_tableAfter {keepUp : Bool} {s : Substitution}
    (hs : s ∈ tableAfter keepUp t c more) :
    s ∈ t ∨ (s = ⟨c.name, c.substitutionText⟩ ∧ ∀ d ∈ more, d.name ≠ c.name) := by
  unfold tableAfter at hs
  split at hs
  · next howns =>
    obtain ⟨s', hs', rfl⟩ := List.mem_map.1 hs
    split
    · next hname =>
      refine .inr ⟨by rw [hname], fun d hd he => ?_⟩
      simp only [Bool.and_eq_true, Bool.not_eq_true', List.any_eq_false] at howns
      exact howns.2 d hd (decide_eq_true he)
    · exact .inl hs'
  · exact .inl hs

theorem Enclosing.tableAfter (h : Enclosing t) (hc : PlainName c.name) (keepUp : Bool) :
    Enclosing (tableAfter keepUp t c more) := by
  intro s hs
  rcases mem_tableAfter hs with hs | ⟨rfl, -⟩
  · exact h s hs
  · exact ⟨hc, c.body, rfl⟩

/-! ## One constant -/

theorem resolveConstant_eq_ok_iff {limit : Nat} {found : Resolution} :
    resolveConstant t limit c = .ok found ↔ ∃ e, expand? t limit c.rawValue = some e ∧
      evaluate e.text = .ok found.value ∧ e.steps = found.trace ∧ e.passes = found.passes := by
  rw [resolveConstant]
  cases expand? t limit c.rawValue with
  | none => simp
  | some e =>
    cases hv : evaluate e.text with
    | error cause => simp [hv]
    | ok v =>
      simp only [hv, Option.some.injEq, exists_eq_left', Except.ok.injEq]
      constructor
      · rintro rfl
        exact ⟨rfl, rfl, rfl⟩
      · rintro ⟨rfl, hsteps, hpasses⟩
        rw [hsteps, hpasses]

theorem resolveConstant_eq_cyclic_iff {limit : Nat} {origin : Origin} {chain : List Text} :
    resolveConstant t limit c = .error (.cyclic origin chain) ↔
      expand? t limit c.rawValue = none ∧ c.origin = origin ∧ referenceChain t c = chain := by
  rw [resolveConstant]
  cases expand? t limit c.rawValue with
  | none => simp
  | some e =>
    simp only [reduceCtorEq, false_and, iff_false]
    intro h
    split at h <;> simp at h

theorem resolveConstant_eq_expression_iff {limit : Nat} {origin : Origin} {cause : EvalError} :
    resolveConstant t limit c = .error (.expression origin cause) ↔
      ∃ e, expand? t limit c.rawValue = some e ∧ c.origin = origin ∧
        evaluate e.text = .error cause := by
  rw [resolveConstant]
  cases expand? t limit c.rawValue with
  | none => simp
  | some e => cases hv : evaluate e.text <;> simp [hv]

end Resolve

namespace Resolver

open Resolve

variable {keepUp : Bool} {limit : Nat} {t : Table} {cs more : List Constant} {c : Constant}
  {stats : ResolutionStats} {e : ResolveError}

/-! ## The steps of a run -/

theorem runFrom_of_isResolved (h : c.isResolved = true) :
    runFrom keepUp limit t stats (c :: more) = .after c (runFrom keepUp limit t stats more) := by
  rw [runFrom, if_pos h]

theorem runFrom_of_error (h : c.isResolved = false)
    (he : resolveConstant t limit c = .error e) :
    runFrom keepUp limit t stats (c :: more) = ⟨c :: more, stats, some e⟩ := by
  rw [runFrom, if_neg (by simp [h]), he]

theorem runFrom_of_ok (h : c.isResolved = false) {r : Resolution}
    (hr : resolveConstant t limit c = .ok r) :
    runFrom keepUp limit t stats (c :: more) = .after (c.resolve r.value r.trace)
      (runFrom keepUp limit (tableAfter keepUp t (c.resolve r.value r.trace) more) (stats.commit r)
        more) := by
  rw [runFrom, if_neg (by simp [h]), hr]

/-- A constant after a run is one from before it, or was resolved in its turn. -/
theorem turn_of_mem_constants {c' : Constant}
    (h : c' ∈ (runFrom keepUp limit t stats cs).constants) :
    c' ∈ cs ∨ ∃ turn ∈ turnsFrom keepUp limit t cs, ∃ r,
      resolveConstant turn.table limit turn.constant = .ok r ∧
        c' = turn.constant.resolve r.value r.trace := by
  induction cs generalizing t stats with
  | nil => exact .inl h
  | cons c more ih =>
    cases hres : c.isResolved with
    | true =>
      rw [runFrom_of_isResolved hres] at h
      rw [turnsFrom, if_pos hres]
      rcases List.mem_cons.1 h with rfl | h
      · exact .inl (List.mem_cons_self ..)
      · exact (ih h).imp_left (List.mem_cons_of_mem c)
    | false =>
      rw [turnsFrom, if_neg (by simp [hres])]
      cases hr : resolveConstant t limit c with
      | error e =>
        rw [runFrom_of_error hres hr] at h
        exact .inl h
      | ok r =>
        rw [runFrom_of_ok hres hr] at h
        rcases List.mem_cons.1 h with rfl | h
        · exact .inr ⟨⟨t, c⟩, List.mem_cons_self .., r, hr, rfl⟩
        · refine (ih h).imp (List.mem_cons_of_mem c) fun ⟨turn, hturn, hresult⟩ => ?_
          exact ⟨turn, List.mem_cons_of_mem _ hturn, hresult⟩

/-- What a run reports comes from a turn. -/
theorem exists_turn_of_failure (h : (runFrom keepUp limit t stats cs).failure = some e) :
    ∃ turn ∈ turnsFrom keepUp limit t cs,
      resolveConstant turn.table limit turn.constant = .error e := by
  induction cs generalizing t stats with
  | nil => exact absurd h (by simp [runFrom])
  | cons c more ih =>
    cases hres : c.isResolved with
    | true =>
      rw [runFrom_of_isResolved hres] at h
      rw [turnsFrom, if_pos hres]
      exact ih h
    | false =>
      rw [turnsFrom, if_neg (by simp [hres])]
      cases hr : resolveConstant t limit c with
      | error e' =>
        rw [runFrom_of_error hres hr] at h
        obtain rfl := Option.some.inj h
        exact ⟨⟨t, c⟩, List.mem_cons_self .., hr⟩
      | ok found =>
        rw [runFrom_of_ok hres hr] at h
        obtain ⟨turn, hturn, herror⟩ := ih h
        exact ⟨turn, List.mem_cons_of_mem _ hturn, herror⟩

theorem constant_mem_of_mem_turnsFrom {turn : Turn} (h : turn ∈ turnsFrom keepUp limit t cs) :
    turn.constant ∈ cs := by
  induction cs generalizing t with
  | nil => exact absurd h List.not_mem_nil
  | cons c more ih =>
    rw [turnsFrom] at h
    split at h
    · exact List.mem_cons_of_mem c (ih h)
    · rcases List.mem_cons.1 h with rfl | h
      · exact List.mem_cons_self ..
      · split at h
        · split at h
          · exact absurd h List.not_mem_nil
          · exact List.mem_cons_of_mem c (ih h)
        · exact List.mem_cons_of_mem c (ih h)

/-! ## The tables of the turns -/

/-- What the first table has and every turn keeps, the tables of all turns have. -/
theorem invariant_of_mem_turnsFrom {P : Table → Prop} (ht : P t)
    (hstep : ∀ t, ∀ c ∈ cs, ∀ v trace more, P t → P (tableAfter keepUp t (c.resolve v trace) more))
    {turn : Turn} (h : turn ∈ turnsFrom keepUp limit t cs) : P turn.table := by
  induction cs generalizing t with
  | nil => simp [turnsFrom] at h
  | cons c more ih =>
    have hmore := fun t d (hd : d ∈ more) => hstep t d (List.mem_cons_of_mem c hd)
    rw [turnsFrom] at h
    split at h
    · exact ih ht hmore h
    · rcases List.mem_cons.1 h with rfl | h
      · exact ht
      · split at h
        · split at h
          · simp at h
          · exact ih ht hmore h
        · exact ih (hstep t c (List.mem_cons_self ..) _ _ _ ht) hmore h

theorem table_of_mem_turns {r : Resolver} {turn : Turn} (h : turn ∈ r.turns cs) :
    turn.table.map Substitution.name = (table cs).map Substitution.name :=
  invariant_of_mem_turnsFrom
    (P := fun t => t.map Substitution.name = (table cs).map Substitution.name) rfl
    (fun t _ _ _ _ more ht => (map_name_tableAfter _ t _ more).trans ht) h

theorem mem_names_of_mem_turns {r : Resolver} {turn : Turn} (h : turn ∈ r.turns cs) {name : Text} :
    name ∈ turn.table.map Substitution.name ↔ name ∈ cs.map Constant.name := by
  rw [table_of_mem_turns h, table_map_name, mem_order]

theorem enclosing_of_mem_turns {r : Resolver} {turn : Turn}
    (hnames : ∀ c ∈ cs, PlainName c.name) (h : turn ∈ r.turns cs) : Enclosing turn.table :=
  invariant_of_mem_turnsFrom (enclosing_table hnames)
    (fun _ c hc v trace _ ht => ht.tableAfter (c := c.resolve v trace) (hnames c hc) _) h

end Resolver

end HeaderConstants
