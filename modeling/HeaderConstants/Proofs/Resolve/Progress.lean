import Mathlib.Algebra.Ring.Nat
import Mathlib.Data.List.Forall2
import HeaderConstants.Proofs.Resolve.Turn

/-!
# How far a run gets

A run gives values to the constants in order and stops at the first that gets none. The constants
before that one have their values then, and the others are as they were. The statistics count what
the run has resolved: the turns up to the one that failed.

* `Constant.Keeps`: what a run does to a constant;
* `Resolver.StoppedAt`, `Resolver.existsUnique_stop`: the place where a run stops;
* `Resolver.commits`, `Resolver.run_commits`: the turns that give a value, and what they add to the
  statistics.
-/

namespace HeaderConstants
set_option autoImplicit false

/-- Fields that are equal wherever the relation holds agree over related lists. -/
theorem map_eq_of_forall₂ {α β γ : Type} (f : α → γ) (g : β → γ) {R : α → β → Prop} {xs : List α}
    {ys : List β} (h : List.Forall₂ R xs ys) (heq : ∀ x y, R x y → g y = f x) :
    ys.map g = xs.map f := by
  have hall : List.Forall₂ (fun x y => f x = g y) xs ys := h.imp fun x y hxy => (heq x y hxy).symm
  rw [← List.forall₂_map_right_iff, ← List.forall₂_map_left_iff, List.forall₂_eq_eq_eq] at hall
  exact hall.symm

theorem exists_of_mem_forall₂ {α β : Type} {R : α → β → Prop} {xs : List α} {ys : List β}
    (h : List.Forall₂ R xs ys) {y : β} (hy : y ∈ ys) : ∃ x ∈ xs, R x y := by
  induction h with
  | nil => exact absurd hy List.not_mem_nil
  | @cons x y' more more' hxy _ ih =>
    rcases List.mem_cons.1 hy with rfl | hy
    · exact ⟨x, List.mem_cons_self .., hxy⟩
    · obtain ⟨x', hx', hrel⟩ := ih hy
      exact ⟨x', List.mem_cons_of_mem x hx', hrel⟩

namespace Constant

/-- The constants have one definition: they differ at most in the value and its trace. -/
def SameDefinition (c c' : Constant) : Prop :=
  c'.name = c.name ∧ c'.rawValue = c.rawValue ∧ c'.sourceFile = c.sourceFile ∧
    c'.sourceLine = c.sourceLine ∧ c'.line = c.line

/-- The definition stays, and so does a value that is there. -/
def Keeps (c c' : Constant) : Prop := SameDefinition c c' ∧ (c.isResolved = true → c' = c)

theorem Keeps.refl (c : Constant) : Keeps c c := ⟨⟨rfl, rfl, rfl, rfl, rfl⟩, fun _ => rfl⟩

theorem keeps_resolve {c : Constant} (hopen : c.isResolved = false) (v : UInt64)
    (trace : List ResolutionStep) : Keeps c (c.resolve v trace) := by
  refine ⟨⟨rfl, rfl, rfl, rfl, rfl⟩, fun hres => ?_⟩
  rw [hopen] at hres
  exact Bool.noConfusion hres

end Constant

namespace Resolver

open Resolve Constant

variable {keepUp : Bool} {limit k k' : Nat} {t : Table} {cs cs' more : List Constant}
  {c c' : Constant} {stats : ResolutionStats} {failure : Option ResolveError}

/-! ## Constants -/

theorem keeps_runFrom :
    List.Forall₂ Keeps cs (runFrom keepUp limit t stats cs).constants := by
  induction cs generalizing t stats with
  | nil => exact .nil
  | cons c more ih =>
    cases hres : c.isResolved with
    | true =>
      rw [runFrom_of_isResolved hres]
      exact .cons (Keeps.refl c) ih
    | false =>
      cases hr : resolveConstant t limit c with
      | error e =>
        rw [runFrom_of_error hres hr]
        exact List.forall₂_same.2 fun d _ => Keeps.refl d
      | ok found =>
        rw [runFrom_of_ok hres hr]
        exact .cons (keeps_resolve hres found.value found.trace) ih

theorem keeps_run (r : Resolver) (cs : List Constant) :
    List.Forall₂ Keeps cs (r.run cs).constants := keeps_runFrom

theorem map_name_run (r : Resolver) (cs : List Constant) :
    (r.run cs).constants.map Constant.name = cs.map Constant.name :=
  map_eq_of_forall₂ Constant.name Constant.name (keeps_run r cs) fun _ _ hkeeps => hkeeps.1.1

/-! ## The place where a run stops -/

/-- A run over the constants stopped at the place: at the end, or at a constant without a value, of
which the failure tells. -/
def StoppedAt (cs : List Constant) (k : Nat) : Option ResolveError → Prop
  | none => k = cs.length
  | some e => ∃ c, cs[k]? = some c ∧ c.isResolved = false ∧ e.origin = c.origin

/-- Up to the place all constants have values, and from there on they are as they were. -/
def DoneUpTo (cs cs' : List Constant) (k : Nat) : Prop :=
  (∀ c ∈ cs'.take k, c.isResolved = true) ∧ cs'.drop k = cs.drop k

theorem StoppedAt.cons (c : Constant) (h : StoppedAt cs k failure) :
    StoppedAt (c :: cs) (k + 1) failure := by
  cases failure with
  | none => exact congrArg (· + 1) h
  | some e => exact h

theorem DoneUpTo.cons (hc : c'.isResolved = true) (h : DoneUpTo cs cs' k) :
    DoneUpTo (c :: cs) (c' :: cs') (k + 1) := by
  refine ⟨fun d hd => ?_, h.2⟩
  rw [List.take_succ_cons, List.mem_cons] at hd
  rcases hd with rfl | hd
  · exact hc
  · exact h.1 d hd

theorem origin_of_resolveConstant {e : ResolveError} (h : resolveConstant t limit c = .error e) :
    e.origin = c.origin := by
  rw [resolveConstant] at h
  split at h
  · exact Except.error.inj h ▸ rfl
  · split at h
    · exact Except.error.inj h ▸ rfl
    · exact absurd h (by simp)

theorem exists_stop_runFrom :
    ∃ k, DoneUpTo cs (runFrom keepUp limit t stats cs).constants k ∧
      StoppedAt cs k (runFrom keepUp limit t stats cs).failure := by
  induction cs generalizing t stats with
  | nil => exact ⟨0, ⟨by simp, rfl⟩, rfl⟩
  | cons c more ih =>
    cases hres : c.isResolved with
    | true =>
      obtain ⟨k, hdone, hstop⟩ := @ih t stats
      rw [runFrom_of_isResolved hres]
      exact ⟨k + 1, hdone.cons hres, hstop.cons c⟩
    | false =>
      cases hr : resolveConstant t limit c with
      | error e =>
        rw [runFrom_of_error hres hr]
        exact ⟨0, ⟨by simp, rfl⟩, c, rfl, hres, origin_of_resolveConstant hr⟩
      | ok found =>
        have hc' : (c.resolve found.value found.trace).isResolved = true := rfl
        obtain ⟨k, hdone, hstop⟩ :=
          @ih (tableAfter keepUp t (c.resolve found.value found.trace) more) (stats.commit found)
        rw [runFrom_of_ok hres hr]
        exact ⟨k + 1, hdone.cons hc', hstop.cons c⟩

theorem le_of_stop (hdone : DoneUpTo cs cs' k) (hdone' : DoneUpTo cs cs' k')
    (hstop : StoppedAt cs k failure) (hstop' : StoppedAt cs k' failure) : k' ≤ k := by
  cases failure with
  | none => exact hstop'.trans_le hstop.ge
  | some e =>
    obtain ⟨c, hc, hopen, -⟩ := hstop
    by_contra hlt
    have hkept : cs'[k]? = some c := by
      have h : (cs'.drop k)[0]? = (cs.drop k)[0]? := by rw [hdone.2]
      rw [List.getElem?_drop, List.getElem?_drop] at h
      exact h.trans hc
    have hmem : c ∈ cs'.take k' := by
      have hk : k < k' := by omega
      have h : (cs'.take k')[k]? = some c := by rw [List.getElem?_take_of_lt hk, hkept]
      exact List.mem_of_getElem? h
    rw [hdone'.1 c hmem] at hopen
    exact Bool.noConfusion hopen

theorem existsUnique_stop (r : Resolver) (cs : List Constant) :
    ∃! k, DoneUpTo cs (r.run cs).constants k ∧ StoppedAt cs k (r.run cs).failure := by
  obtain ⟨k, hdone, hstop⟩ : ∃ k, DoneUpTo cs (r.run cs).constants k ∧
      StoppedAt cs k (r.run cs).failure := exists_stop_runFrom
  refine ⟨k, ⟨hdone, hstop⟩, fun k' ⟨hdone', hstop'⟩ => ?_⟩
  have hle := le_of_stop hdone hdone' hstop hstop'
  have hge := le_of_stop hdone' hdone hstop' hstop
  omega

theorem isResolved_of_run {r : Resolver} (h : (r.run cs).failure = none)
    (hc : c ∈ (r.run cs).constants) : c.isResolved = true := by
  obtain ⟨k, ⟨hdone, hstop⟩, -⟩ := existsUnique_stop r cs
  rw [h] at hstop
  have hlen := (keeps_run r cs).length_eq
  rw [DoneUpTo, List.take_of_length_le (by rw [← hlen]; exact hstop.ge)] at hdone
  exact hdone.1 c hc

theorem runFrom_of_forall_isResolved (h : ∀ c ∈ cs, c.isResolved = true) :
    runFrom keepUp limit t stats cs = ⟨cs, stats, none⟩ := by
  induction cs with
  | nil => rfl
  | cons c more ih =>
    obtain ⟨hc, hmore⟩ := List.forall_mem_cons.1 h
    rw [runFrom_of_isResolved hc, ih hmore]
    rfl

/-- Where all constants have values there is nothing to do. -/
theorem run_of_forall_isResolved (r : Resolver) (h : ∀ c ∈ cs, c.isResolved = true) :
    r.run cs = ⟨cs, r.stats, none⟩ := runFrom_of_forall_isResolved h

/-! ## What a run adds to the statistics -/

/-- The constants that have a value only afterwards, each as it was before and after. -/
def newlyResolved (cs cs' : List Constant) : List (Constant × Constant) :=
  (cs.zip cs').filter fun p => !p.1.isResolved && p.2.isResolved

/-- The turns that give a value, up to the first that gives none. -/
def commits (limit : Nat) : List Turn → List (Turn × Resolution)
  | [] => []
  | turn :: more =>
    match resolveConstant turn.table limit turn.constant with
    | .error _ => []
    | .ok found => (turn, found) :: commits limit more

theorem commits_isPrefix (limit : Nat) (turns : List Turn) :
    (commits limit turns).map Prod.fst <+: turns := by
  induction turns with
  | nil => exact List.prefix_refl []
  | cons turn more ih =>
    rw [commits]
    split
    · exact List.nil_prefix
    · exact (List.prefix_cons_inj turn).2 ih

theorem resolveConstant_of_mem_commits {turns : List Turn} {p : Turn × Resolution}
    (hp : p ∈ commits limit turns) : resolveConstant p.1.table limit p.1.constant = .ok p.2 := by
  induction turns with
  | nil => exact absurd hp List.not_mem_nil
  | cons turn more ih =>
    rw [commits] at hp
    split at hp
    · exact absurd hp List.not_mem_nil
    · next found hfound =>
      rcases List.mem_cons.1 hp with rfl | hp
      · exact hfound
      · exact ih hp

theorem passCount_of_resolveConstant {found : Resolution}
    (h : resolveConstant t limit c = .ok found) :
    PassCount t c.rawValue found.passes ∧ found.passes ≤ limit := by
  obtain ⟨e, he, -, -, hpasses⟩ := resolveConstant_eq_ok_iff.1 h
  have hcount := passCount_of_expand? he
  rwa [hpasses] at hcount

theorem newlyResolved_self (cs : List Constant) : newlyResolved cs cs = [] := by
  rw [newlyResolved, List.filter_eq_nil_iff]
  intro p hp
  have hsame : p.1 = p.2 := by
    obtain ⟨i, hi⟩ := List.mem_iff_getElem?.1 hp
    obtain ⟨hfst, hsnd⟩ := List.getElem?_zip_eq_some.1 hi
    exact Option.some.inj (hfst.symm.trans hsnd)
  rw [hsame]
  cases p.2.isResolved <;> decide

theorem newlyResolved_cons_of_isResolved (hc : c.isResolved = true) :
    newlyResolved (c :: cs) (c' :: cs') = newlyResolved cs cs' := by
  simp [newlyResolved, hc]

theorem newlyResolved_cons (hopen : c.isResolved = false) (hdone : c'.isResolved = true) :
    newlyResolved (c :: cs) (c' :: cs') = (c, c') :: newlyResolved cs cs' := by
  simp [newlyResolved, hopen, hdone]

theorem foldl_commit (ps : List (Turn × Resolution)) (stats : ResolutionStats) :
    ps.foldl (fun s p => s.commit p.2) stats =
      ⟨stats.resolved + ps.length,
        stats.substitutions + (ps.map fun p => p.2.trace.length).sum,
        (ps.map fun p => p.2.passes).foldl max stats.maxPasses⟩ := by
  induction ps generalizing stats with
  | nil => rfl
  | cons p ps ih =>
    rw [List.foldl_cons, ih, ResolutionStats.commit]
    simp only [List.length_cons, List.map_cons, List.sum_cons, List.foldl_cons]
    congr 1
    · omega
    · omega

/-- A run resolves the constants of the turns that give a value, and counts these turns. -/
theorem runFrom_commits :
    newlyResolved cs (runFrom keepUp limit t stats cs).constants =
        (commits limit (turnsFrom keepUp limit t cs)).map (fun p =>
          (p.1.constant, p.1.constant.resolve p.2.value p.2.trace)) ∧
      (runFrom keepUp limit t stats cs).stats =
        (commits limit (turnsFrom keepUp limit t cs)).foldl (fun s p => s.commit p.2) stats := by
  induction cs generalizing t stats with
  | nil => exact ⟨rfl, rfl⟩
  | cons c more ih =>
    cases hres : c.isResolved with
    | true =>
      obtain ⟨hconstants, hstats⟩ := @ih t stats
      rw [runFrom_of_isResolved hres, turnsFrom, if_pos hres]
      exact ⟨(newlyResolved_cons_of_isResolved hres).trans hconstants, hstats⟩
    | false =>
      rw [turnsFrom, if_neg (by simp [hres]), commits]
      cases hr : resolveConstant t limit c with
      | error e =>
        rw [runFrom_of_error hres hr]
        exact ⟨newlyResolved_self (c :: more), rfl⟩
      | ok found =>
        have hc' : (c.resolve found.value found.trace).isResolved = true := rfl
        obtain ⟨hconstants, hstats⟩ :=
          @ih (tableAfter keepUp t (c.resolve found.value found.trace) more) (stats.commit found)
        rw [runFrom_of_ok hres hr]
        refine ⟨(newlyResolved_cons hres hc').trans ?_, hstats⟩
        rw [hconstants]
        rfl

/-- The turns of the newly resolved constants are the first of the run. The statistics count the
constants, the steps of their traces, and the passes of their turns, none more than the limit. -/
theorem run_commits (r : Resolver) (cs : List Constant) :
    ∃ done : List (Turn × Nat),
      done.map Prod.fst <+: r.turns cs ∧
      done.map (fun d => d.1.constant) = (newlyResolved cs (r.run cs).constants).map Prod.fst ∧
      (∀ d ∈ done, PassCount d.1.table d.1.constant.rawValue d.2 ∧ d.2 ≤ r.limit cs) ∧
      (r.run cs).stats =
        ⟨r.stats.resolved + (newlyResolved cs (r.run cs).constants).length,
          r.stats.substitutions +
            ((newlyResolved cs (r.run cs).constants).map fun p => p.2.trace.length).sum,
          (done.map Prod.snd).foldl max r.stats.maxPasses⟩ := by
  let ps := commits (r.limit cs) (r.turns cs)
  have hnew : newlyResolved cs (r.run cs).constants =
      ps.map fun p => (p.1.constant, p.1.constant.resolve p.2.value p.2.trace) := runFrom_commits.1
  have hstats : (r.run cs).stats = ps.foldl (fun s p => s.commit p.2) r.stats := runFrom_commits.2
  refine ⟨ps.map fun p => (p.1, p.2.passes), ?_, ?_, fun d hd => ?_, ?_⟩
  · rw [List.map_map]
    exact commits_isPrefix (r.limit cs) (r.turns cs)
  · rw [hnew, List.map_map, List.map_map]
    rfl
  · obtain ⟨p, hp, rfl⟩ := List.mem_map.1 hd
    exact passCount_of_resolveConstant (resolveConstant_of_mem_commits hp)
  · rw [hstats, foldl_commit, hnew, List.length_map, List.map_map, List.map_map]
    rfl

end Resolver

end HeaderConstants
