import HeaderConstants.Proofs.Constant.LastDefinition
import HeaderConstants.Proofs.Generate.Counts

/-!
# Constants that stand elsewhere

Where a constant is defined has no part in what it comes to. Lists of constants that differ only in
the places of their definitions are selected alike and counted alike, have one table and are
resolved to the same values with the same traces, or the run fails for the same reason at the same
constant.

* `Constant.Moved`, `ResolveError.Moved`: constants and failures that differ in a place;
* `Selection.moved_select`: what is selected;
* `Resolver.moved_run`: what is resolved.
-/

namespace HeaderConstants
set_option autoImplicit false

/-- A line of a file. -/
structure Place where
  file : Text
  line : Nat
  deriving DecidableEq, Repr

def Constant.place (c : Constant) : Place := ⟨c.sourceFile, c.sourceLine⟩

variable {R : Place → Place → Prop} {c c' : Constant} {cs cs' more more' : List Constant}

/-- The constants are the same but for their places, which are related. -/
structure Constant.Moved (R : Place → Place → Prop) (c c' : Constant) : Prop where
  name : c'.name = c.name
  rawValue : c'.rawValue = c.rawValue
  line : c'.line = c.line
  resolvedValue : c'.resolvedValue = c.resolvedValue
  trace : c'.trace = c.trace
  place : R c.place c'.place

/-- The failures have one cause, of the same constant in related places. -/
inductive ResolveError.Moved (R : Place → Place → Prop) : ResolveError → ResolveError → Prop
  | expression {name : Text} {p p' : Place} (cause : EvalError) (h : R p p') :
      Moved R (.expression ⟨name, p.file, p.line⟩ cause)
        (.expression ⟨name, p'.file, p'.line⟩ cause)
  | cyclic {name : Text} {p p' : Place} (chain : List Text) (h : R p p') :
      Moved R (.cyclic ⟨name, p.file, p.line⟩ chain) (.cyclic ⟨name, p'.file, p'.line⟩ chain)

namespace Constant.Moved

variable (h : Moved R c c')

include h

theorem isResolved : c'.isResolved = c.isResolved := by
  rw [Constant.isResolved, Constant.isResolved, h.resolvedValue]

theorem substitutionText : c'.substitutionText = c.substitutionText := by
  rw [Constant.substitutionText, Constant.substitutionText, Constant.body, Constant.body,
    h.resolvedValue, h.rawValue]

theorem resolve (v : UInt64) (trace : List ResolutionStep) :
    Moved R (c.resolve v trace) (c'.resolve v trace) :=
  ⟨h.name, h.rawValue, h.line, rfl, rfl, h.place⟩

end Constant.Moved

open Constant

theorem map_name_of_moved (h : List.Forall₂ (Moved R) cs cs') :
    cs'.map Constant.name = cs.map Constant.name :=
  map_eq_of_forall₂ Constant.name Constant.name h fun _ _ hmoved => hmoved.name

/-! ## Selections -/

namespace Selection

/-- The same constants are kept, ignored and superseded. -/
theorem moved_select (sel : Selection) (h : List.Forall₂ (Moved R) cs cs') :
    List.Forall₂ (Moved R) (sel.select cs).2.constants (sel.select cs').2.constants ∧
      (sel.select cs').1.stats.ignored = (sel.select cs).1.stats.ignored ∧
      (sel.select cs').1.stats.superseded = (sel.select cs).1.stats.superseded := by
  have hset : List.Forall₂ (Moved R) (sel.select cs).2.constants (sel.select cs').2.constants := by
    rw [snd_select, snd_select]
    have hlast := forall₂_lastDefinitions h fun _ _ hmoved => hmoved.name
    exact List.rel_filter (fun {c c'} hmoved => by simp only [hmoved.name]) hlast
  have hignored : (sel.select cs').1.stats.ignored = (sel.select cs).1.stats.ignored := by
    have hcount (cs : List Constant) : cs.countP (fun c => !sel.allowlist.allows c.name) =
        (cs.map Constant.name).countP fun name => !sel.allowlist.allows name := by
      rw [List.countP_map]
      rfl
    rw [ignored_select, ignored_select, hcount, hcount, map_name_of_moved h]
  have hsize : (sel.select cs').2.size = (sel.select cs).2.size := hset.length_eq.symm
  have hkept : (sel.select cs').1.stats.kept = (sel.select cs).1.stats.kept := by
    rw [kept_select, kept_select, hsize]
  -- what is superseded is what the other counts leave of the total
  have htotal : (sel.select cs').1.stats.total = (sel.select cs).1.stats.total := by
    rw [total_select, total_select, h.length_eq]
  refine ⟨hset, hignored, ?_⟩
  rw [SelectionStats.total, SelectionStats.total, hkept, hignored] at htotal
  exact Nat.add_left_cancel htotal

end Selection

/-! ## Tables -/

namespace Resolve

variable {t : Table} {limit : Nat} {keepUp : Bool}

theorem table_of_moved (h : List.Forall₂ (Moved R) cs cs') : table cs' = table cs := by
  have hreplacement (name : Text) : replacementOf cs' name = replacementOf cs name := by
    have hfound := rel_find?_of_forall₂ (List.forall₂_reverse_iff.2 h)
      (fun _ _ hmoved => hmoved.name) name
    rw [replacementOf, replacementOf]
    generalize cs.reverse.find? (fun c => c.name = name) = found at hfound ⊢
    generalize cs'.reverse.find? (fun c => c.name = name) = found' at hfound ⊢
    cases hfound with
    | none => rfl
    | some hmoved => exact hmoved.substitutionText
  simp only [table, map_name_of_moved h, hreplacement]

theorem tableAfter_of_moved (hc : Moved R c c') (hmore : List.Forall₂ (Moved R) more more') :
    tableAfter keepUp t c' more' = tableAfter keepUp t c more := by
  have hagain : more'.any (fun d => d.name = c.name) = more.any (fun d => d.name = c.name) := by
    rw [Bool.eq_iff_iff, List.any_eq_true, List.any_eq_true]
    simp only [decide_eq_true_eq]
    exact exists_name_iff_of_forall₂ hmore fun _ _ hmoved => hmoved.name
  rw [tableAfter, tableAfter, refresh, refresh, hc.name, hc.substitutionText, hagain]

theorem related_resolveConstant (hc : Moved R c c') :
    Related (ResolveError.Moved R) Eq (resolveConstant t limit c) (resolveConstant t limit c') := by
  have horigin : c'.origin = ⟨c.name, c'.place.file, c'.place.line⟩ := by
    rw [← hc.name]
    rfl
  rw [resolveConstant, resolveConstant, referenceChain, referenceChain, hc.name, hc.rawValue,
    horigin]
  cases expand? t limit c.rawValue with
  | none => exact .cyclic _ hc.place
  | some e =>
    cases hv : evaluate e.text with
    | error cause =>
      simp only [hv]
      exact .expression cause hc.place
    | ok v =>
      simp only [hv]
      exact rfl

end Resolve

/-! ## Runs -/

namespace Resolver

open Resolve

/-- The runs have moved constants, the same statistics, and a failure of one cause or none. -/
structure MovedRun (R : Place → Place → Prop) (run run' : ResolverRun) : Prop where
  constants : List.Forall₂ (Moved R) run.constants run'.constants
  stats : run'.stats = run.stats
  failure : Option.Rel (ResolveError.Moved R) run.failure run'.failure

theorem moved_runFrom {keepUp : Bool} {limit : Nat} {t : Table} {stats : ResolutionStats}
    (h : List.Forall₂ (Moved R) cs cs') :
    MovedRun R (runFrom keepUp limit t stats cs) (runFrom keepUp limit t stats cs') := by
  induction h generalizing t stats with
  | nil => exact ⟨.nil, rfl, .none⟩
  | @cons c c' more more' hc hmore ih =>
    cases hres : c.isResolved with
    | true =>
      rw [runFrom_of_isResolved hres, runFrom_of_isResolved (hc.isResolved.trans hres)]
      exact ⟨.cons hc ih.constants, ih.stats, ih.failure⟩
    | false =>
      have hrelated : Related (ResolveError.Moved R) Eq (resolveConstant t limit c)
          (resolveConstant t limit c') := related_resolveConstant hc
      cases hr : resolveConstant t limit c with
      | error e =>
        cases hr' : resolveConstant t limit c' with
        | error e' =>
          rw [runFrom_of_error hres hr, runFrom_of_error (hc.isResolved.trans hres) hr']
          rw [hr, hr'] at hrelated
          exact ⟨.cons hc hmore, rfl, .some hrelated⟩
        | ok found =>
          rw [hr, hr'] at hrelated
          exact hrelated.elim
      | ok found =>
        cases hr' : resolveConstant t limit c' with
        | error e' =>
          rw [hr, hr'] at hrelated
          exact hrelated.elim
        | ok found' =>
          rw [hr, hr'] at hrelated
          obtain rfl : found = found' := hrelated
          have hresolved := hc.resolve found.value found.trace
          rw [runFrom_of_ok hres hr, runFrom_of_ok (hc.isResolved.trans hres) hr',
            tableAfter_of_moved hresolved hmore]
          exact ⟨.cons hresolved ih.constants, ih.stats, ih.failure⟩

theorem moved_run (r : Resolver) (h : List.Forall₂ (Moved R) cs cs') :
    MovedRun R (r.run cs) (r.run cs') := by
  rw [run, run, table_of_moved h]
  exact moved_runFrom h

end Resolver

end HeaderConstants
