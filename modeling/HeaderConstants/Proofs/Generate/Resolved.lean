import HeaderConstants.Generate.Run
import HeaderConstants.Proofs.Constant.Selection
import HeaderConstants.Proofs.Resolve.Progress
import HeaderConstants.Proofs.Result

/-!
# Generation meets resolved constants only

A run that succeeds leaves no constant without a value. What is verified and written after it has
values, so no generation fails for want of one.

* `Action.Yields`: the results and the failures of an action, whatever the session;
* `Document.exists_emit`: a document of resolved constants can be written for every target;
* `GeneratorConfig.yields_generate`: a generation never meets a constant without a value;
* `Resolver.failure_leaves_prefix`: what a run leaves, and that a generation can go on from there.
-/

namespace HeaderConstants
set_option autoImplicit false

/-! ## Actions -/

namespace Action

variable {α β : Type} {a : Action α} {f : α → Action β} {x : α} {e : GenerateError}
  {Q : α → Prop} {R : β → Prop} {E : GenerateError → Prop}

/-- Whatever the session, the result is of the one kind, or the failure is of the other. -/
def Yields (a : Action α) (Q : α → Prop) (E : GenerateError → Prop) : Prop :=
  ∀ s, match (a.run.run s).1 with
    | .ok x => Q x
    | .error e => E e

theorem yields_pure (h : Q x) : Yields (pure x) Q E := fun _ => h

theorem yields_throw (h : E e) : Yields (throw e : Action α) Q E := fun _ => h

theorem yields_modify (g : Session → Session) : Yields (modify g) (fun _ => True) E :=
  fun _ => trivial

theorem yields_get : Yields (get : Action Session) (fun _ => True) E := fun _ => trivial

theorem yields_set (s : Session) : Yields (set s : Action PUnit) (fun _ => True) E :=
  fun _ => trivial

theorem yields_modifyGet (g : Session → α × Session) :
    Yields (modifyGet g : Action α) (fun _ => True) E := fun _ => trivial

theorem yields_require {r : Except GenerateError α} (hok : ∀ x, r = .ok x → Q x)
    (herror : ∀ e, r = .error e → E e) : Yields (require r) Q E := by
  cases r with
  | ok x => exact yields_pure (hok x rfl)
  | error e => exact yields_throw (herror e rfl)

theorem Yields.bind (h : Yields a Q E) (hf : ∀ x, Q x → Yields (f x) R E) :
    Yields (a >>= f) R E := by
  intro s
  have ha := h s
  obtain ⟨result, s', hrun⟩ : ∃ result s', a.run.run s = (result, s') := ⟨_, _, rfl⟩
  rw [hrun] at ha
  cases result with
  | ok x =>
    rw [run_bind_of_ok hrun]
    exact hf x ha s'
  | error e =>
    rw [run_bind_of_error hrun]
    exact ha

/-- Work in the scratch directory fails for the reasons that it throws or returns. -/
theorem yields_inScratch {h : Host} {work : Action (Except GenerateError α)}
    (hwork : Yields work (fun r => ∀ e, r = .error e → E e) E) :
    Yields (inScratch h work) (fun _ => True) E := by
  refine (yields_modify _).bind fun _ _ => ?_
  have hlift : Yields (ExceptT.lift work.run) (fun r => (∀ e, r = .ok (.error e) → E e) ∧
      ∀ e, r = .error e → E e) E := by
    intro s
    have hs := hwork s
    obtain ⟨result, s', hrun⟩ : ∃ result s', work.run.run s = (result, s') := ⟨_, _, rfl⟩
    have hlifted : (ExceptT.lift work.run : Action _).run.run s = (.ok result, s') := by
      rw [ExceptT.run_lift, StateT.run_map, hrun]
      rfl
    rw [hrun] at hs
    rw [hlifted]
    cases result with
    | ok r => exact ⟨fun e he => hs e (Except.ok.inj he), fun e he => absurd he (by simp)⟩
    | error e => exact ⟨fun e' he => absurd he (by simp), fun e' he => Except.error.inj he ▸ hs⟩
  refine hlift.bind fun result hresult => ?_
  match result, hresult with
  | .ok (.ok x), _ => exact (yields_modify _).bind fun _ _ => yields_pure trivial
  | .ok (.error e), hresult => exact yields_throw (hresult.1 e rfl)
  | .error e, hresult => exact (yields_modify _).bind fun _ _ => yields_throw (hresult.2 e rfl)

end Action

/-! ## Failures for want of a value -/

/-- The failure is not that a constant has no value. -/
def GenerateError.IsOther : GenerateError → Prop
  | .unresolved _ => False
  | _ => True

/-- All constants have values. -/
def AllResolved (cs : List Constant) : Prop := ∀ c ∈ cs, c.isResolved = true

/-- The constants with their values. -/
theorem AllResolved.exists_values {cs : List Constant} (h : AllResolved cs) :
    ∃ pairs : List (Constant × UInt64), pairs.map Prod.fst = cs ∧
      ∀ p ∈ pairs, p.1.resolvedValue = some p.2 := by
  induction cs with
  | nil => exact ⟨[], rfl, List.forall_mem_nil _⟩
  | cons c more ih =>
    obtain ⟨hc, hmore⟩ := List.forall_mem_cons.1 h
    obtain ⟨v, hv⟩ := Option.isSome_iff_exists.1 hc
    obtain ⟨pairs, rfl, hvalues⟩ := ih hmore
    exact ⟨(c, v) :: pairs, rfl, List.forall_mem_cons.2 ⟨hv, hvalues⟩⟩

theorem exists_value {c : Constant} (h : c.isResolved = true) : ∃ v, c.requireValue = .ok v := by
  obtain ⟨v, hv⟩ := Option.isSome_iff_exists.1 h
  exact ⟨v, by rw [Constant.requireValue, hv]⟩

/-! ## Documents -/

/-- A document of resolved constants can be written for every target. -/
theorem Document.exists_emit {d : Document} (h : AllResolved d.constants)
    (config : GeneratorConfig) : ∃ text, d.emit config = .ok text := by
  have hvalue : ∀ c ∈ d.constants, ∃ v, c.requireValue = .ok v := fun c hc => exists_value (h c hc)
  rw [Document.emit]
  cases config.target with
  | java =>
    obtain ⟨ls, hls⟩ := exists_mapM_eq_ok (f := Emit.Java.constantLines d) fun c hc => by
      obtain ⟨v, hv⟩ := hvalue c hc
      exact ⟨_, by rw [Emit.Java.constantLines, hv]; rfl⟩
    exact ⟨_, by simp only [Emit.Java.emit, hls]; rfl⟩
  | rust =>
    obtain ⟨ls, hls⟩ := exists_mapM_eq_ok (f := Emit.Rust.constantLines d) fun c hc => by
      obtain ⟨v, hv⟩ := hvalue c hc
      exact ⟨_, by rw [Emit.Rust.constantLines, hv]; rfl⟩
    exact ⟨_, by simp only [Emit.Rust.emit, hls]; rfl⟩
  | json =>
    obtain ⟨js, hjs⟩ := exists_mapM_eq_ok (f := Emit.JsonDocument.constant d) fun c hc => by
      obtain ⟨v, hv⟩ := hvalue c hc
      exact ⟨_, by rw [Emit.JsonDocument.constant, hv]; rfl⟩
    exact ⟨_, by simp only [Emit.JsonDocument.emit, Emit.JsonDocument.ofDocument, hjs]; rfl⟩

/-! ## Tools -/

open HeaderConstants.Action

theorem isOther_of_mapError {ε α : Type} {r : Except ε α} {g : ε → GenerateError}
    {e : GenerateError} (hg : ∀ x, (g x).IsOther) (h : r.mapError g = .error e) : e.IsOther := by
  obtain ⟨x, -, rfl⟩ := mapError_eq_error_iff.1 h
  exact hg x

theorem yields_start (h : Host) (name : Text) (c : Command) :
    Yields (start h name c) (fun _ => True) GenerateError.IsOther := by
  refine (yields_modifyGet _).bind fun result _ => ?_
  refine yields_require (fun _ _ => trivial) fun e he => ?_
  exact isOther_of_mapError (g := .notStarted name) (fun _ => trivial) he

theorem yields_write (path t : Text) :
    Yields (write path t) (fun _ => True) GenerateError.IsOther := by
  refine yields_get.bind fun s _ => ?_
  refine Yields.bind (Q := fun _ => True) ?_ fun s' _ => yields_set s'
  refine yields_require (fun _ _ => trivial) fun e he => ?_
  exact isOther_of_mapError (g := .io path) (fun _ => trivial) he

theorem yields_readText (path : Text) :
    Yields (readText path) (fun _ => True) GenerateError.IsOther := by
  refine yields_get.bind fun s _ => ?_
  refine yields_require (fun _ _ => trivial) fun e he => ?_
  exact isOther_of_mapError (g := .io path) (fun _ => trivial) he

namespace Verify

theorem yields_flags (h : Host) (tools : Toolchain) :
    Yields (flags h tools) (fun _ => True) GenerateError.IsOther := by
  refine (yields_start h _ _).bind fun o _ => ?_
  split
  · exact yields_pure trivial
  · exact yields_throw trivial

theorem yields_warn (h : Host) (name stream output : Text) :
    Yields (warn h name stream output) (fun _ => True) GenerateError.IsOther := by
  rw [warn]
  split
  · exact yields_pure trivial
  · exact yields_modify _

theorem yields_probe (h : Host) (tools : Toolchain) (fs : List Text) (name : Text) (v : UInt64) :
    Yields (probe h tools fs name v) (fun r => ∀ e, r = .error e → e.IsOther)
      GenerateError.IsOther := by
  refine (yields_write _ _).bind fun _ _ => ?_
  refine (yields_start h _ _).bind fun o _ => ?_
  refine (yields_warn h _ _ _).bind fun _ _ => ?_
  refine (yields_warn h _ _ _).bind fun _ _ => ?_
  split
  · refine (yields_modifyGet _).bind fun ran _ => ?_
    split
    · exact yields_pure fun e he => Except.error.inj he ▸ trivial
    · refine (yields_modify _).bind fun _ _ => ?_
      split
      · exact yields_pure fun e he => absurd he (by simp)
      · exact yields_pure fun e he => Except.error.inj he ▸ trivial
  · exact yields_pure fun e he => Except.error.inj he ▸ trivial

theorem yields_constant (h : Host) (tools : Toolchain) (fs : List Text) {c : Constant}
    (hc : c.isResolved = true) :
    Yields (constant h tools fs c) (fun _ => True) GenerateError.IsOther := by
  obtain ⟨v, hv⟩ := exists_value hc
  have hrequire : Yields (require (c.requireValue.mapError .unresolved)) (fun _ => True)
      GenerateError.IsOther := by
    rw [hv]
    exact yields_pure trivial
  exact hrequire.bind fun v _ => yields_inScratch (yields_probe h tools fs c.name v)

theorem yields_allFrom (h : Host) (tools : Toolchain) (fs : List Text) (report : Report)
    {cs : List Constant} (hcs : AllResolved cs) :
    Yields (allFrom h tools fs report cs) (fun _ => True) GenerateError.IsOther := by
  induction cs generalizing report with
  | nil => exact yields_pure trivial
  | cons c more ih =>
    refine (yields_constant h tools fs (hcs c (List.mem_cons_self ..))).bind fun output _ => ?_
    exact ih (report.pass c.name output) fun d hd => hcs d (List.mem_cons_of_mem c hd)

theorem yields_all (h : Host) (tools : Toolchain) {cs : List Constant} (hcs : AllResolved cs) :
    Yields (all h tools cs) (fun _ => True) GenerateError.IsOther := by
  refine (yields_modify _).bind fun _ _ => ?_
  refine (yields_flags h tools).bind fun fs _ => ?_
  refine (yields_allFrom h tools fs .empty hcs).bind fun report _ => ?_
  exact (yields_modify _).bind fun _ _ => yields_pure trivial

end Verify

namespace Check

theorem yields_compile (h : Host) (tool fileName text : Text) (arguments : Text → List Text) :
    Yields (compile h tool fileName text arguments) (fun r => ∀ e, r = .error e → e.IsOther)
      GenerateError.IsOther := by
  refine (yields_write _ _).bind fun _ _ => ?_
  refine (yields_start h _ _).bind fun o _ => ?_
  split
  · exact yields_pure fun e he => absurd he (by simp)
  · exact yields_pure fun e he => Except.error.inj he ▸ trivial

theorem yields_run (h : Host) (config : GeneratorConfig) (t : Text) :
    Yields (run h config t) (fun _ => True) GenerateError.IsOther := by
  refine Yields.bind (Q := fun _ => True) ?_ fun _ _ => yields_modify _
  rw [text]
  split
  · exact yields_inScratch (yields_compile h _ _ _ _)
  · exact yields_inScratch (yields_compile h _ _ _ _)
  · split
    · exact yields_pure trivial
    · exact yields_throw trivial

end Check

/-! ## Generation -/

namespace GeneratorConfig

variable {config : GeneratorConfig} {sources : List HeaderSource} {headers : List Header}
  {resolved : ResolvedConstants}

/-- What a resolution that succeeds gives. -/
theorem resolveHeaders_eq_ok_iff : config.resolveHeaders headers = .ok resolved ↔
    (config.runResolver (config.select headers).2).failure = none ∧
      resolved =
        { constants := ⟨(config.runResolver (config.select headers).2).constants⟩
          headers := headers.map fun h => ⟨h.fileName, h.copyright⟩
          stats :=
            { headers := headers.length
              definitions := (definitions headers).length
              constants := (config.select headers).2.size
              ignored := (config.select headers).1.stats.ignored
              superseded := (config.select headers).1.stats.superseded
              substitutions := (config.runResolver (config.select headers).2).stats.substitutions
              maxPasses := (config.runResolver (config.select headers).2).stats.maxPasses
              verified := 0 } } := by
  rw [resolveHeaders]
  cases hfailure : (config.runResolver (config.select headers).2).failure with
  | none => simp [hfailure, eq_comm]
  | some e => simp [hfailure]

theorem resolve_eq_ok_iff : config.resolve sources = .ok resolved ↔
    ∃ headers, parseHeaders sources = .ok headers ∧
      config.resolveHeaders headers = .ok resolved := by
  simp only [resolve, bind_eq_ok_iff, mapError_eq_ok_iff]

theorem allResolved_of_resolve (h : config.resolve sources = .ok resolved) :
    AllResolved resolved.constants.constants := by
  obtain ⟨headers, -, hresolved⟩ := resolve_eq_ok_iff.1 h
  obtain ⟨hrun, rfl⟩ := resolveHeaders_eq_ok_iff.1 hresolved
  intro c hc
  exact Resolver.isResolved_of_run hrun hc

theorem exists_source_of_mem_select {c : Constant} (hparse : parseHeaders sources = .ok headers)
    (hc : c ∈ (config.select headers).2.constants) :
    ∃ source ∈ sources, ∃ header, Header.parse source.fileName source.contents = .ok header ∧
      c ∈ header.constants := by
  have htaken : Selection.TakenFrom config.allowlist (definitions headers)
      (config.select headers).2 := Selection.takenFrom_select (Selection.new config.allowlist) _
  obtain ⟨header, hheader, hmem⟩ := List.mem_flatMap.1 (htaken.mem c hc)
  obtain ⟨source, hsource, hread⟩ := exists_of_mem_mapM hparse hheader
  exact ⟨source, hsource, header, hread, hmem⟩

theorem isOther_of_resolve {e : GenerateError} (h : config.resolve sources = .error e) :
    e.IsOther := by
  rw [resolve] at h
  cases hparse : parseHeaders sources with
  | error cause =>
    rw [hparse] at h
    exact Except.error.inj h ▸ trivial
  | ok headers =>
    rw [hparse] at h
    exact isOther_of_mapError (g := .resolve) (fun _ => trivial) h

theorem yields_verification (h : Host) (config : GeneratorConfig) {set : ConstantSet}
    (hset : AllResolved set.constants) :
    Yields (config.verification h set) (fun _ => True) GenerateError.IsOther := by
  rw [verification]
  split
  · exact (Verify.yields_all h config.toolchain hset).bind fun _ _ => yields_pure trivial
  · exact yields_pure trivial

/-- A generation never meets a constant without a value. -/
theorem yields_generate (h : Host) (config : GeneratorConfig) (sources : List HeaderSource) :
    Yields (config.generate h sources) (fun o => AllResolved o.constants.constants)
      GenerateError.IsOther := by
  refine (yields_modify _).bind fun _ _ => ?_
  have hresolve : Yields (require (config.resolve sources))
      (fun resolved => AllResolved resolved.constants.constants) GenerateError.IsOther :=
    yields_require (fun _ hok => allResolved_of_resolve hok) fun _ he => isOther_of_resolve he
  refine hresolve.bind fun resolved hresolved => ?_
  refine (yields_verification h config hresolved).bind fun report _ => ?_
  have hemit : Yields (require (Except.mapError .unresolved (Document.emit config
      ⟨resolved.constants.constants, resolved.headers, report, config.verbose⟩)))
      (fun _ => True) GenerateError.IsOther := by
    let d : Document := ⟨resolved.constants.constants, resolved.headers, report, config.verbose⟩
    obtain ⟨text, htext⟩ := Document.exists_emit (d := d) hresolved config
    rw [htext]
    exact yields_pure trivial
  refine hemit.bind fun text _ => ?_
  split
  · refine (Check.yields_run h config text).bind fun _ _ => ?_
    exact (yields_modify _).bind fun _ _ => yields_pure hresolved
  · exact (yields_modify _).bind fun _ _ => yields_pure hresolved

theorem yields_readSources (paths : List Text) :
    Yields (readSources paths) (fun _ => True) GenerateError.IsOther := by
  induction paths with
  | nil => exact yields_pure trivial
  | cons path more ih =>
    refine (yields_readText path).bind fun contents _ => ?_
    exact ih.bind fun sources _ => yields_pure trivial

theorem yields_generateFromPaths (h : Host) (config : GeneratorConfig) (paths : List Text) :
    Yields (config.generateFromPaths h paths) (fun o => AllResolved o.constants.constants)
      GenerateError.IsOther :=
  (yields_readSources paths).bind fun sources _ => yields_generate h config sources

end GeneratorConfig

namespace Resolver

open Resolve Constant

/-- A run stops at one place: at the end, or at the constant of which its failure tells. Up to there
all constants have values, and the others are as they were. No definition changes, and no value
that was there. The statistics grow by what has been resolved, with no more passes for a constant
than the limit. After a run that succeeds all constants have values, so a generation never fails
for want of one. -/
theorem failure_leaves_prefix (r : Resolver) (cs : List Constant) :
    (∃! k, DoneUpTo cs (r.run cs).constants k ∧ StoppedAt cs k (r.run cs).failure) ∧
    List.Forall₂ Keeps cs (r.run cs).constants ∧
    ((r.run cs).failure = none → AllResolved (r.run cs).constants) ∧
    (∃ done : List (Turn × Nat),
      done.map Prod.fst <+: r.turns cs ∧
      done.map (fun d => d.1.constant) = (newlyResolved cs (r.run cs).constants).map Prod.fst ∧
      (∀ d ∈ done, PassCount d.1.table d.1.constant.rawValue d.2 ∧ d.2 ≤ r.limit cs) ∧
      (r.run cs).stats =
        ⟨r.stats.resolved + (newlyResolved cs (r.run cs).constants).length,
          r.stats.substitutions +
            ((newlyResolved cs (r.run cs).constants).map fun p => p.2.trace.length).sum,
          (done.map Prod.snd).foldl max r.stats.maxPasses⟩) ∧
    ∀ (h : Host) (config : GeneratorConfig) (s : Session) (u : Unresolved),
      (∀ sources, ((config.generate h sources).run.run s).1 ≠ .error (.unresolved u)) ∧
      ∀ paths, ((config.generateFromPaths h paths).run.run s).1 ≠ .error (.unresolved u) := by
  refine ⟨existsUnique_stop r cs, keeps_run r cs, fun hrun c hc => isResolved_of_run hrun hc,
    run_commits r cs, fun h config s u => ⟨fun sources hfail => ?_, fun paths hfail => ?_⟩⟩
  · have hyields := GeneratorConfig.yields_generate h config sources s
    rw [hfail] at hyields
    exact hyields
  · have hyields := GeneratorConfig.yields_generateFromPaths h config paths s
    rw [hfail] at hyields
    exact hyields

end Resolver

end HeaderConstants
