import HeaderConstants.CommandLine.Run
import HeaderConstants.Proofs.Generate.Confined
import Mathlib.Data.List.Forall2

/-!
# All or nothing

A run of accepted options succeeds if its configuration and its headers can be read, the generation
succeeds and the text can be written. Then the output holds the text, and in every other case it is
as it was, as long as the tools leave it alone and no scratch file is put in its place.

* `Options.Overrides`: what the options change;
* `CommandLine.Configured`, `CommandLine.Succeeds`: what a run needs for its success;
* `CommandLine.all_or_nothing`: the exit code, the output and the standard output of a run.
-/

namespace HeaderConstants
set_option autoImplicit false

/-! ## The configuration of a run -/

/-- What is given on the command line comes before what the configuration says, and a flag can only
turn something on, or the compile check off. -/
structure Options.Overrides (o : Options) (base config : GeneratorConfig) : Prop where
  target : config.target = o.target.getD base.target
  javaPackage : config.javaPackage = o.package.getD base.javaPackage
  typeName : config.typeName = o.typeName.getD base.typeName
  verbose : config.verbose = true ↔ base.verbose = true ∨ o.verbose = true
  verifySystem : config.verifySystem = true ↔ base.verifySystem = true ∨ o.system = true
  parallel : config.resolver.parallel = true ↔ base.resolver.parallel = true ∨ o.parallel = true
  compileCheck : config.compileCheck = true ↔ base.compileCheck = true ∧ o.noCompileCheck = false
  maxPasses : config.resolver.maxPasses = base.resolver.maxPasses
  allowlist : config.allowlist = base.allowlist
  toolchain : config.toolchain = base.toolchain

theorem Options.overrides_iff {o : Options} {base config : GeneratorConfig} :
    o.Overrides base config ↔ config = o.apply base := by
  constructor
  · obtain ⟨target, verbose, verifySystem, compileCheck, package, typeName, allowlist,
      ⟨maxPasses, parallel⟩, toolchain⟩ := config
    rintro ⟨rfl, rfl, rfl, hverbose, hverify, hparallel, hcheck, rfl, rfl, rfl⟩
    obtain rfl : verbose = (base.verbose || o.verbose) :=
      Bool.eq_iff_iff.2 (hverbose.trans Bool.or_eq_true_iff.symm)
    obtain rfl : verifySystem = (base.verifySystem || o.system) :=
      Bool.eq_iff_iff.2 (hverify.trans Bool.or_eq_true_iff.symm)
    obtain rfl : parallel = (base.resolver.parallel || o.parallel) :=
      Bool.eq_iff_iff.2 (hparallel.trans Bool.or_eq_true_iff.symm)
    obtain rfl : compileCheck = (base.compileCheck && !o.noCompileCheck) := by
      rw [Bool.eq_iff_iff, hcheck, Bool.and_eq_true_iff, Bool.not_eq_true']
    rfl
  · rintro rfl
    refine ⟨rfl, rfl, rfl, Bool.or_eq_true_iff, Bool.or_eq_true_iff, Bool.or_eq_true_iff, ?_, rfl,
      rfl, rfl⟩
    rw [Options.apply, Bool.and_eq_true_iff, Bool.not_eq_true']

namespace CommandLine

open HeaderConstants.Action

variable {h : Host} {arguments : List Text} {disk : Disk} {o : Options} {place : Path}
  {config : GeneratorConfig} {s s' : Session} {text : Text}

/-- The configuration of a run is the standard one or that of a file, changed by the options. -/
def Configured (disk : Disk) (o : Options) (config : GeneratorConfig) : Prop :=
  ∃ base, o.Overrides base config ∧
    match o.config with
    | none => base = .standard
    | some path => ∃ t, disk.readText path = .ok t ∧ GeneratorConfig.ofText? t = some base

/-- Everything that a run needs: a configuration, both headers, a generation that succeeds, and an
output that can be written. -/
def Succeeds (h : Host) (disk : Disk) (o : Options) (text : Text) : Prop :=
  ∃ config t n result, Configured disk o config ∧
    disk.readText o.pkcs11t = .ok t ∧ disk.readText o.pkcs11n = .ok n ∧
    ((config.generate h [⟨o.pkcs11t, t⟩, ⟨o.pkcs11n, n⟩]).run.run (.start disk)).1 = .ok result ∧
    result.text = text ∧ ∃ d, disk.write o.output text.toBytes = .ok d

/-! ## Reading -/

theorem run_loadConfig (o : Options) (s : Session) :
    ∃ result, (loadConfig o).run.run s = (result, s) ∧
      ∀ config, result = .ok config ↔ Configured s.disk o config := by
  simp only [Configured, Options.overrides_iff]
  rw [loadConfig]
  cases o.config with
  | none =>
    refine ⟨.ok (o.apply .standard), rfl, fun config => ?_⟩
    simp [eq_comm]
  | some path =>
    change ∃ result, (attempt _ _ >>= _).run.run s = (result, s) ∧ _
    cases hfile : s.disk.readText path with
    | error e => exact ⟨_, rfl, fun config => by simp [hfile]⟩
    | ok t =>
      have hattempt (doing : Text) : (attempt doing
          ((Except.ok t).mapError IoError.message)).run.run s = (.ok t, s) := rfl
      rw [run_bind_of_ok (hattempt _)]
      cases hread : GeneratorConfig.ofText? t with
      | none => exact ⟨_, rfl, fun config => by simp [hfile, hread]⟩
      | some base => exact ⟨_, rfl, fun config => by simp [hfile, hread, eq_comm]⟩

theorem run_readText (path : Text) (s : Session) :
    (readText path).run.run s = ((s.disk.readText path).mapError (GenerateError.io path), s) := by
  change (require _).run.run s = _
  cases s.disk.readText path <;> rfl

/-- What reading headers gives. -/
theorem run_readSources (paths : List Text) (s : Session) :
    ∃ result, (GeneratorConfig.readSources paths).run.run s = (result, s) ∧
      ∀ sources, result = .ok sources ↔
        List.Forall₂ (fun path source => source.fileName = path ∧
          s.disk.readText path = .ok source.contents) paths sources := by
  induction paths with
  | nil =>
    refine ⟨.ok [], rfl, fun sources => ?_⟩
    rw [List.forall₂_nil_left_iff, Except.ok.injEq, eq_comm]
  | cons path more ih =>
    obtain ⟨result, hrun, hresult⟩ := ih
    rw [GeneratorConfig.readSources]
    have hread := run_readText path s
    cases hcontents : s.disk.readText path with
    | error e =>
      rw [hcontents] at hread
      refine ⟨.error (.io path e), run_bind_of_error hread, fun sources => ?_⟩
      simp [List.forall₂_cons_left_iff, hcontents]
    | ok contents =>
      rw [hcontents] at hread
      rw [run_bind_of_ok hread]
      cases result with
      | error e =>
        refine ⟨.error e, run_bind_of_error hrun, fun sources => ?_⟩
        simp [List.forall₂_cons_left_iff, ← hresult]
      | ok sources' =>
        refine ⟨.ok (⟨path, contents⟩ :: sources'), run_bind_of_ok hrun, fun sources => ?_⟩
        simp only [List.forall₂_cons_left_iff, ← hresult, hcontents, Except.ok.injEq]
        constructor
        · rintro rfl
          exact ⟨⟨path, contents⟩, sources', ⟨rfl, rfl⟩, rfl, rfl⟩
        · rintro ⟨⟨_, _⟩, _, ⟨rfl, rfl⟩, rfl, rfl⟩
          rfl

theorem run_whileDoing {α : Type} (doing : Text) (a : Action α) (s : Session) :
    (whileDoing doing a).run.run s =
      ((a.run.run s).1.mapError fun e => ⟨doing, e.causes⟩, (a.run.run s).2) := rfl

theorem run_writeOutput (path t : Text) (s : Session) :
    (writeOutput path t).run.run s =
      match s.write path t with
      | .ok s' => (.ok (), s')
      | .error e => (.error ⟨"failed to write " ++ path, [e.message]⟩, s) := by
  change (attempt _ _ >>= set).run.run s = _
  cases s.write path t <;> rfl

/-! ## Runs -/

/-- The session after the output was written. -/
def finished (h : Host) (o : Options) (result : GeneratedOutput) (s : Session) : Session :=
  let s' := s.log h ⟨.info, .output,
    "Wrote " ++ Text.decimal result.stats.constants ++ " constants to " ++ o.output⟩
  { s' with stdout := s'.stdout ++ success }

/-- How a run of accepted options goes on once there is a configuration. -/
theorem run_generate {outcome : Except GenerateError GeneratedOutput}
    (hconfig : (loadConfig o).run.run s = (.ok config, s))
    (hrun : (config.generateFromPaths h [o.pkcs11t, o.pkcs11n]).run.run s = (outcome, s')) :
    (generate h o).run.run s =
      match outcome with
      | .error e => (.error ⟨"failed to generate constant definitions", e.causes⟩, s')
      | .ok result =>
        match s'.write o.output result.text with
        | .error e => (.error ⟨"failed to write " ++ o.output, [e.message]⟩, s')
        | .ok s'' => (.ok (), finished h o result s'') := by
  rw [generate, run_bind_of_ok hconfig]
  have hdoing := run_whileDoing "failed to generate constant definitions"
    (config.generateFromPaths h [o.pkcs11t, o.pkcs11n]) s
  rw [hrun] at hdoing
  cases outcome with
  | error e => exact run_bind_of_error hdoing
  | ok result =>
    rw [run_bind_of_ok hdoing]
    have hwriting := run_writeOutput o.output result.text s'
    cases hwrite : s'.write o.output result.text with
    | error e =>
      rw [hwrite] at hwriting
      simp only [hwrite]
      exact run_bind_of_error hwriting
    | ok s'' =>
      rw [hwrite] at hwriting
      simp only [hwrite]
      exact run_bind_of_ok hwriting

theorem Configured.unique {config' : GeneratorConfig} (hconfig : Configured disk o config)
    (hconfig' : Configured disk o config') : config' = config := by
  obtain ⟨result, -, hresult⟩ := run_loadConfig o (.start disk)
  exact Except.ok.inj (((hresult config').2 hconfig').symm.trans ((hresult config).2 hconfig))

theorem succeeds_iff {t n : Text} (hconfig : Configured disk o config)
    (ht : disk.readText o.pkcs11t = .ok t) (hn : disk.readText o.pkcs11n = .ok n) :
    Succeeds h disk o text ↔ ∃ result,
      ((config.generate h [⟨o.pkcs11t, t⟩, ⟨o.pkcs11n, n⟩]).run.run (.start disk)).1 = .ok result ∧
        result.text = text ∧ ∃ d, disk.write o.output text.toBytes = .ok d := by
  constructor
  · rintro ⟨config', t', n', result, hconfig', ht', hn', hsuccess⟩
    obtain rfl := hconfig.unique hconfig'
    obtain rfl := Except.ok.inj (ht.symm.trans ht')
    obtain rfl := Except.ok.inj (hn.symm.trans hn')
    exact ⟨result, hsuccess⟩
  · rintro ⟨result, hsuccess⟩
    exact ⟨config, t, n, result, hconfig, ht, hn, hsuccess⟩

theorem Succeeds.unique {text' : Text} (htext : Succeeds h disk o text)
    (htext' : Succeeds h disk o text') : text' = text := by
  obtain ⟨config, t, n, result, hconfig, ht, hn, hresult, rfl, -⟩ := htext
  obtain ⟨result', hresult', rfl, -⟩ := (succeeds_iff hconfig ht hn).1 htext'
  rw [Except.ok.inj (hresult.symm.trans hresult')]

/-- What verification programs may print in a run. -/
def Printed (h : Host) (disk : Disk) (o : Options) (t : Text) : Prop :=
  ∃ outcomes, (∀ outcome ∈ outcomes, ∃ config, Configured disk o config ∧
    h.Probed config disk outcome) ∧ t = Session.printed outcomes

/-- A run fails and is not seen through the output, or it succeeds and the output holds a text. -/
inductive Ends (h : Host) (disk : Disk) (o : Options) : Except Failure Unit × Session → Prop
  | failed {f : Failure} {s : Session} : (∀ text, ¬ Succeeds h disk o text) →
      Disk.Untouched o.output disk s.disk → Printed h disk o s.stdout → Ends h disk o (.error f, s)
  | succeeded {text printed : Text} {s : Session} : Succeeds h disk o text →
      s.disk.read o.output = .ok text.toBytes → Printed h disk o printed →
      s.stdout = printed ++ success → Ends h disk o (.ok (), s)

theorem Ends.unchanged {f : Failure} (hsuccess : ∀ text, ¬ Succeeds h disk o text) :
    Ends h disk o (.error f, .start disk) :=
  .failed hsuccess (.refl o.output disk) ⟨[], List.forall_mem_nil _, rfl⟩

/-- From the headers on: the generation keeps the output, and the text is written at the end. -/
theorem ends_of_headers {t n : Text} (houtput : disk.NoDevice o.output)
    (hconfined : h.Confined config disk o.output place)
    (hjava : config.target = .java → config.compileCheck = true → '/' ∉ config.typeName)
    (hconfig : Configured disk o config)
    (hload : (loadConfig o).run.run (.start disk) = (.ok config, .start disk))
    (ht : disk.readText o.pkcs11t = .ok t) (hn : disk.readText o.pkcs11n = .ok n)
    (hread : (GeneratorConfig.readSources [o.pkcs11t, o.pkcs11n]).run.run (.start disk) =
      (.ok [⟨o.pkcs11t, t⟩, ⟨o.pkcs11n, n⟩], .start disk)) :
    Ends h disk o ((generate h o).run.run (.start disk)) := by
  obtain ⟨generated, s, hrun⟩ : ∃ generated s,
      (config.generate h [⟨o.pkcs11t, t⟩, ⟨o.pkcs11n, n⟩]).run.run (.start disk) = (generated, s) :=
    ⟨_, _, rfl⟩
  have hsucceeds (text : Text) := @succeeds_iff h disk o config text t n hconfig ht hn
  have hkept := (GeneratorConfig.keeps_generate hconfined hjava
    [⟨o.pkcs11t, t⟩, ⟨o.pkcs11n, n⟩] (.start disk) (.start hconfined)).1
  rw [hrun] at hkept
  simp only [hrun] at hsucceeds
  have hprinted : Printed h disk o s.stdout := by
    obtain ⟨outcomes, houtcomes, hstdout⟩ := hkept.stdout
    exact ⟨outcomes, fun outcome h' => ⟨config, hconfig, houtcomes outcome h'⟩, hstdout⟩
  rw [run_generate hload ((run_bind_of_ok hread).trans hrun)]
  cases generated with
  | error e =>
    refine .failed (fun text hsuccess => ?_) hkept.untouched hprinted
    obtain ⟨result, hresult, -⟩ := (hsucceeds text).1 hsuccess
    exact absurd hresult nofun
  | ok result =>
    have hdevice := hkept.untouched.noDevice houtput
    simp only [Session.write_of_noDevice hdevice]
    cases hwrite : s.disk.write o.output result.text.toBytes with
    | error e =>
      refine .failed (fun text hsuccess => ?_) hkept.untouched hprinted
      obtain ⟨result', hresult, rfl, hwritten⟩ := (hsucceeds text).1 hsuccess
      obtain rfl := Except.ok.inj hresult
      obtain ⟨d, hd⟩ := hkept.untouched.exists_write hwritten
      exact absurd (hwrite.symm.trans hd) nofun
    | ok d =>
      -- What can be written after the generation could be written before it.
      have hwritten := hkept.untouched.symm.exists_write ⟨d, hwrite⟩
      have hsuccess : Succeeds h disk o result.text :=
        (hsucceeds result.text).2 ⟨result, rfl, rfl, hwritten⟩
      refine .succeeded hsuccess ?_ hprinted ?_
      · change Disk.read (Session.log h _ _).disk o.output = _
        rw [Session.log_disk]
        exact Disk.read_of_write hdevice hwrite
      · change (Session.log h _ _).stdout ++ success = _
        rw [Session.log_stdout]

theorem ends_generate (houtput : disk.NoDevice o.output)
    (hconfined : ∀ config, Configured disk o config → h.Confined config disk o.output place)
    (hjava : ∀ config, Configured disk o config → config.target = .java →
      config.compileCheck = true → '/' ∉ config.typeName) :
    Ends h disk o ((generate h o).run.run (.start disk)) := by
  obtain ⟨configured, hload, hconfigured⟩ := run_loadConfig o (.start disk)
  cases configured with
  | error f =>
    have hrun : (generate h o).run.run (.start disk) = (.error f, .start disk) :=
      run_bind_of_error hload
    rw [hrun]
    refine .unchanged fun text hsuccess => ?_
    obtain ⟨config, -, -, -, hconfig, -⟩ := hsuccess
    exact absurd ((hconfigured config).2 hconfig) nofun
  | ok config =>
    have hconfig : Configured disk o config := (hconfigured config).1 rfl
    obtain ⟨read, hread, hsources⟩ := run_readSources [o.pkcs11t, o.pkcs11n] (.start disk)
    cases read with
    | error e =>
      rw [run_generate hload (run_bind_of_error hread)]
      refine .unchanged fun text hsuccess => ?_
      obtain ⟨-, t, n, -, -, ht, hn, -⟩ := hsuccess
      exact absurd ((hsources [⟨o.pkcs11t, t⟩, ⟨o.pkcs11n, n⟩]).2
        (.cons ⟨rfl, ht⟩ (.cons ⟨rfl, hn⟩ .nil))) nofun
    | ok sources =>
      obtain ⟨⟨_, t⟩, more, ⟨rfl, ht⟩, hmore, rfl⟩ :=
        List.forall₂_cons_left_iff.1 ((hsources sources).1 rfl)
      obtain ⟨⟨_, n⟩, _, ⟨rfl, hn⟩, hnil, rfl⟩ := List.forall₂_cons_left_iff.1 hmore
      obtain rfl := List.forall₂_nil_left_iff.1 hnil
      exact ends_of_headers houtput (hconfined config hconfig) (hjava config hconfig) hconfig hload
        ht hn hread

theorem run_of_error {f : Failure} (hparse : Options.parse arguments = .run o)
    (hrun : (generate h o).run.run (.start disk) = (.error f, s)) :
    run h arguments disk = ⟨1, { s with stderr := s.stderr ++ f.report }⟩ := by
  rw [run, hparse]
  dsimp only
  rw [show ExceptT.run (generate h o) (.start disk) = (.error f, s) from hrun]

theorem run_of_ok (hparse : Options.parse arguments = .run o)
    (hrun : (generate h o).run.run (.start disk) = (.ok (), s)) :
    run h arguments disk = ⟨0, s⟩ := by
  rw [run, hparse]
  dsimp only
  rw [show ExceptT.run (generate h o) (.start disk) = (.ok (), s) from hrun]

theorem Printed.eq_nil {t : Text} (hprinted : Printed h disk o t)
    (hquiet : ∀ config outcome, Configured disk o config → h.Probed config disk outcome →
      outcome.stdout = []) : t = [] := by
  obtain ⟨outcomes, houtcomes, rfl⟩ := hprinted
  refine List.flatMap_eq_nil_iff.2 fun outcome h' => ?_
  obtain ⟨config, hconfig, hprobed⟩ := houtcomes outcome h'
  rw [hquiet config outcome hconfig hprobed]
  rfl

/-- A run exits with zero if and only if it has everything that it needs. Then the output holds the
text, and otherwise it is as it was. The standard output has the line of success, or nothing, after
what verification programs print, which is the only thing that is not held back. -/
theorem all_or_nothing (hparse : Options.parse arguments = .run o)
    (houtput : disk.NoDevice o.output)
    (hconfined : ∀ config, Configured disk o config → h.Confined config disk o.output place)
    (hjava : ∀ config, Configured disk o config → config.target = .java →
      config.compileCheck = true → '/' ∉ config.typeName) :
    ((run h arguments disk).exitCode = 0 ↔ ∃ text, Succeeds h disk o text) ∧
      (∀ text, Succeeds h disk o text →
        (run h arguments disk).session.disk.read o.output = .ok text.toBytes) ∧
      ((run h arguments disk).exitCode ≠ 0 →
        Disk.Untouched o.output disk (run h arguments disk).session.disk) ∧
      (∃ printed, Printed h disk o printed ∧ (run h arguments disk).session.stdout =
        printed ++ if (run h arguments disk).exitCode = 0 then success else []) ∧
      ((∀ config outcome, Configured disk o config → h.Probed config disk outcome →
          outcome.stdout = []) →
        (run h arguments disk).session.stdout =
          if (run h arguments disk).exitCode = 0 then success else []) := by
  obtain ⟨ended, s, hrun⟩ : ∃ ended s, (generate h o).run.run (.start disk) = (ended, s) :=
    ⟨_, _, rfl⟩
  have hends := ends_generate houtput hconfined hjava
  rw [hrun] at hends
  cases hends with
  | failed hsuccess huntouched hprinted =>
    rw [run_of_error hparse hrun]
    refine ⟨⟨fun hexit => absurd hexit Nat.one_ne_zero,
        fun htext => absurd htext (not_exists.2 hsuccess)⟩,
      fun text htext => absurd htext (hsuccess text), fun _ => huntouched,
      ⟨_, hprinted, (List.append_nil _).symm⟩, fun hquiet => hprinted.eq_nil hquiet⟩
  | succeeded hsuccess hread hprinted hstdout =>
    rw [run_of_ok hparse hrun]
    refine ⟨⟨fun _ => ⟨_, hsuccess⟩, fun _ => rfl⟩, fun text htext => ?_, fun h' => absurd rfl h',
      ⟨_, hprinted, hstdout⟩, fun hquiet => ?_⟩
    · rw [← htext.unique hsuccess]
      exact hread
    · rw [hstdout, hprinted.eq_nil hquiet]
      rfl

/-! ## Runs on two headers -/

def sampleDisk : Disk :=
  ⟨[(["tmp"], .directory), (["work"], .directory),
      (["work", "t.h"], .file (Text.toBytes "#define CKA_CLASS 0\n") false),
      (["work", "n.h"], .file (Text.toBytes "#define CKA_NSS (CKA_CLASS + 1)\n") false)],
    ["work"]⟩

/-- The program and its source, where the arguments ask for a compilation. -/
def compilation? : List Text → Option (Text × Text)
  | flag :: program :: source :: _ => if flag = ("-o" : Text) then some (program, source) else none
  | _ => none

/-- The disk after a compilation: the text of the source is where the program belongs, as a file to
run. -/
def compiled? (d : Disk) (program source : Text) : Option Disk :=
  match d.read source, d.locate program with
  | .ok content, .ok (p, false) => some (d.put p (.file content true))
  | _, _ => none

def isRunnable (d : Disk) (path : Text) : Bool :=
  match d.locate path with
  | .ok (p, false) =>
    match d.node? p with
    | some (.file _ executable) => executable
    | _ => false
  | _ => false

/-- Tools with a compiler that writes the programs it is asked for. A program that is named by an
absolute path has to be a file to run, and it prints a note; the other tools end with a code. -/
def sampleHost (code : Nat) (note : Text) : Host where
  run d c :=
    match compilation? c.arguments with
    | some (program, source) =>
      match compiled? d program source with
      | some d' => (d', .ok ⟨.exited 0, [], []⟩)
      | none => (d, .ok ⟨.exited 1, [], []⟩)
    | none =>
      if c.program.head? ≠ some '/' then (d, .ok ⟨.exited code, [], []⟩)
      else if isRunnable d c.program then (d, .ok ⟨.exited 0, note.toBytes, []⟩)
      else (d, .error .notFound)
  scratch := "/tmp/scratch"
  logging := false

def sampleArguments (more : List Text) : List Text :=
  "--pkcs11t" :: "t.h" :: "--pkcs11n" :: "n.h" :: more

theorem within_compiled? {name : Text} (hplace : ∀ part ∈ place, Disk.Plain part)
    (hname : Disk.Plain name) (d : Disk) (source : Text) :
    Disk.Within place d
      ((compiled? d (Disk.join (Disk.absolute place) name) source).getD d) := by
  rw [compiled?]
  split
  · next p _ hlocate =>
    obtain ⟨rfl, hp⟩ := Disk.locate_join hplace hname hlocate
    exact Disk.within_put hp (List.prefix_append place [name]) d nofun
  · exact .refl place d

theorem sampleHost_run_disk (code : Nat) (note : Text) (d : Disk) (c : Command) :
    ((sampleHost code note).run d c).1 =
      match compilation? c.arguments with
      | some (program, source) => (compiled? d program source).getD d
      | none => d := by
  dsimp only [sampleHost]
  cases compilation? c.arguments with
  | none =>
    dsimp only
    split
    · rfl
    · split <;> rfl
  | some files =>
    obtain ⟨program, source⟩ := files
    dsimp only
    cases compiled? d program source <;> rfl

/-- The compiler works in the scratch directory, and the other tools of a generation change
nothing. -/
theorem within_sampleHost {c : Command} {code : Nat} {note : Text}
    (hplain : ∀ part ∈ (["tmp", "scratch"] : Path), Disk.Plain part) (d : Disk)
    (hc : (sampleHost code note).Runs config disk c) :
    Disk.Within ["tmp", "scratch"] d ((sampleHost code note).run d c).1 := by
  rw [sampleHost_run_disk]
  cases hc with
  | compiler =>
    exact within_compiled? hplain ⟨by decide, by decide, by decide, by decide⟩ d _
  | flags | probe | java | rust => exact .refl _ d

theorem sample_confined (code : Nat) (note : Text) {path : Text}
    (hapart : ∀ p ∈ sampleDisk.trail path, ¬ (["tmp", "scratch"] : Path) <+: p)
    (config : GeneratorConfig) :
    (sampleHost code note).Confined config sampleDisk path ["tmp", "scratch"] := by
  have hplain : ∀ part ∈ (["tmp", "scratch"] : Path), Disk.Plain part := by
    intro part hpart
    rcases List.mem_pair.1 hpart with rfl | rfl
    · exact ⟨by decide, by decide, by decide, by decide⟩
    · exact ⟨by decide, by decide, by decide, by decide⟩
  refine Host.confined_of_within rfl hplain (fun d _ => within_sampleHost hplain d)
    (fun p hp => ?_) hapart
  exact Disk.node?_eq_none_of_forall (by decide) (by decide) hp

/-- A verified run: each program is compiled into the scratch directory and runs from there, and no
tool prints anything. -/
theorem all_or_nothing_verified :
    let arguments := sampleArguments ["-o", "out.rs", "-s", "--target=rust"]
    let o : Options :=
      ⟨"t.h", "n.h", "out.rs", true, false, some .rust, none, none, false, false, none⟩
    let r := run (sampleHost 0 []) arguments sampleDisk
    Options.parse arguments = .run o ∧ sampleDisk.NoDevice o.output ∧ r.exitCode = 0 ∧
      (∃ text, Succeeds (sampleHost 0 []) sampleDisk o text ∧
        r.session.disk.read o.output = .ok text.toBytes) ∧
      r.session.stdout = success := by
  intro arguments o r
  have hparse : Options.parse arguments = .run o := by decide +kernel
  have houtput : sampleDisk.NoDevice o.output := by
    intro p only device hlocate
    have hplace : sampleDisk.locate o.output = .ok (["work", "out.rs"], false) := by decide +kernel
    obtain ⟨rfl, -⟩ := Prod.mk.inj (Except.ok.inj (hlocate.symm.trans hplace))
    exact nofun
  have hconfined (config : GeneratorConfig) :
      (sampleHost 0 []).Confined config sampleDisk o.output ["tmp", "scratch"] :=
    sample_confined 0 [] (by decide +kernel) config
  have htarget : ∀ config, Configured sampleDisk o config → config.target = .rust := by
    rintro config ⟨base, hoverrides, -⟩
    exact hoverrides.target
  have hquiet : ∀ config outcome, Configured sampleDisk o config →
      (sampleHost 0 []).Probed config sampleDisk outcome → outcome.stdout = [] := by
    rintro config outcome - ⟨-, d, -, houtcome⟩
    have hrun : (sampleHost 0 []).run d (sampleHost 0 []).probeCommand =
        if isRunnable d "/tmp/scratch/probe" then (d, .ok ⟨.exited 0, [], []⟩)
        else (d, .error .notFound) := rfl
    rw [hrun] at houtcome
    split at houtcome
    · rw [← Except.ok.inj houtcome]
    · exact absurd houtcome nofun
  obtain ⟨hexit, hread, -, -, hstdout⟩ := all_or_nothing hparse houtput
    (fun config _ => hconfined config)
    fun config hconfig hjava => absurd (hjava.symm.trans (htarget config hconfig)) nofun
  have hzero : r.exitCode = 0 := by decide +kernel
  obtain ⟨text, htext⟩ := hexit.1 hzero
  refine ⟨hparse, houtput, hzero, ⟨text, htext, hread text htext⟩, ?_⟩
  exact (hstdout hquiet).trans (if_pos hzero)

/-- What a verification program prints comes before the line of success, and a type name that is an
absolute path puts the text in the output's place before the compiler refuses it. -/
theorem not_all_or_nothing :
    (let arguments := sampleArguments ["-o", "out.rs", "-s", "--target=rust"]
      let host := sampleHost 0 "note\n"
      let r := run host arguments sampleDisk
      (∀ config, host.Confined config sampleDisk "out.rs" ["tmp", "scratch"]) ∧
        r.exitCode = 0 ∧ r.session.stdout = "note\n" ++ ("note\n" ++ success)) ∧
    (let arguments := sampleArguments ["-o", "out.java", "--type-name=/work/out"]
      let host := sampleHost 1 []
      let r := run host arguments sampleDisk
      (∀ config, host.Confined config sampleDisk "out.java" ["tmp", "scratch"]) ∧
        r.exitCode ≠ 0 ∧ sampleDisk.node? ["work", "out.java"] = none ∧
          r.session.disk.node? ["work", "out.java"] ≠ none) := by
  refine ⟨⟨?_, ?_, ?_⟩, ?_, ?_, ?_, ?_⟩
  · exact sample_confined 0 "note\n" (by decide +kernel)
  · decide +kernel
  · decide +kernel
  · exact sample_confined 1 [] (by decide +kernel)
  · decide +kernel
  · decide +kernel
  · decide +kernel

end CommandLine

end HeaderConstants
