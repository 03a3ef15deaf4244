import HeaderConstants.Generate.Run
import HeaderConstants.Proofs.Host.Disk

/-!
# What a generation leaves alone

A generation works in its scratch directory, and beside that only its tools change the disk. As long
as they leave a path alone, nothing that is done before the text is written is seen through the
path; and the standard output takes nothing but what the verification programs print.

* `Host.Reaches`, `Host.Runs`: the disks that a generation may come to, and the commands it runs;
* `Host.Confined`: a scratch directory of its own, and tools that leave a path alone;
* `Host.confined_of_within`: tools that work in the scratch directory only;
* `Host.Probed`: how the programs of a verification may end;
* `Session.Kept`: what every step of a generation preserves;
* `GeneratorConfig.keeps_generate`: a whole generation.
-/

namespace HeaderConstants
set_option autoImplicit false

/-! ## Commands -/

namespace GeneratorConfig

/-- How the compiler flags are asked for. -/
def flagsCommand (config : GeneratorConfig) : Command :=
  ⟨config.toolchain.pkgConfig, ["--libs", "--cflags", Verify.package]⟩

/-- How a verification program is compiled. -/
def probeCompiler (h : Host) (config : GeneratorConfig) (flags : List Text) : Command :=
  ⟨config.toolchain.cc,
    "-o" :: Disk.join h.scratch "probe" :: Disk.join h.scratch "probe.c" :: flags⟩

def javaFileName (config : GeneratorConfig) : Text := config.typeName ++ ".java"

/-- The files that a generation writes into the scratch directory. -/
inductive ScratchFile (config : GeneratorConfig) : Text → Prop
  | probe : config.verifySystem = true → ScratchFile config "probe.c"
  | java : config.compileCheck = true → config.target = .java →
      ScratchFile config config.javaFileName
  | rust : config.compileCheck = true → config.target = .rust →
      ScratchFile config Check.rustFileName

end GeneratorConfig

namespace Host

/-- A compiled verification program. -/
def probeCommand (h : Host) : Command := ⟨Disk.join h.scratch "probe", []⟩

mutual

/-- The disks that a generation may come to from a disk. -/
inductive Reaches (h : Host) (config : GeneratorConfig) (disk : Disk) : Disk → Prop
  | start : Reaches h config disk disk
  | command {d : Disk} {c : Command} :
      Reaches h config disk d → Runs h config disk c → Reaches h config disk (h.run d c).1
  | makeScratch {d : Disk} :
      Reaches h config disk d → Reaches h config disk (d.makeDirectory h.scratch)
  | dropScratch {d : Disk} :
      Reaches h config disk d → Reaches h config disk (d.removeTree h.scratch)
  | file {d d' : Disk} {name : Text} {content : Bytes} :
      Reaches h config disk d → config.ScratchFile name →
        d.write (Disk.join h.scratch name) content = .ok d' → Reaches h config disk d'

/-- The commands that a generation may run. -/
inductive Runs (h : Host) (config : GeneratorConfig) (disk : Disk) : Command → Prop
  | flags : config.verifySystem = true → Runs h config disk config.flagsCommand
  | compiler {d : Disk} {o : CommandOutcome} : config.verifySystem = true →
      Reaches h config disk d → (h.run d config.flagsCommand).2 = .ok o →
        Runs h config disk (config.probeCompiler h (Text.ofBytesTolerant o.stdout).words)
  | probe : config.verifySystem = true → Runs h config disk h.probeCommand
  | java : config.compileCheck = true → config.target = .java →
      Runs h config disk
        ⟨config.toolchain.javac, [Disk.join h.scratch config.javaFileName]⟩
  | rust : config.compileCheck = true → config.target = .rust →
      Runs h config disk
        ⟨config.toolchain.rustc, ["--crate-type", "lib", "--emit", "metadata", "--out-dir",
          h.scratch, Disk.join h.scratch Check.rustFileName]⟩

end

/-- The scratch directory is a new one that a path keeps away from, and the tools of a generation
leave alone what the path leads to. They make no devices in the scratch directory either. -/
structure Confined (h : Host) (config : GeneratorConfig) (disk : Disk) (path : Text)
    (place : Path) : Prop where
  scratch : h.scratch = Disk.absolute place
  plain : ∀ part ∈ place, Disk.Plain part
  fresh : ∀ p, place <+: p → disk.node? p = none
  apart : ∀ p ∈ disk.trail path, ¬ place <+: p
  tools : ∀ d c, h.Reaches config disk d → h.Runs config disk c →
    Disk.Untouched path d (h.run d c).1
  devices : ∀ d c p device, h.Reaches config disk d → h.Runs config disk c → place <+: p →
    (h.run d c).1.node? p = some (.device device) → d.node? p = some (.device device)

section

variable {h : Host} {config : GeneratorConfig} {disk : Disk} {place : Path}
  (hscratch : h.scratch = Disk.absolute place) (hplain : ∀ part ∈ place, Disk.Plain part)
  (hwithin : ∀ d c, h.Runs config disk c → Disk.Within place d (h.run d c).1)

include hscratch hplain hwithin

/-- Paths start from the same directory on every disk that is come to. -/
theorem Reaches.workingDirectory {d : Disk} (hd : h.Reaches config disk d) :
    d.workingDirectory = disk.workingDirectory := by
  -- The relation is mutual with `Runs`, of which nothing is needed here, so no second claim is made.
  match hd with
  | .start => rfl
  | .command hd hc => exact (hwithin _ _ hc).workingDirectory.trans (workingDirectory hd)
  | .makeScratch hd =>
    rw [hscratch]
    exact (Disk.within_makeDirectory hplain _).workingDirectory.trans (workingDirectory hd)
  | .dropScratch hd =>
    rw [hscratch]
    exact (Disk.within_removeTree hplain _).workingDirectory.trans (workingDirectory hd)
  | .file hd _ hwrite => exact (Disk.workingDirectory_of_write hwrite).trans (workingDirectory hd)

/-- Tools that work in the scratch directory only leave every path alone that keeps away from it. -/
theorem confined_of_within {path : Text} (hfresh : ∀ p, place <+: p → disk.node? p = none)
    (hapart : ∀ p ∈ disk.trail path, ¬ place <+: p) : h.Confined config disk path place := by
  refine ⟨hscratch, hplain, hfresh, hapart, fun d c hd hc => (hwithin d c hc).untouched ?_,
    fun d c p device _ hc _ => (hwithin d c hc).device p device⟩
  rw [Disk.trail, Disk.origin, hd.workingDirectory hscratch hplain hwithin]
  exact hapart

end

/-- The outcomes that a verification program may have. -/
def Probed (h : Host) (config : GeneratorConfig) (disk : Disk) (o : CommandOutcome) : Prop :=
  config.verifySystem = true ∧ ∃ d, h.Reaches config disk d ∧ (h.run d h.probeCommand).2 = .ok o

end Host

/-! ## Sessions -/

namespace Session

variable {h : Host} {config : GeneratorConfig} {disk : Disk} {path name t : Text} {place : Path}
  {s s' : Session} {c : Command}

theorem log_disk (h : Host) (l : LogLine) (s : Session) : (s.log h l).disk = s.disk := by
  rw [log]
  split <;> rfl

theorem log_stdout (h : Host) (l : LogLine) (s : Session) : (s.log h l).stdout = s.stdout := by
  rw [log]
  split <;> rfl

/-- What verification programs print. -/
def printed (outcomes : List CommandOutcome) : Text :=
  outcomes.flatMap fun o => Text.ofBytesTolerant o.stdout

/-- The disk is one that a generation may come to and the same as far as the path can tell, and only
verification programs have printed something. -/
structure Kept (h : Host) (config : GeneratorConfig) (disk : Disk) (path : Text) (place : Path)
    (s : Session) : Prop where
  reached : h.Reaches config disk s.disk
  untouched : Disk.Untouched path disk s.disk
  noDevice : ∀ p device, place <+: p → s.disk.node? p ≠ some (.device device)
  stdout : ∃ outcomes, (∀ o ∈ outcomes, h.Probed config disk o) ∧ s.stdout = printed outcomes

namespace Kept

theorem start (hconfined : h.Confined config disk path place) :
    Kept h config disk path place (.start disk) where
  reached := .start
  untouched := .refl path disk
  noDevice p _ hp hnode := absurd ((hconfined.fresh p hp).symm.trans hnode) nofun
  stdout := ⟨[], List.forall_mem_nil _, rfl⟩

/-- A session with the disk and the standard output of another one. -/
theorem congr (hs : Kept h config disk path place s) (hdisk : s'.disk = s.disk)
    (hstdout : s'.stdout = s.stdout) : Kept h config disk path place s' := by
  refine ⟨?_, ?_, ?_, ?_⟩
  · rw [hdisk]
    exact hs.reached
  · rw [hdisk]
    exact hs.untouched
  · rw [hdisk]
    exact hs.noDevice
  · rw [hstdout]
    exact hs.stdout

theorem log (hs : Kept h config disk path place s) (l : LogLine) :
    Kept h config disk path place (s.log h l) :=
  hs.congr (log_disk h l s) (log_stdout h l s)

theorem logAll (hs : Kept h config disk path place s) (ls : List LogLine) :
    Kept h config disk path place (s.logAll h ls) := by
  induction ls generalizing s with
  | nil => exact hs
  | cons l ls ih => exact ih (hs.log l)

section

variable (hconfined : h.Confined config disk path place)

include hconfined

theorem run (hs : Kept h config disk path place s) (hc : h.Runs config disk c) :
    Kept h config disk path place (s.run h c).2 where
  reached := hs.reached.command hc
  untouched := hs.untouched.trans (hconfined.tools s.disk c hs.reached hc)
  noDevice p device hp hnode :=
    hs.noDevice p device hp (hconfined.devices s.disk c p device hs.reached hc hp hnode)
  stdout := hs.stdout

/-- What is done in the scratch directory is not seen through the path. -/
theorem within (hs : Kept h config disk path place s) {d : Disk}
    (hreached : h.Reaches config disk d) (hd : Disk.Within place s.disk d) :
    Kept h config disk path place { s with disk := d } where
  reached := hreached
  untouched := by
    refine hs.untouched.trans (hd.untouched ?_)
    rw [hs.untouched.trail]
    exact hconfined.apart
  noDevice p device hp hnode := hs.noDevice p device hp (hd.device p device hnode)
  stdout := hs.stdout

theorem makeScratch (hs : Kept h config disk path place s) :
    Kept h config disk path place { s with disk := s.disk.makeDirectory h.scratch } := by
  refine hs.within hconfined hs.reached.makeScratch ?_
  rw [hconfined.scratch]
  exact Disk.within_makeDirectory hconfined.plain s.disk

theorem dropScratch (hs : Kept h config disk path place s) :
    Kept h config disk path place { s with disk := s.disk.removeTree h.scratch } := by
  refine hs.within hconfined hs.reached.dropScratch ?_
  rw [hconfined.scratch]
  exact Disk.within_removeTree hconfined.plain s.disk

/-- A file of the scratch directory is no device, so its text goes nowhere else. -/
theorem write (hs : Kept h config disk path place s) (hfile : config.ScratchFile name)
    (hname : Disk.Plain name) (hwrite : s.write (Disk.join h.scratch name) t = .ok s') :
    Kept h config disk path place s' := by
  have hdevice : s.disk.NoDevice (Disk.join h.scratch name) := by
    intro p only device hlocate
    rw [hconfined.scratch] at hlocate
    obtain ⟨rfl, -⟩ := Disk.locate_join hconfined.plain hname hlocate
    exact hs.noDevice _ device (List.prefix_append place [name])
  rw [write_of_noDevice hdevice] at hwrite
  obtain ⟨d, hd, rfl⟩ := map_eq_ok_iff.1 hwrite
  refine hs.within hconfined (hs.reached.file hfile hd) ?_
  rw [hconfined.scratch] at hd
  exact Disk.within_write hconfined.plain hname hd

end

theorem passOn {d : Disk} {o : CommandOutcome} (hs : Kept h config disk path place s)
    (hverify : config.verifySystem = true) (hd : h.Reaches config disk d)
    (ho : (h.run d h.probeCommand).2 = .ok o) : Kept h config disk path place (s.passOn o) where
  reached := hs.reached
  untouched := hs.untouched
  noDevice := hs.noDevice
  stdout := by
    obtain ⟨outcomes, houtcomes, hstdout⟩ := hs.stdout
    refine ⟨outcomes ++ [o], List.forall_mem_append.2 ⟨houtcomes, ?_⟩, ?_⟩
    · exact List.forall_mem_singleton.2 ⟨hverify, d, hd, ho⟩
    · rw [Session.passOn, hstdout, printed, printed, List.flatMap_append, List.flatMap_singleton]

end Kept

end Session

/-! ## Actions -/

namespace Action

variable {α β : Type} {I : Session → Prop} {a : Action α} {f : α → Action β} {x : α}
  {e : GenerateError} {Q Q' : α → Prop} {R : β → Prop}

/-- Sessions of the one kind stay so, whether the action fails or not, and its results are of the
other kind. -/
def Keeps (I : Session → Prop) (a : Action α) (Q : α → Prop) : Prop :=
  ∀ s, I s → I (a.run.run s).2 ∧ ∀ x, (a.run.run s).1 = .ok x → Q x

theorem keeps_pure (h : Q x) : Keeps I (pure x) Q :=
  fun _ hs => ⟨hs, fun _ hx => Except.ok.inj hx ▸ h⟩

theorem keeps_throw : Keeps I (throw e : Action α) Q := fun _ hs => ⟨hs, nofun⟩

theorem keeps_modify {g : Session → Session} (hg : ∀ s, I s → I (g s)) :
    Keeps I (modify g) fun _ => True :=
  fun s hs => ⟨hg s hs, fun _ _ => trivial⟩

theorem keeps_require {r : Except GenerateError α} (h : ∀ x, r = .ok x → Q x) :
    Keeps I (require r) Q := by
  cases r with
  | ok x => exact keeps_pure (h x rfl)
  | error e => exact keeps_throw

theorem Keeps.bind (h : Keeps I a Q) (hf : ∀ x, Q x → Keeps I (f x) R) : Keeps I (a >>= f) R := by
  intro s hs
  obtain ⟨hs', hresult⟩ := h s hs
  obtain ⟨result, s', hrun⟩ : ∃ result s', a.run.run s = (result, s') := ⟨_, _, rfl⟩
  rw [hrun] at hs' hresult
  cases result with
  | ok x =>
    rw [run_bind_of_ok hrun]
    exact hf x (hresult x rfl) s' hs'
  | error e =>
    rw [run_bind_of_error hrun]
    exact ⟨hs', nofun⟩

theorem keeps_inScratch {h : Host} {work : Action (Except GenerateError α)}
    (hmake : ∀ s, I s → I { s with disk := s.disk.makeDirectory h.scratch })
    (hdrop : ∀ s, I s → I { s with disk := s.disk.removeTree h.scratch })
    (hwork : Keeps I work fun _ => True) : Keeps I (inScratch h work) fun _ => True := by
  refine (keeps_modify hmake).bind fun _ _ => ?_
  have hlift : Keeps I (ExceptT.lift work.run) fun _ => True := by
    intro s hs
    rw [ExceptT.run_lift, StateT.run_map]
    exact ⟨(hwork s hs).1, fun _ _ => trivial⟩
  refine hlift.bind fun result _ => ?_
  match result with
  | .ok (.ok x) => exact (keeps_modify hdrop).bind fun _ _ => keeps_pure trivial
  | .ok (.error e) => exact keeps_throw
  | .error e => exact (keeps_modify hdrop).bind fun _ _ => keeps_throw

theorem run_write (path t : Text) (s : Session) :
    (write path t).run.run s =
      match s.write path t with
      | .ok s' => (.ok (), s')
      | .error e => (.error (.io path e), s) := by
  change (require ((s.write path t).mapError (GenerateError.io path)) >>= set).run.run s = _
  cases s.write path t <;> rfl

end Action

/-! ## Generation -/

open HeaderConstants.Action

section

variable {h : Host} {config : GeneratorConfig} {disk : Disk} {path name : Text} {place : Path}
  {c : Command}

theorem GeneratorConfig.ScratchFile.plain (hfile : config.ScratchFile name)
    (hjava : config.target = .java → config.compileCheck = true → '/' ∉ config.typeName) :
    Disk.Plain name := by
  cases hfile with
  | probe => exact ⟨by decide, by decide, by decide, by decide⟩
  | rust => exact ⟨by decide, by decide, by decide, by decide⟩
  | java hcheck htarget =>
    have hlength : config.javaFileName.length = config.typeName.length + 5 :=
      List.length_append
    refine ⟨fun h => ?_, ?_, fun h => ?_, fun h => ?_⟩
    · rw [h] at hlength
      exact absurd hlength nofun
    · rw [GeneratorConfig.javaFileName, List.mem_append, not_or]
      exact ⟨hjava htarget hcheck, by decide⟩
    · rw [h, List.length_singleton] at hlength
      omega
    · rw [h] at hlength
      change 2 = _ at hlength
      omega

theorem keeps_log (level : LogLevel) (topic : LogTopic) (message : Text) :
    Keeps (Session.Kept h config disk path place) (log h level topic message) fun _ => True :=
  keeps_modify fun _ hs => hs.log _

variable (hconfined : h.Confined config disk path place)

include hconfined

theorem keeps_run (hc : h.Runs config disk c) :
    Keeps (Session.Kept h config disk path place) (modifyGet (Session.run h c)) fun r =>
      ∃ d, h.Reaches config disk d ∧ (h.run d c).2 = r :=
  fun s hs => ⟨hs.run hconfined hc, fun _ hr => ⟨s.disk, hs.reached, Except.ok.inj hr⟩⟩

theorem keeps_start (name : Text) (hc : h.Runs config disk c) :
    Keeps (Session.Kept h config disk path place) (start h name c) fun o =>
      ∃ d, h.Reaches config disk d ∧ (h.run d c).2 = .ok o := by
  refine (keeps_run hconfined hc).bind fun result hresult => keeps_require fun o ho => ?_
  obtain ⟨d, hd, hrun⟩ := hresult
  exact ⟨d, hd, hrun.trans (mapError_eq_ok_iff.1 ho)⟩

theorem keeps_scratch {α : Type} {work : Action (Except GenerateError α)}
    (hwork : Keeps (Session.Kept h config disk path place) work fun _ => True) :
    Keeps (Session.Kept h config disk path place) (inScratch h work) fun _ => True :=
  keeps_inScratch (fun _ hs => hs.makeScratch hconfined) (fun _ hs => hs.dropScratch hconfined) hwork

theorem keeps_write (hfile : config.ScratchFile name) (hname : Disk.Plain name) (t : Text) :
    Keeps (Session.Kept h config disk path place) (write (Disk.join h.scratch name) t)
      fun _ => True := by
  intro s hs
  rw [run_write]
  cases hwrite : s.write (Disk.join h.scratch name) t with
  | ok s' => exact ⟨hs.write hconfined hfile hname hwrite, fun _ _ => trivial⟩
  | error e => exact ⟨hs, nofun⟩

namespace Verify

variable (hverify : config.verifySystem = true)

include hverify

theorem keeps_flags :
    Keeps (Session.Kept h config disk path place) (flags h config.toolchain) fun fs =>
      h.Runs config disk (config.probeCompiler h fs) := by
  refine (keeps_start hconfined _ (.flags hverify)).bind fun o ho => ?_
  obtain ⟨d, hd, hrun⟩ := ho
  split
  -- The flags are those of a disk that the generation reaches, so it may compile with them.
  · exact keeps_pure (.compiler hverify hd hrun)
  · exact keeps_throw

omit hconfined hverify in
theorem keeps_warn (name stream output : Text) :
    Keeps (Session.Kept h config disk path place) (warn h name stream output) fun _ => True := by
  rw [warn]
  split
  · exact keeps_pure trivial
  · exact keeps_log _ _ _

theorem keeps_probe {fs : List Text} (hfs : h.Runs config disk (config.probeCompiler h fs))
    (name : Text) (v : UInt64) :
    Keeps (Session.Kept h config disk path place) (probe h config.toolchain fs name v)
      fun _ => True := by
  have hplain : Disk.Plain "probe.c" := ⟨by decide, by decide, by decide, by decide⟩
  refine (keeps_write hconfined (.probe hverify) hplain _).bind fun _ _ => ?_
  refine (keeps_start hconfined _ hfs).bind fun o _ => ?_
  refine (keeps_warn name _ _).bind fun _ _ => ?_
  refine (keeps_warn name _ _).bind fun _ _ => ?_
  split
  · refine (keeps_run hconfined (.probe hverify)).bind fun ran hran => ?_
    obtain ⟨d, hd, hrun⟩ := hran
    split
    · exact keeps_pure trivial
    · refine (keeps_modify fun _ hs => hs.passOn hverify hd hrun).bind fun _ _ => ?_
      split
      · exact keeps_pure trivial
      · exact keeps_pure trivial
  · exact keeps_pure trivial

theorem keeps_constant {fs : List Text} (hfs : h.Runs config disk (config.probeCompiler h fs))
    (constant : Constant) :
    Keeps (Session.Kept h config disk path place) (Verify.constant h config.toolchain fs constant)
      fun _ => True := by
  refine (keeps_require (Q := fun _ => True) fun _ _ => trivial).bind fun v _ => ?_
  exact keeps_scratch hconfined (keeps_probe hconfined hverify hfs constant.name v)

theorem keeps_allFrom {fs : List Text} (hfs : h.Runs config disk (config.probeCompiler h fs))
    (report : Report) (constants : List Constant) :
    Keeps (Session.Kept h config disk path place)
      (allFrom h config.toolchain fs report constants) fun _ => True := by
  induction constants generalizing report with
  | nil => exact keeps_pure trivial
  | cons constant more ih =>
    refine (keeps_constant hconfined hverify hfs constant).bind fun output _ => ?_
    exact ih (report.pass constant.name output)

theorem keeps_all (constants : List Constant) :
    Keeps (Session.Kept h config disk path place) (all h config.toolchain constants)
      fun _ => True := by
  refine (keeps_log _ _ _).bind fun _ _ => ?_
  refine (keeps_flags hconfined hverify).bind fun fs hfs => ?_
  refine (keeps_allFrom hconfined hverify hfs .empty constants).bind fun report _ => ?_
  exact (keeps_log _ _ _).bind fun _ _ => keeps_pure trivial

end Verify

namespace Check

theorem keeps_compile {tool : Text} {arguments : Text → List Text}
    (hfile : config.ScratchFile name) (hname : Disk.Plain name)
    (hc : h.Runs config disk ⟨tool, arguments (Disk.join h.scratch name)⟩) (text : Text) :
    Keeps (Session.Kept h config disk path place) (compile h tool name text arguments)
      fun _ => True := by
  refine (keeps_write hconfined hfile hname text).bind fun _ _ => ?_
  refine (keeps_start hconfined tool hc).bind fun o _ => ?_
  split
  · exact keeps_pure trivial
  · exact keeps_pure trivial

variable (hjava : config.target = .java → config.compileCheck = true → '/' ∉ config.typeName)

include hjava

theorem keeps_text (hcheck : config.compileCheck = true) (t : Text) :
    Keeps (Session.Kept h config disk path place) (text h config t) fun _ => True := by
  rw [text]
  split
  · next htarget =>
    have hfile : config.ScratchFile config.javaFileName := .java hcheck htarget
    exact keeps_scratch hconfined
      (keeps_compile hconfined hfile (hfile.plain hjava) (.java hcheck htarget) t)
  · next htarget =>
    have hfile : config.ScratchFile rustFileName := .rust hcheck htarget
    exact keeps_scratch hconfined
      (keeps_compile hconfined hfile (hfile.plain hjava) (.rust hcheck htarget) t)
  · split
    · exact keeps_pure trivial
    · exact keeps_throw

theorem keeps_run (hcheck : config.compileCheck = true) (t : Text) :
    Keeps (Session.Kept h config disk path place) (run h config t) fun _ => True :=
  (keeps_text hconfined hjava hcheck t).bind fun _ _ => keeps_log _ _ _

end Check

namespace GeneratorConfig

theorem keeps_verification (set : ConstantSet) :
    Keeps (Session.Kept h config disk path place) (config.verification h set) fun _ => True := by
  rw [verification]
  split
  · next hverify =>
    exact (Verify.keeps_all hconfined hverify set.constants).bind fun _ _ => keeps_pure trivial
  · exact keeps_pure trivial

/-- Whether a generation succeeds or not, it is not seen through a path that its tools leave
alone. -/
theorem keeps_generate
    (hjava : config.target = .java → config.compileCheck = true → '/' ∉ config.typeName)
    (sources : List HeaderSource) :
    Keeps (Session.Kept h config disk path place) (config.generate h sources) fun _ => True := by
  refine (keeps_modify fun _ hs => hs.logAll _).bind fun _ _ => ?_
  refine (keeps_require (Q := fun _ => True) fun _ _ => trivial).bind fun resolved _ => ?_
  refine (keeps_verification hconfined resolved.constants).bind fun report _ => ?_
  refine (keeps_require (Q := fun _ => True) fun _ _ => trivial).bind fun text _ => ?_
  split
  · next hcheck =>
    refine (Check.keeps_run hconfined hjava hcheck text).bind fun _ _ => ?_
    exact (keeps_log _ _ _).bind fun _ _ => keeps_pure trivial
  · exact (keeps_log _ _ _).bind fun _ _ => keeps_pure trivial

end GeneratorConfig

end

end HeaderConstants
