import HeaderConstants.CommandLine.Usage
import HeaderConstants.Generate.Run

/-!
# Running a command line

The configuration file is read and changed by the options, the constants are generated from the two
headers, and the text is written to the output. A run that fails before that leaves the output as it
was, writes a report of the causes to the error stream and nothing to the standard one.

* `CommandLine.generate`: the run of accepted options;
* `CommandLine.Failure.report`: the report of a failure;
* `CommandLine.run`: an argument list, with the exit code.
-/

namespace HeaderConstants.CommandLine
set_option autoImplicit false

/-- What was being done, and what went wrong, the outermost cause first. -/
structure Failure where
  doing : Text
  causes : List Text
  deriving DecidableEq, Repr

namespace Failure

def causeLines : Nat → List Text → Text
  | _, [] => []
  | n, cause :: more =>
    "    " ++ Text.decimal n ++ ": " ++ Text.hanging "       " cause ++ "\n"
      ++ causeLines (n + 1) more

def report (f : Failure) : Text :=
  "Error: " ++ f.doing ++ "\n"
    ++ (match f.causes with
        | [] => []
        | [cause] => "\nCaused by:\n    " ++ Text.hanging "    " cause ++ "\n"
        | causes => "\nCaused by:\n" ++ causeLines 0 causes)

end Failure

abbrev Task (α : Type) := ExceptT Failure (StateM Session) α

variable {α : Type}

def whileDoing (doing : Text) (a : Action α) : Task α :=
  ExceptT.adapt (fun e => ⟨doing, e.causes⟩) a

def attempt (doing : Text) (r : Except Text α) : Task α :=
  match r with
  | .ok a => pure a
  | .error cause => throw ⟨doing, [cause]⟩

def loadConfig (o : Options) : Task GeneratorConfig :=
  match o.config with
  | none => pure (o.apply .standard)
  | some path => do
    let s ← get
    let t ← attempt ("failed to read config " ++ path)
      ((s.disk.readText path).mapError IoError.message)
    match GeneratorConfig.ofText? t with
    | some config => pure (o.apply config)
    | none => throw ⟨"invalid config " ++ path, ["not a configuration"]⟩

def success : Text := "Success generating constant definitions\n"

def writeOutput (path text : Text) : Task Unit := do
  let s ← get
  let s' ← attempt ("failed to write " ++ path) ((s.write path text).mapError IoError.message)
  set s'

def generate (h : Host) (o : Options) : Task Unit := do
  let config ← loadConfig o
  let result ← whileDoing "failed to generate constant definitions"
    (config.generateFromPaths h [o.pkcs11t, o.pkcs11n])
  writeOutput o.output result.text
  modify (Session.log h
    ⟨.info, .output,
      "Wrote " ++ Text.decimal result.stats.constants ++ " constants to " ++ o.output⟩)
  modify fun s => { s with stdout := s.stdout ++ success }

/-- The session after a run, and its exit code. -/
structure Result where
  exitCode : Nat
  session : Session
  deriving DecidableEq, Repr

def run (h : Host) (arguments : List Text) (disk : Disk) : Result :=
  match Options.parse arguments with
  | .misuse => ⟨2, ⟨disk, [], Options.usageLine⟩⟩
  | .describe name => ⟨0, ⟨disk, Options.description name, []⟩⟩
  | .run o =>
    match ((generate h o).run (.start disk) : Except Failure Unit × Session) with
    | (.ok (), s) => ⟨0, s⟩
    | (.error f, s) => ⟨1, { s with stderr := s.stderr ++ f.report }⟩

end HeaderConstants.CommandLine
