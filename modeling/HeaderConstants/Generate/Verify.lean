import HeaderConstants.Generate.Action

/-!
# Verification against the system headers

For every constant a small C program is compiled with the flags of the installed package and run;
its exit status tells whether the system's header gives the constant the same value.

* `Verify.probeSource`: the program;
* `Verify.flags`: the compiler flags of the package;
* `Verify.constant`, `Verify.all`: one constant, and all of them.
-/

namespace HeaderConstants.Verify
set_option autoImplicit false

open HeaderConstants.Action

def probeSource (name : Text) (v : UInt64) : Text :=
  Emit.unlines
    ["#include \"pkcs11t.h\"", "#include \"pkcs11n.h\"", "", "int main() \x7b",
      "    if (" ++ name ++ " != " ++ HexLiteral.text v ++ ") \x7b", "        return 1;",
      "    \x7d", "    return 0;", "\x7d"]

def package : Text := "nss"

def flags (h : Host) (tools : Toolchain) : Action (List Text) := do
  let tool := tools.pkgConfig
  let o ← start h tool ⟨tool, ["--libs", "--cflags", package]⟩
  if o.status.isSuccess then pure (Text.ofBytesTolerant o.stdout).words
  else throw (.toolFailed tool package o.status.message none)

def outputOf (o : CommandOutcome) : ProbeOutput :=
  ⟨Text.ofBytesTolerant o.stdout, Text.ofBytesTolerant o.stderr⟩

def warn (h : Host) (name stream output : Text) : Action Unit :=
  if output.isEmpty then pure ()
  else
    log h .warn .verification
      ("When checking symbol '" ++ name ++ "' (" ++ stream ++ "):\n" ++ output)

/-- Compiles and runs the program of a constant in the scratch directory. -/
def probe (h : Host) (tools : Toolchain) (flags : List Text) (name : Text) (v : UInt64) :
    Action (Except GenerateError ProbeOutput) := do
  let source := Disk.join h.scratch "probe.c"
  let program := Disk.join h.scratch "probe"
  write source (probeSource name v)
  let o ← start h tools.cc ⟨tools.cc, "-o" :: program :: source :: flags⟩
  let output := outputOf o
  warn h name "stdout" output.stdout
  warn h name "stderr" output.stderr
  if o.status.isSuccess then
    let ran ← modifyGet (Session.run h ⟨program, []⟩)
    match ran with
    | .error cause => pure (.error (.notStarted program cause))
    | .ok r => do
      modify (Session.passOn r)
      if r.status.isSuccess then pure (.ok output)
      else pure (.error (.valueMismatch name v h.scratch))
  else pure (.error (.toolFailed tools.cc name o.status.message (some h.scratch)))

def constant (h : Host) (tools : Toolchain) (flags : List Text) (c : Constant) :
    Action ProbeOutput := do
  let v ← require (c.requireValue.mapError .unresolved)
  inScratch h (probe h tools flags c.name v)

def allFrom (h : Host) (tools : Toolchain) (flags : List Text) :
    Report → List Constant → Action Report
  | report, [] => pure report
  | report, c :: more => do
    let output ← constant h tools flags c
    allFrom h tools flags (report.pass c.name output) more

def all (h : Host) (tools : Toolchain) (constants : List Constant) : Action Report := do
  log h .info .verification
    ("Performing extended value checks on " ++ Text.decimal constants.length ++ " constants")
  let fs ← flags h tools
  let report ← allFrom h tools fs .empty constants
  log h .info .verification
    ("Verified " ++ Text.decimal report.checked ++ " constants against system headers")
  pure report

end HeaderConstants.Verify
