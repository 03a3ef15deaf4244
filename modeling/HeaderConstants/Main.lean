import HeaderConstants.CommandLine.Run
import HeaderConstants.Script.Host

/-!
# The program

The files that a command line names are put on a disk, the command line is run there, and what it
wrote is put back: the output, the two streams and, after a failure, the scratch files. Tools are
the utilities and the scripts that the configuration names by a path.
-/

namespace HeaderConstants.Program
set_option autoImplicit false

/-- The tools of a configuration file that are files themselves. -/
def toolPaths (configuration : Bytes) : List Text :=
  match (Text.ofBytes? configuration).bind GeneratorConfig.ofText? with
  | some config =>
    let tools := config.toolchain
    [tools.cc, tools.pkgConfig, tools.javac, tools.rustc].filter (·.contains '/')
  | none => []

def readBytes (path : Text) : IO (Option Bytes) := do
  try
    let content ← IO.FS.readBinFile (String.ofList path)
    pure (some content.toList)
  catch _ => pure none

def writeBytes (path : Text) (content : Bytes) : IO Unit :=
  IO.FS.writeBinFile (String.ofList path) ⟨content.toArray⟩

/-- Puts a file on the disk, if there is one. -/
def load (disk : Disk) (path : Text) (executable : Bool) : IO Disk := do
  match ← readBytes path with
  | some content => pure (disk.install path content executable)
  | none => pure disk

/-- The disk for a run, with a place for its output. -/
def diskFor (o : Options) : IO Disk := do
  let base := Script.utilityDisk.makeParents o.output
  let configuration := (← (o.config.mapM readBytes)).join.getD []
  let inputs := o.config.toList ++ [o.pkcs11t, o.pkcs11n, o.output]
  let disk ← inputs.foldlM (fun d path => load d path false) base
  (toolPaths configuration).foldlM (fun d path => load d path true) disk

/-- Puts the scratch files of a failed run where its report says. -/
def keepScratch (disk : Disk) (scratch : Text) : IO Unit := do
  if disk.isDirectory scratch then
    IO.FS.createDirAll (String.ofList scratch)
    for (name, content) in disk.files scratch do
      writeBytes (Disk.join scratch name) content

def finish (o : Options) (r : CommandLine.Result) : IO UInt32 := do
  if r.exitCode = 0 then
    match r.session.disk.read o.output with
    | .ok content =>
      try
        writeBytes o.output content
      catch e =>
        let failure : CommandLine.Failure := ⟨"failed to write " ++ o.output, [e.toString]⟩
        IO.eprint (String.ofList (r.session.stderr ++ failure.report))
        return 1
    | .error _ => pure ()
  IO.eprint (String.ofList r.session.stderr)
  IO.print (String.ofList r.session.stdout)
  pure (UInt32.ofNat r.exitCode)

def run (arguments : List Text) : IO UInt32 := do
  let time ← IO.monoNanosNow
  let scratch : Text := "/tmp/tmp-constgen-" ++ Text.decimal time
  let host := Script.host scratch true
  match Options.parse arguments with
  | .run o =>
    let r := CommandLine.run host arguments (← diskFor o)
    keepScratch r.session.disk scratch
    finish o r
  | _ =>
    let r := CommandLine.run host arguments Script.utilityDisk
    IO.eprint (String.ofList r.session.stderr)
    IO.print (String.ofList r.session.stdout)
    pure (UInt32.ofNat r.exitCode)

end HeaderConstants.Program

def main (arguments : List String) : IO UInt32 :=
  HeaderConstants.Program.run (arguments.map String.toList)
