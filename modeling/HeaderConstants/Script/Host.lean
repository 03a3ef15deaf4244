import HeaderConstants.Host.Command
import HeaderConstants.Script.Eval

/-!
# The host of a disk

A host whose programs are the utilities and the scripts of its disk. The disk of such a host has the
utilities among its files.

`Script` is the outer layer: a shell with its utilities, which do nothing but run the programs that
a host is asked for. The library knows programs only through `Host.run` and is about any host; none
of its definitions uses this layer and none of its theorems is about it. Only the program in
`HeaderConstants.Main` puts the two together.
-/

namespace HeaderConstants.Script
set_option autoImplicit false

def programDirectories : List Path := [["bin"], ["usr", "bin"]]

def programNode (name : Text) : Node := .file (rawBytes (Program.content name)) true

def programNames : List Text := Builtin.interpreters ++ [("env" : Text)] ++ Program.names

def programNodes : List (Path × Node) :=
  programDirectories.flatMap fun directory =>
    (directory, .directory) :: programNames.map fun name => (directory ++ [name], programNode name)

def deviceNodes : List (Path × Node) :=
  [(["dev"], .directory), (["dev", "null"], .device .null), (["dev", "full"], .device .full),
    (["dev", "stdin"], .device (.stream 0)), (["dev", "stdout"], .device (.stream 1)),
    (["dev", "stderr"], .device (.stream 2))]

def systemNodes : List (Path × Node) :=
  (["work"], .directory) :: (["tmp"], .directory) :: (["usr"], .directory) :: deviceNodes

/-- A disk with the utilities, the devices and an empty working directory. -/
def utilityDisk : Disk := ⟨systemNodes ++ programNodes, ["work"]⟩

def outcome (m : Machine) : CommandOutcome :=
  let status :=
    match m.flow with
    | .killed n => .signalled n
    | _ => .exited (m.status % 256)
  ⟨status, rawBytes (m.collected 0), rawBytes (m.collected 1)⟩

/-- The machine for a program; it is told where scratch files belong. -/
def machineFor (scratch : Text) (d : Disk) (name : Text) (arguments : List Text) : Machine :=
  (Machine.start d name arguments).setBinding "TMPDIR"
    (some ⟨some (FileTool.dirName (toRaw scratch)), true, false⟩)

def runCommand (scratch : Text) (d : Disk) (c : Command) :
    Disk × Except IoError CommandOutcome :=
  if c.program.contains '\x00' || c.arguments.any (·.contains '\x00') then
    (d, .error .nulInCommand)
  else
    let arguments := c.arguments.map toRaw
    let program := toRaw c.program
    match runProgram (machineFor scratch d program arguments) program arguments with
    | .error e => (d, .error e)
    | .ok m => ({ m.disk with workingDirectory := d.workingDirectory }, .ok (outcome m))

def host (scratch : Text) (logging : Bool) : Host := ⟨runCommand scratch, scratch, logging⟩

end HeaderConstants.Script
