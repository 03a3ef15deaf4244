import HeaderConstants.Constant.Basic
import HeaderConstants.Text.Line

/-!
# What is emitted

A document holds the constants to write, the copyright texts of the headers they come from, and,
after a check against the system headers, what the compiler said about each constant. Only resolved
constants can be written.

* `Report`: the compiler's outputs by name;
* `Document.probeOutput?`: the output to show for a constant;
* `commentLines`: a text as comment lines.
-/

namespace HeaderConstants
set_option autoImplicit false

structure HeaderCopyright where
  fileName : Text
  text : Text
  deriving DecidableEq, Repr

structure ProbeOutput where
  stdout : Text
  stderr : Text
  deriving DecidableEq, Repr

def ProbeOutput.isEmpty (o : ProbeOutput) : Bool := o.stdout.isEmpty && o.stderr.isEmpty

/-- How many constants were confirmed, and the outputs that are not empty, the latest first. -/
structure Report where
  checked : Nat
  outputs : List (Text × ProbeOutput)
  deriving DecidableEq, Repr

namespace Report

def empty : Report := ⟨0, []⟩

def find? (r : Report) (name : Text) : Option ProbeOutput :=
  (r.outputs.find? (fun entry => entry.1 = name)).map Prod.snd

def insert (r : Report) (name : Text) (output : ProbeOutput) : Report :=
  { r with outputs := (name, output) :: r.outputs }

def pass (r : Report) (name : Text) (output : ProbeOutput) : Report :=
  let counted := { r with checked := r.checked + 1 }
  if output.isEmpty then counted else counted.insert name output

end Report

structure Document where
  constants : List Constant
  headers : List HeaderCopyright
  report : Option Report
  verbose : Bool
  deriving DecidableEq, Repr

def Document.probeOutput? (d : Document) (name : Text) : Option ProbeOutput :=
  if d.verbose then d.report.bind (·.find? name) else none

/-- A constant without a value cannot be written. -/
structure Unresolved where
  name : Text
  deriving DecidableEq, Repr

def Unresolved.message (u : Unresolved) : Text :=
  "Must resolve all references before emitting: " ++ u.name ++ " is unresolved"

def Constant.requireValue (c : Constant) : Except Unresolved UInt64 :=
  match c.resolvedValue with
  | some v => .ok v
  | none => .error ⟨c.name⟩

namespace Emit

/-- Lines as a text, each ended by a line feed. -/
def unlines (lines : List Text) : Text := lines.flatMap (· ++ ['\n'])

/-- Each line of a text, trimmed, behind the mark of a comment line. -/
def commentLines (mark text : Text) : List Text :=
  (Text.splitAtFeeds text).map fun line => (mark ++ line.trim).trimEnd

end Emit

end HeaderConstants
