import HeaderConstants.Text.Blank
import HeaderConstants.Text.Utf8

/-!
# Disks

A disk is a list of files and directories by their absolute paths, with a working directory for the
paths that are not absolute. Reading and writing fail as an operating system says.

* `Disk.locate`: the place that a path names;
* `Disk.read`, `Disk.readText`, `Disk.write`: whole files;
* `Disk.makeParents`, `Disk.install`: a path with the directories above it;
* `Disk.makeDirectory`, `Disk.removeTree`: directories.
-/

namespace HeaderConstants
set_option autoImplicit false

inductive IoError where
  | notFound
  | permissionDenied
  | notDirectory
  | isDirectory
  | nameTooLong
  | noSpace
  | badExecutable
  | invalidText
  | nulInName
  | nulInCommand
  deriving DecidableEq, Repr

def IoError.message : IoError → Text
  | notFound => "No such file or directory (os error 2)"
  | permissionDenied => "Permission denied (os error 13)"
  | notDirectory => "Not a directory (os error 20)"
  | isDirectory => "Is a directory (os error 21)"
  | nameTooLong => "File name too long (os error 36)"
  | noSpace => "No space left on device (os error 28)"
  | badExecutable => "Exec format error (os error 8)"
  | invalidText => "stream did not contain valid UTF-8"
  | nulInName => "file name contained an unexpected NUL byte"
  | nulInCommand => "nul byte found in provided data"

/-- The parts of an absolute path. -/
abbrev Path := List Text

/-- Devices hold nothing: one takes everything, one has no room for anything, and the others stand
for the streams of whoever opens them. -/
inductive Device where
  | null
  | full
  | stream (number : Nat)
  deriving DecidableEq, Repr

inductive Node where
  | file (content : Bytes) (executable : Bool)
  | directory
  | device (device : Device)
  deriving DecidableEq, Repr

structure Disk where
  nodes : List (Path × Node)
  workingDirectory : Path
  deriving DecidableEq, Repr

namespace Disk

def node? (d : Disk) (p : Path) : Option Node :=
  if p.isEmpty then some .directory
  else (d.nodes.find? (fun entry => entry.1 = p)).map Prod.snd

def put (d : Disk) (p : Path) (n : Node) : Disk :=
  { d with nodes := (p, n) :: d.nodes.filter (fun entry => entry.1 ≠ p) }

/-- The bytes that a name, and a path with the byte that ends it, may have. -/
def longestName : Nat := 255

def longestPath : Nat := 4096

/-- What is at a place. A name that is too long is refused when it is looked up. -/
def lookup (d : Disk) (p : Path) : Except IoError (Option Node) :=
  if longestName < Text.byteLength (p.getLast?.getD []) then .error .nameTooLong
  else .ok (d.node? p)

/-- Follows parts from a directory. A dot stays where it is, but only in a directory. -/
def walk (d : Disk) : Path → List Text → Except IoError Path
  | p, [] => .ok p
  | p, part :: parts =>
    match d.lookup p with
    | .error e => .error e
    | .ok none => .error .notFound
    | .ok (some .directory) =>
      if part = ['.'] then walk d p parts
      else if part = ['.', '.'] then walk d p.dropLast parts
      else walk d (p ++ [part]) parts
    | .ok (some _) => .error .notDirectory

/-- The place that a path names, which need not be taken, and whether only a directory can be
there: the path ends with a slash. -/
def locate (d : Disk) (path : Text) : Except IoError (Path × Bool) :=
  if path.contains '\x00' then .error .nulInName
  else if path.isEmpty then .error .notFound
  else if longestPath ≤ Text.byteLength path then .error .nameTooLong
  else
    let pieces := Text.splitWhere (· == '/') path
    let parts := pieces.filter (fun piece => !piece.isEmpty)
    let start := if path.head? = some '/' then [] else d.workingDirectory
    (d.walk start parts).map (·, (pieces.getLast?.getD []).isEmpty)

def read (d : Disk) (path : Text) : Except IoError Bytes := do
  let (p, onlyDirectory) ← d.locate path
  match ← d.lookup p with
  | none => throw .notFound
  | some .directory => throw .isDirectory
  | some (.device _) => if onlyDirectory then throw .notDirectory else pure []
  | some (.file content _) => if onlyDirectory then throw .notDirectory else pure content

def readText (d : Disk) (path : Text) : Except IoError Text := do
  let content ← d.read path
  match Text.ofBytes? content with
  | some t => pure t
  | none => throw .invalidText

/-- The disk with the content in the place of a file. A path that ends with a slash is refused
before anything is looked up there. -/
def write (d : Disk) (path : Text) (content : Bytes) : Except IoError Disk := do
  let (p, onlyDirectory) ← d.locate path
  if onlyDirectory then throw .isDirectory
  match ← d.lookup p with
  | none => pure (d.put p (.file content false))
  | some .directory => throw .isDirectory
  | some (.device .full) => if content.isEmpty then pure d else throw .noSpace
  | some (.device _) => pure d
  | some (.file _ executable) => pure (d.put p (.file content executable))

/-- The stream that a path stands for. -/
def stream? (d : Disk) (path : Text) : Option Nat :=
  match d.locate path with
  | .ok (p, false) =>
    match d.node? p with
    | some (.device (.stream n)) => some n
    | _ => none
  | _ => none

def makeDirectory (d : Disk) (path : Text) : Disk :=
  match d.locate path with
  | .ok (p, _) => d.put p .directory
  | .error _ => d

/-- The parts of a path that name something, from the root on. -/
def absoluteParts (d : Disk) (path : Text) : Path :=
  let parts := (Text.splitWhere (· == '/') path).filter fun piece =>
    !piece.isEmpty && piece ≠ ['.']
  if path.head? = some '/' then parts else d.workingDirectory ++ parts

/-- The disk with the directories above a path. -/
def makeParents (d : Disk) (path : Text) : Disk :=
  let parts := d.absoluteParts path
  (List.range parts.length).foldl
    (fun d n =>
      let above := parts.take n
      if (d.node? above).isSome then d else d.put above .directory)
    d

/-- The disk with a file, and with the directories above it. -/
def install (d : Disk) (path : Text) (content : Bytes) (executable : Bool) : Disk :=
  (d.makeParents path).put (d.absoluteParts path) (.file content executable)

def removeTree (d : Disk) (path : Text) : Disk :=
  match d.locate path with
  | .ok (p, _) => { d with nodes := d.nodes.filter (fun entry => !p.isPrefixOf entry.1) }
  | .error _ => d

/-- The files directly in a directory. -/
def files (d : Disk) (path : Text) : List (Text × Bytes) :=
  match d.locate path with
  | .ok (p, _) =>
    d.nodes.filterMap fun entry =>
      match entry.2 with
      | .file content _ =>
        if entry.1.dropLast = p then entry.1.getLast?.map (·, content) else none
      | _ => none
  | .error _ => []

def isDirectory (d : Disk) (path : Text) : Bool :=
  match d.locate path with
  | .ok (p, _) => d.node? p = some .directory
  | .error _ => false

/-- A path below another one; an absolute path stands for itself. -/
def join (base path : Text) : Text :=
  if path.head? = some '/' then path else base ++ '/' :: path

end Disk

end HeaderConstants
