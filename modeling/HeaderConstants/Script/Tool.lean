import HeaderConstants.Emit.Document
import HeaderConstants.Host.Disk
import HeaderConstants.Script.Raw

/-!
# Tools

The state of a small program while it runs: the disk, the input that is left, its two outputs and
its status. Options of a tool are letters before or among its operands.

* `Script.Tool.say`, `Script.Tool.complain`: the two outputs;
* `Script.Options.read`: options and operands of an argument list.
-/

namespace HeaderConstants.Script
set_option autoImplicit false

def readRaw (d : Disk) (path : Text) : Except IoError Text := (d.read (ofRaw path)).map raw

def writeRaw (d : Disk) (path content : Text) : Except IoError Disk :=
  d.write (ofRaw path) (rawBytes content)

def nodeAt? (d : Disk) (path : Text) : Option Node :=
  match d.locate (ofRaw path) with
  | .ok (p, onlyDirectory) =>
    (d.node? p).filter fun node => !onlyDirectory || node = .directory
  | .error _ => none

/-- An operating-system message without its number. -/
def reason (e : IoError) : Text :=
  match e with
  | .notFound => "No such file or directory"
  | .permissionDenied => "Permission denied"
  | .notDirectory => "Not a directory"
  | .isDirectory => "Is a directory"
  | .nameTooLong => "File name too long"
  | .noSpace => "No space left on device"
  | .badExecutable => "Exec format error"
  | e => e.message

/-- The lines of a raw text; a last line need not be ended. -/
def linesOf (t : Text) : List Text :=
  match (Text.splitWhere (· == '\n') t).reverse with
  | [] :: more => more.reverse
  | pieces => pieces.reverse

structure Tool where
  name : Text
  disk : Disk
  input : Text
  output : Text
  errors : Text
  status : Nat
  deriving DecidableEq, Repr

namespace Tool

def start (name : Text) (d : Disk) (input : Text) : Tool := ⟨name, d, input, [], [], 0⟩

def say (r : Tool) (t : Text) : Tool := { r with output := r.output ++ t }

def ended (r : Tool) (status : Nat) : Tool := { r with status := status }

def report (r : Tool) (status : Nat) (message : Text) : Tool :=
  { r with status := status, errors := r.errors ++ r.name ++ ": " ++ message ++ "\n" }

def complain (r : Tool) (message : Text) : Tool := r.report 1 message

/-- A complaint about the way the tool was called. -/
def misuse (r : Tool) (status : Nat) (message : Text) : Tool :=
  r.report status (message ++ "\nTry '" ++ r.name ++ " --help' for more information.")

/-- Reads all of the input. -/
def takeInput (r : Tool) : Text × Tool := (r.input, { r with input := [] })

/-- Goes on with the outcome of a change of the disk. -/
def change (r : Tool) (what : IoError → Text) (result : Except IoError Disk) : Tool :=
  match result with
  | .ok disk => { r with disk := disk }
  | .error e => r.complain (what e)

/-- The contents of the operands in turn, or the input if there are none; a file that cannot be read
is reported. -/
def sources (r : Tool) (what : Text → IoError → Text) (paths : List Text) :
    List (Text × Text) × Tool :=
  if paths.isEmpty then
    let (t, r) := r.takeInput
    ([(['-'], t)], r)
  else
    paths.foldl
      (fun (acc : List (Text × Text) × Tool) path =>
        if path = ['-'] || acc.2.disk.stream? (ofRaw path) = some 0 then
          let (t, r) := acc.2.takeInput
          (acc.1 ++ [(path, t)], r)
        else
          match readRaw acc.2.disk path with
          | .ok content => (acc.1 ++ [(path, content)], acc.2)
          | .error e => (acc.1, acc.2.complain (what path e)))
      ([], r)

end Tool

def quoted (t : Text) : Text := '\'' :: t ++ ['\'']

def pathAndReason (path : Text) (e : IoError) : Text := path ++ ": " ++ reason e

/-! ## Options -/

/-- The letters of the options that were given, each with its value, and the operands. -/
structure Options where
  flags : List (Char × Text)
  operands : List Text
  deriving DecidableEq, Repr

namespace Options

def has (o : Options) (c : Char) : Bool := o.flags.any fun flag => flag.1 = c

/-- The last value of an option. -/
def value? (o : Options) (c : Char) : Option Text :=
  (o.flags.reverse.find? fun flag => flag.1 = c).map Prod.snd

def values (o : Options) (c : Char) : List Text :=
  (o.flags.filter fun flag => flag.1 = c).map Prod.snd

def isOption (t : Text) : Bool := t.head? = some '-' && 1 < t.length

/-- Takes the letters of one word. A letter that has a value takes the rest of the word for it, or
the next word. -/
def letters (plain valued : List Char) : Text → List Text →
    Except Text (List (Char × Text) × List Text)
  | [], more => .ok ([], more)
  | c :: rest, more =>
    if valued.contains c then
      if rest.isEmpty then
        match more with
        | value :: more => .ok ([(c, value)], more)
        | [] => .error ("option requires an argument -- " ++ quoted [c])
      else .ok ([(c, rest)], more)
    else if plain.contains c then
      (letters plain valued rest more).map fun (flags, more) => ((c, []) :: flags, more)
    else .error ("invalid option -- " ++ quoted [c])

def readFrom (plain valued : List Char) : Nat → List Text → Except Text Options
  | 0, ts => .ok ⟨[], ts⟩
  | _ + 1, [] => .ok ⟨[], []⟩
  | fuel + 1, t :: more =>
    if t = "--" then .ok ⟨[], more⟩
    else if Text.startsWith t "--" then .error ("unrecognized option " ++ quoted t)
    else if isOption t then do
      let (flags, more) ← letters plain valued (t.drop 1) more
      let o ← readFrom plain valued fuel more
      pure { o with flags := flags ++ o.flags }
    else
      (readFrom plain valued fuel more).map fun o => { o with operands := t :: o.operands }

/-- The options of an argument list, by the letters that stand alone and those that have values. -/
def read (plain valued : Text) (ts : List Text) : Except Text Options :=
  readFrom plain valued (ts.length + 1) ts

end Options

/-- Runs a tool on its options, unless they are malformed. -/
def Tool.withOptions (r : Tool) (plain valued : Text) (arguments : List Text)
    (f : Options → Tool) : Tool :=
  match Options.read plain valued arguments with
  | .ok o => f o
  | .error message => r.misuse 1 message

end HeaderConstants.Script
