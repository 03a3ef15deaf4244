import HeaderConstants.Script.Calculate
import HeaderConstants.Script.Condition
import HeaderConstants.Script.Edit
import HeaderConstants.Script.FileTool
import HeaderConstants.Script.Filter

/-!
# Programs

The programs that scripts and hosts find by their bare names. The file of a program holds its name
after a mark, so that a copy of the file is the same program. The programs stand in for those of an
operating system, in the outer layer that only runs them (`Script.Host`).

* `Script.Program.run?`: the program of a name on its arguments;
* `Script.Program.ofContent?`: the name that a program file holds.
-/

namespace HeaderConstants.Script
set_option autoImplicit false

namespace Program

def mark : Text := ['\x7f', 'E', 'L', 'F']

def content (name : Text) : Text := mark ++ name

def ofContent? (t : Text) : Option Text :=
  if Text.startsWith t mark then some (t.drop mark.length) else none

/-- The answer to a question about a file. -/
def fileTest (d : Disk) (c : Char) (path : Text) : Bool :=
  match nodeAt? d path with
  | none => false
  | some node =>
    match c, node with
    | 'e', _ | 'r', _ | 'w', _ | 'O', _ | 'G', _ => true
    | 'f', .file .. => true
    | 'd', .directory => true
    | 'c', .device _ => true
    | 'x', .file _ executable => executable
    | 'x', .directory => true
    | 's', .file bytes _ => !bytes.isEmpty
    | 's', .directory => true
    | _, _ => false

def test (r : Tool) (arguments : List Text) : Tool :=
  match Condition.holds (fileTest r.disk) arguments with
  | .ok truth => r.ended (if truth then 0 else 1)
  | .error message => r.report 2 message

def bracketed (r : Tool) (arguments : List Text) : Tool :=
  if arguments.getLast? = some [']'] then test r arguments.dropLast else r.report 2 "missing ]"

/-- The options of an `echo` that is a program of its own: escapes count only if asked for. -/
def echoOptions : List Text → Bool × Bool × List Text
  | ('-' :: c :: letters) :: more =>
    if (c :: letters).all fun d => d = 'n' || d = 'e' || d = 'E' then
      let (silent, escapes, rest) := echoOptions more
      (silent || (c :: letters).contains 'n', escapes || (c :: letters).contains 'e', rest)
    else (false, false, ('-' :: c :: letters) :: more)
  | arguments => (false, false, arguments)

def echo (r : Tool) (arguments : List Text) : Tool :=
  let (silent, escapes, rest) := echoOptions arguments
  let t := Text.joined [' '] rest
  let (t, stop) := if escapes then unescaped (t.length + 1) t else (t, false)
  r.say (if silent || stop then t else t ++ ['\n'])

def printf (r : Tool) (arguments : List Text) : Tool :=
  match (if arguments.head? = some "--" then arguments.drop 1 else arguments) with
  | [] => r.misuse 1 "missing operand"
  | format :: more =>
    let s := Printf.formatted format more
    (s.complaints.foldl Tool.complain (r.say s.output)).ended
      (if s.complaints.isEmpty then 0 else 1)

/-- Whether a text is a span of time, a number that may have a unit. -/
def isSpan (t : Text) : Bool :=
  let digits := t.takeWhile fun c => c.isDigit || c = '.'
  let unit := t.drop digits.length
  digits.any Char.isDigit && (unit.isEmpty || ["s", "m", "h", "d"].any (unit = String.toList ·))

/-- Time passes without anything else to see. -/
def sleep (r : Tool) (arguments : List Text) : Tool :=
  match arguments, arguments.find? fun t => !isSpan t with
  | [], _ => r.misuse 1 "missing operand"
  | _, some t => r.misuse 1 ("invalid time interval " ++ quoted t)
  | _, none => r

def basicNames : List Text := Text.words "true false echo printf test [ sleep sync sed"

def runBasic? (name : Text) (r : Tool) (arguments : List Text) : Option Tool :=
  if name = "true" ∨ name = "sync" then some r
  else if name = "false" then some (r.ended 1)
  else if name = "sleep" then some (sleep r arguments)
  else if name = "echo" then some (echo r arguments)
  else if name = "printf" then some (printf r arguments)
  else if name = "test" then some (test r arguments)
  else if name = "[" then some (bracketed r arguments)
  else if name = "sed" then some (Edit.run r arguments)
  else none

def names : List Text :=
  basicNames ++ FileTool.names ++ Filter.names ++ Calculate.names

/-- Runs the program of a name; `called` is what it was called by, which starts its messages. -/
def run? (name called : Text) (d : Disk) (input : Text) (arguments : List Text) : Option Tool :=
  let r := Tool.start called d input
  (((runBasic? name r arguments).or (FileTool.run? name r arguments)).or
    (Filter.run? name r arguments)).or (Calculate.run? name r arguments)

end Program

end HeaderConstants.Script
