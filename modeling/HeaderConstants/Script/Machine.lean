import HeaderConstants.Script.Command
import HeaderConstants.Script.Field
import HeaderConstants.Script.Program

/-!
# The machine that runs a script

Parameters, functions and settings, the status of the last command, the disk, and where its
descriptors lead: to texts that are read, to texts that are collected, or to files. The flow says
whether the machine goes on with the next command or leaves what surrounds it. The machine is a part
of the outer layer (`Script.Host`): no theorem is about its states.

* `Script.Machine.emit`: writes to where a descriptor leads;
* `Script.Machine.parameter?`: the value of a parameter;
* `Script.Machine.complain`, `Script.Machine.fail`: messages with the name and line of the script.
-/

namespace HeaderConstants.Script
set_option autoImplicit false

/-- Where a descriptor leads. -/
inductive Channel where
  | input (index : Nat)
  | output (index : Nat)
  | file (path : Path)
  | closed
  deriving DecidableEq, Repr

/-- How a command ends: normally, or leaving what surrounds it. -/
inductive Flow where
  | next
  | exit
  | return
  | break (levels : Nat)
  | continue (levels : Nat)
  | killed (signal : Nat)
  deriving DecidableEq, Repr

/-- What a name holds; a name without a value may still be marked. -/
structure Binding where
  value : Option Text
  isExported : Bool
  isFixed : Bool
  deriving DecidableEq, Repr

structure Machine where
  disk : Disk
  name : Text
  arguments : List Text
  bindings : List (Text × Binding)
  functions : List (Text × Code)
  traps : List (Nat × Text)
  settings : List Char
  status : Nat
  /-- The status of the last command whose output was put into a word. -/
  substituted : Nat
  line : Nat
  /-- The built-in command on whose behalf the machine runs; its messages start with it. -/
  within : Text
  channels : List (Nat × Channel)
  inputs : List Text
  outputs : List Text
  /-- What the names held that the running functions have made their own. -/
  locals : List (List (Text × Option Binding))
  loops : Nat
  /-- The statuses of the commands that were run in the background. -/
  jobs : List Nat
  /-- The place in the word of options that is being read. -/
  optionPlace : Nat
  flow : Flow

namespace Machine

/-- Where programs are looked for, as long as nothing else is said. -/
def usualDirectories : Text := "/usr/local/sbin:/usr/local/bin:/usr/sbin:/usr/bin:/sbin:/bin"

def start (d : Disk) (name : Text) (arguments : List Text) : Machine where
  disk := d
  name := name
  arguments := arguments
  bindings := [("PATH", ⟨some usualDirectories, true, false⟩)]
  functions := []
  traps := []
  settings := []
  status := 0
  substituted := 0
  line := 1
  within := []
  channels := [(0, .input 0), (1, .output 0), (2, .output 1)]
  inputs := [[]]
  outputs := [[], []]
  locals := []
  loops := 0
  jobs := []
  optionPlace := 0
  flow := .next

def goesOn (m : Machine) : Bool := m.flow = .next

def ended (m : Machine) (status : Nat) : Machine := { m with status := status }

def leaving (m : Machine) (flow : Flow) : Machine := { m with flow := flow }

def has (m : Machine) (setting : Char) : Bool := m.settings.contains setting

/-! ## Channels -/

def update {α : Type} (f : α → α) : Nat → List α → List α
  | _, [] => []
  | 0, a :: more => f a :: more
  | i + 1, a :: more => a :: update f i more

def channel (m : Machine) (descriptor : Nat) : Channel :=
  ((m.channels.find? fun entry => entry.1 = descriptor).map Prod.snd).getD .closed

def isOpen (m : Machine) (descriptor : Nat) : Bool := m.channel descriptor ≠ .closed

def setChannel (m : Machine) (descriptor : Nat) (c : Channel) : Machine :=
  { m with
    channels := (descriptor, c) :: m.channels.filter fun entry => entry.1 ≠ descriptor }

/-- Adds to a file that may have gone. -/
def appendTo (d : Disk) (p : Path) (t : Text) : Disk :=
  match d.node? p with
  | some (.file content executable) => d.put p (.file (content ++ rawBytes t) executable)
  | _ => d

def emit (m : Machine) (descriptor : Nat) (t : Text) : Machine :=
  match m.channel descriptor with
  | .output i => { m with outputs := update (· ++ t) i m.outputs }
  | .file p => { m with disk := appendTo m.disk p t }
  | .input _ | .closed => m

/-- What is left to read from a descriptor. -/
def unread (m : Machine) (descriptor : Nat) : Text :=
  match m.channel descriptor with
  | .input i => (m.inputs[i]?).getD []
  | _ => []

def leave (m : Machine) (descriptor : Nat) (rest : Text) : Machine :=
  match m.channel descriptor with
  | .input i => { m with inputs := update (fun _ => rest) i m.inputs }
  | _ => m

/-- A channel that reads a text. -/
def openInput (m : Machine) (t : Text) : Machine × Channel :=
  ({ m with inputs := m.inputs ++ [t] }, .input m.inputs.length)

/-- A channel that collects what is written to it. -/
def openOutput (m : Machine) : Machine × Nat :=
  ({ m with outputs := m.outputs ++ [[]] }, m.outputs.length)

def collected (m : Machine) (i : Nat) : Text := (m.outputs[i]?).getD []

/-! ## Messages -/

def complain (m : Machine) (message : Text) : Machine :=
  let within : Text := if m.within.isEmpty then [] else m.within ++ ": "
  m.emit 2 (m.name ++ ": " ++ Text.decimal m.line ++ ": " ++ within ++ message ++ "\n")

/-- Ends the script after a message. -/
def fail (m : Machine) (message : Text) : Machine :=
  ((m.complain message).ended 2).leaving .exit

def syntaxFault (m : Machine) (fault : Fault) : Machine :=
  { ({ m with line := fault.line }.fail ("Syntax error: " ++ fault.message)) with
    line := m.line }

/-- Runs something on behalf of a built-in command. -/
def onBehalf (m : Machine) (command : Text) (run : Machine → Machine) : Machine :=
  { run { m with within := command } with within := m.within }

/-! ## Parameters -/

def binding? (m : Machine) (name : Text) : Option Binding :=
  (m.bindings.find? fun entry => entry.1 = name).map Prod.snd

def lookup? (m : Machine) (name : Text) : Option Text := (m.binding? name).bind Binding.value

def setBinding (m : Machine) (name : Text) (b : Option Binding) : Machine :=
  let others := m.bindings.filter fun entry => entry.1 ≠ name
  { m with
    bindings :=
      match b with
      | some b => (name, b) :: others
      | none => others }

def isFixed (m : Machine) (name : Text) : Bool := (m.binding? name).any Binding.isFixed

/-- Gives a name a value, unless it is fixed. -/
def assign (m : Machine) (name value : Text) : Machine :=
  let b := (m.binding? name).getD ⟨none, false, false⟩
  if b.isFixed then m.fail (name ++ ": is read only")
  else
    let m := if name = "OPTIND" then { m with optionPlace := 0 } else m
    m.setBinding name (some { b with value := some value, isExported := b.isExported || m.has 'a' })

def processNumber : Nat := 1000

/-- The value of a parameter other than the list of all arguments. -/
def parameter? (m : Machine) (name : Text) : Option Text :=
  if name = ['#'] then some (Text.decimal m.arguments.length)
  else if name = ['?'] then some (Text.decimal m.status)
  else if name = ['$'] then some (Text.decimal processNumber)
  else if name = ['!'] then
    if m.jobs.isEmpty then none else some (Text.decimal (processNumber + m.jobs.length))
  else if name = ['-'] then some ("efnxvCau".toList.filter m.has)
  else
    match Numeral.read? 10 name with
    | some 0 => some m.name
    | some n => m.arguments[n - 1]?
    | none =>
      if name = "PWD" then some ((m.lookup? name).getD (FileTool.workingPath m.disk))
      else m.lookup? name

/-- The path of the file that is run by a name; nothing if there is none that can be run. -/
def programPath? (m : Machine) (name : Text) : Option Text :=
  let canRun := fun path : Text =>
    Program.fileTest m.disk 'x' path && !Program.fileTest m.disk 'd' path
  let places := Text.splitWhere (· == ':') ((m.lookup? "PATH").getD usualDirectories)
  let paths :=
    if name.contains '/' then [name]
    else places.map fun place => if place.isEmpty then name else place ++ '/' :: name
  paths.find? canRun

/-- The characters that fields are cut at. -/
def separators (m : Machine) : Text := (m.lookup? "IFS").getD [' ', '\t', '\n']

def isAllArguments (name : Text) : Bool := name = ['@'] || name = ['*']

/-- All arguments, each in a field of its own. -/
def argumentAtoms (isQuoted : Bool) : List Text → List Atom
  | [] => []
  | [t] => Field.ofExpansion isQuoted t
  | t :: u :: more => Field.ofExpansion isQuoted t ++ .border :: argumentAtoms isQuoted (u :: more)

/-- All arguments in one text. -/
def joinedArguments (m : Machine) : Text :=
  Text.joined ((m.separators.head?).toList) m.arguments

def parameterAtoms (m : Machine) (name : Text) (isQuoted : Bool) : List Atom :=
  if name = ['@'] then argumentAtoms isQuoted m.arguments
  else if name = ['*'] then
    if isQuoted then Field.ofExpansion true m.joinedArguments else argumentAtoms false m.arguments
  else Field.ofExpansion isQuoted ((m.parameter? name).getD [])

/-- The value of a parameter as one text, where all arguments count as one that is set if there is
any. -/
def value? (m : Machine) (name : Text) : Option Text :=
  if isAllArguments name then
    if m.arguments.isEmpty then none else some (Text.joined [' '] m.arguments)
  else m.parameter? name

/-- The fields that expanded words make, with the names of files for patterns. -/
def fields (m : Machine) (atoms : List Atom) : List Text :=
  (Field.cut m.separators atoms).flatMap (Field.names m.disk (!m.has 'f'))

end Machine

def withoutEndLines (t : Text) : Text := (t.reverse.dropWhile (· = '\n')).reverse

end HeaderConstants.Script
