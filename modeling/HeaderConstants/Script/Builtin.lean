import HeaderConstants.Script.Machine
import HeaderConstants.Script.Signal

/-!
# Built-in commands

The commands that a machine carries out itself and that run no other code: output and tests,
parameters and settings, control of the flow, input, directories, options and signals. A fault in a
special command ends the script; after one in another command the script goes on.

* `Script.Builtin.run?`: the built-in command of a name.
-/

namespace HeaderConstants.Script
set_option autoImplicit false

namespace Builtin

/-- A fault in the way a command was called. -/
def refuse (isSpecial : Bool) (m : Machine) (message : Text) : Machine :=
  let m := (m.complain message).ended 2
  if isSpecial then m.leaving .exit else m

def number? (t : Text) : Option Nat := Numeral.read? 10 t

def illegalNumber (t : Text) : Text := "Illegal number: " ++ t

def illegalOption (t : Text) : Text := "Illegal option " ++ t

/-! ## Output and tests -/

def printf (m : Machine) (arguments : List Text) : Machine :=
  let refuse := refuse false m
  let isOption := fun t : Text => t.head? = some '-' && 1 < t.length && t ≠ "--"
  match (if arguments.head? = some "--" then arguments.drop 1 else arguments) with
  | [] => refuse "usage: printf format [arg ...]"
  | format :: more =>
    if isOption format && arguments.head? ≠ some "--" then
      refuse (illegalOption (format.take 2))
    else
      let s := Printf.formatted format more
      (s.complaints.foldl Machine.complain (m.emit 1 s.output)).ended s.status

def test (m : Machine) (arguments : List Text) : Machine :=
  match Condition.holds (Program.fileTest m.disk) arguments with
  | .ok truth => m.ended (if truth then 0 else 1)
  | .error message => refuse false m message

def bracketed (m : Machine) (arguments : List Text) : Machine :=
  if arguments.getLast? = some [']'] then test m arguments.dropLast
  else refuse false m "missing ]"

/-! ## Flow -/

def leave (isSpecial : Bool) (flow : Flow) (m : Machine) (arguments : List Text) :
    Machine :=
  match arguments with
  | [] => m.leaving flow
  | t :: _ =>
    match number? t with
    | some n => (m.ended n).leaving flow
    | none => refuse isSpecial m (illegalNumber t)

def leaveLoop (isSpecial : Bool) (flow : Nat → Flow) (m : Machine)
    (arguments : List Text) : Machine :=
  let given := (arguments.head?.getD ['1'])
  match number? given with
  | none | some 0 => refuse isSpecial m (illegalNumber given)
  | some n =>
    if m.loops = 0 then m.ended 0 else (m.ended 0).leaving (flow (min n m.loops))

/-! ## Parameters and settings -/

def shift (isSpecial : Bool) (m : Machine) (arguments : List Text) : Machine :=
  let given := (arguments.head?.getD ['1'])
  match number? given with
  | none => refuse isSpecial m (illegalNumber given)
  | some n =>
    if n ≤ m.arguments.length then ({ m with arguments := m.arguments.drop n }).ended 0
    else refuse isSpecial m "can't shift that many"

def longSettings : List (Text × Char) :=
  [("errexit", 'e'), ("noglob", 'f'), ("noexec", 'n'), ("nounset", 'u'), ("xtrace", 'x'),
    ("verbose", 'v'), ("allexport", 'a'), ("noclobber", 'C')]

def settingOf? (name : Text) : Option Char :=
  (longSettings.find? fun entry => entry.1 = name).map Prod.snd

def isSetting (c : Char) : Bool := "aefnuvxCbmEIVips".toList.contains c

def turn (isOn : Bool) (c : Char) (m : Machine) : Machine :=
  let others := m.settings.filter (· ≠ c)
  { m with settings := if isOn then c :: others else others }

/-- A value as a word that gives it back. -/
def quotedValue (t : Text) : Text :=
  '\'' :: (t.flatMap fun c => if c = '\'' then "'\"'\"'" else [c]) ++ ['\'']

def set (isSpecial : Bool) : Nat → Machine → List Text → Machine
  | 0, m, _ => m
  | _ + 1, m, [] => m.ended 0
  | fuel + 1, m, t :: more =>
    if t = "--" then { m with arguments := more, status := 0 }
    else if t = "-o" ∨ t = "+o" then
      match more with
      | name :: more =>
        match settingOf? name with
        | some c => set isSpecial fuel (turn (t = "-o") c m) more
        | none => refuse isSpecial m (illegalOption (t ++ ' ' :: name))
      | [] => m.ended 0
    else
      match t with
      | c :: letters =>
        if c ≠ '-' && c ≠ '+' then { m with arguments := t :: more, status := 0 }
        else
          match letters.find? fun letter => !isSetting letter with
          | some letter => refuse isSpecial m (illegalOption [c, letter])
          | none =>
            set isSpecial fuel (letters.foldl (fun m letter => turn (c = '-') letter m) m) more
      | [] => { m with arguments := t :: more, status := 0 }

/-- Tells the names that something holds of, after a word, with their values. -/
def listBindings (word : Text) (isTold : Binding → Bool) (m : Machine) : Machine :=
  let told := m.bindings.filter fun entry => isTold entry.2
  let sorted := told.mergeSort fun a b => !Text.precedes b.1 a.1
  let line := fun (name : Text) (b : Binding) =>
    match b.value with
    | some t => word ++ name ++ '=' :: quotedValue t ++ ['\n']
    | none => if word.isEmpty then [] else word ++ name ++ ['\n']
  (m.emit 1 (sorted.flatMap fun (name, b) => line name b)).ended 0

/-- The name and the value, if there is one, of an argument that assigns. -/
def assigned (t : Text) : Text × Option Text :=
  match t.dropWhile (· ≠ '=') with
  | _ :: value => (t.takeWhile (· ≠ '='), some value)
  | [] => (t, none)

/-- Marks names, and gives them values. -/
def declare (isSpecial : Bool) (mark : Binding → Binding) (m : Machine)
    (arguments : List Text) : Machine :=
  (arguments.filter fun t => t.head? ≠ some '-').foldl
    (fun m t =>
      if !m.goesOn then m
      else
        let (name, value) := assigned t
        if !Word.isName name then refuse isSpecial m (name ++ ": bad variable name")
        else
          let m :=
            match value with
            | some value => m.assign name value
            | none => m
          if m.goesOn then
            m.setBinding name (some (mark ((m.binding? name).getD ⟨none, false, false⟩)))
          else m)
    (m.ended 0)

/-- Makes names a running function's own. -/
def makeLocal (m : Machine) (arguments : List Text) : Machine :=
  match m.locals with
  | [] => refuse true m "not in a function"
  | frame :: frames =>
    let names := arguments.map fun t => (assigned t).1
    let fresh := names.filter fun name => !frame.any fun entry => entry.1 = name
    let kept := fresh.map fun name => (name, m.binding? name)
    declare true id { m with locals := (kept ++ frame) :: frames } arguments

def unsetOne (isSpecial isFunction : Bool) (m : Machine) (name : Text) : Machine :=
  if !m.goesOn then m
  else if isFunction then
    { m with functions := m.functions.filter fun entry => entry.1 ≠ name }
  else if m.isFixed name then refuse isSpecial m (name ++ ": is read only")
  else m.setBinding name none

def unset (isSpecial : Bool) (m : Machine) (arguments : List Text) : Machine :=
  match arguments with
  | ['-', 'f'] :: names => names.foldl (unsetOne isSpecial true) (m.ended 0)
  | ['-', 'v'] :: names | ['-', '-'] :: names =>
    names.foldl (unsetOne isSpecial false) (m.ended 0)
  | ('-' :: c :: _) :: _ => refuse isSpecial m (illegalOption ['-', c])
  | names => names.foldl (unsetOne isSpecial false) (m.ended 0)

/-! ## Input -/

/-- A line of input, each character with the knowledge of whether a backslash stood before it,
what follows, and whether the line was ended. -/
def inputLine (isPlain : Bool) : Text → List (Char × Bool) × Text × Bool
  | [] => ([], [], false)
  | [c] =>
    if c = '\n' then ([], [], true)
    else if c = '\\' && !isPlain then ([], [], false)
    else ([(c, false)], [], false)
  | c :: d :: rest =>
    if c = '\n' then ([], d :: rest, true)
    else if c = '\\' && !isPlain then
      let (line, after, isEnded) := inputLine isPlain rest
      (if d = '\n' then line else (d, true) :: line, after, isEnded)
    else
      let (line, after, isEnded) := inputLine isPlain (d :: rest)
      ((c, false) :: line, after, isEnded)

/-- Cuts the values of so many names from a line; the last one takes the rest. -/
def inputFields (separators : Text) : Nat → List (Char × Bool) → List Text
  | 0, _ => []
  | 1, line =>
    let isBlank := fun sign : Char × Bool =>
      separators.contains sign.1 && Field.State.isBlankSeparator sign.1 && !sign.2
    [((line.reverse.dropWhile isBlank).reverse).map Prod.fst]
  | n + 2, line =>
    let isSeparator := fun sign : Char × Bool => separators.contains sign.1 && !sign.2
    let isBlank := fun sign : Char × Bool =>
      isSeparator sign && Field.State.isBlankSeparator sign.1
    let isBar := fun sign : Char × Bool =>
      isSeparator sign && !Field.State.isBlankSeparator sign.1
    let field := line.takeWhile fun sign => !isSeparator sign
    let rest := (line.drop field.length).dropWhile isBlank
    let rest := if rest.head?.any isBar then (rest.drop 1).dropWhile isBlank else rest
    field.map Prod.fst :: inputFields separators (n + 1) rest

/-- Reads a line and gives its fields to names. -/
def readNames (isPlain : Bool) (m : Machine) (names : List Text) : Machine :=
  let (line, rest, isEnded) := inputLine isPlain (m.unread 0)
  let separators := m.separators
  let isBlank := fun sign : Char × Bool =>
    separators.contains sign.1 && Field.State.isBlankSeparator sign.1 && !sign.2
  let values := inputFields separators names.length (line.dropWhile isBlank)
  let m := (m.leave 0 rest).ended (if isEnded then 0 else 1)
  (names.zip values).foldl
    (fun m (name, value) => if m.goesOn then m.assign name value else m) m

def read (m : Machine) (arguments : List Text) : Machine :=
  match Options.read "r" "p" arguments with
  | .error _ => refuse false m (illegalOption ((arguments.head?.getD []).take 2))
  | .ok o =>
    match o.operands, o.operands.find? fun name => !Word.isName name with
    | [], _ => refuse false m "arg count"
    | _, some name => refuse false m (name ++ ": bad variable name")
    | names, none => if m.isOpen 0 then readNames (o.has 'r') m names else m.ended 1

/-! ## Options of scripts -/

/-- The place in the options: the number of the next word, and the place in the word before it. -/
def optionNumber (m : Machine) : Nat := ((m.lookup? "OPTIND").bind number?).getD 1

/-- Keeps the outcome of one reading of options. -/
def keepOption (m : Machine) (name found : Text) (argument : Option Text)
    (index place status : Nat) : Machine :=
  let plain := fun t : Text => some (Binding.mk (some t) false false)
  let m := m.setBinding "OPTIND" (plain (Text.decimal index))
  let m := m.setBinding "OPTARG" (argument.bind plain)
  ({ m.assign name found with optionPlace := place }).ended status

def readOption (m : Machine) (arguments : List Text) : Machine :=
  match arguments with
  | optionLetters :: name :: given =>
    let words := if given.isEmpty then m.arguments else given
    let index := optionNumber m
    let isStart := m.optionPlace = 0
    let word := (words[if isStart then index - 1 else index - 2]?).getD []
    let isSilent := optionLetters.head? = some ':'
    if isStart && (word.head? ≠ some '-' || word.length < 2) then
      keepOption m name ['?'] none index 0 1
    else if isStart && word = "--" then keepOption m name ['?'] none (index + 1) 0 1
    else
      let place := if isStart then 1 else m.optionPlace
      let index := if isStart then index + 1 else index
      let c := (word[place]?).getD '?'
      let rest := word.drop (place + 1)
      let nextPlace := if rest.isEmpty then 0 else place + 1
      match optionLetters.dropWhile (· ≠ c) with
      | _ :: after =>
        if c = ':' then keepOption m name ['?'] none index nextPlace 0
        else if after.head? = some ':' then
          if !rest.isEmpty then keepOption m name [c] (some rest) index 0 0
          else
            match words[index - 1]? with
            | some value => keepOption m name [c] (some value) (index + 1) 0 0
            | none =>
              if isSilent then keepOption m name [':'] (some [c]) index 0 0
              else
                keepOption (m.emit 2 ("No arg for -" ++ c :: " option\n".toList)) name ['?'] none
                  index 0 0
        else keepOption m name [c] (some []) index nextPlace 0
      | [] =>
        if isSilent then keepOption m name ['?'] (some [c]) index nextPlace 0
        else
          keepOption (m.emit 2 ("Illegal option -" ++ [c, '\n'])) name ['?'] none index nextPlace 0
  | _ => refuse false m "Usage: getopts optstring var [arg...]"

/-! ## Directories -/

def changeDirectory (m : Machine) (arguments : List Text) : Machine :=
  let arguments := if arguments.head? = some "--" then arguments.drop 1 else arguments
  let target :=
    match arguments with
    | ['-'] :: _ => (m.lookup? "OLDPWD").getD []
    | path :: _ => path
    | [] => (m.lookup? "HOME").getD []
  let before := FileTool.workingPath m.disk
  let refuse := refuse false m ("can't cd to " ++ target)
  if target.isEmpty then m.ended 0
  else
    match m.disk.locate (ofRaw target) with
    | .error _ => refuse
    | .ok (p, _) =>
      if m.disk.node? p = some .directory then
        let m := { m with disk := { m.disk with workingDirectory := p } }
        let m := m.setBinding "OLDPWD" (some ⟨some before, false, false⟩)
        let m :=
          if arguments.head? = some ['-'] then
            m.emit 1 (FileTool.workingPath m.disk ++ ['\n'])
          else m
        m.ended 0
      else refuse

/-! ## Signals -/

def killUsage : Text :=
  "Usage: kill [-s sigspec | -signum | -sigspec] [pid | job]... or\nkill -l [exitstatus]"

/-- The signal that the options of a `kill` ask for, and the processes. -/
def killOptions (arguments : List Text) : Except Text (Nat × List Text) :=
  match arguments with
  | ('-' :: t) :: more =>
    match Signal.read? t with
    | some n => .ok (n, more)
    | none =>
      match t with
      | ['-'] => .ok (15, more)
      | 's' :: name =>
        let (name, more) :=
          if name.isEmpty then (more.head?.getD [], more.drop 1) else (name, more)
        if name.isEmpty then .error "No arg for -s option"
        else
          match Signal.read? name with
          | some n => .ok (n, if more.head? = some "--" then more.drop 1 else more)
          | none => .error ("invalid signal number or name: " ++ name)
      | c :: _ => .error (illegalOption ['-', c])
      | [] => .ok (15, arguments)
  | processes => .ok (15, processes)

/-- Tells the names of all signals, or of one that is given by its number or by the status of a
process that it has ended. -/
def listSignals (m : Machine) (arguments : List Text) : Machine :=
  match arguments with
  | [] => (m.emit 1 (Emit.unlines Signal.names)).ended 0
  | t :: _ =>
    match number? t with
    | none => refuse false m (illegalNumber t)
    | some n =>
      let n' := if 128 < n then n - 128 else n
      if 0 < n' && n' < Signal.bound then (m.emit 1 (Signal.name n' ++ ['\n'])).ended 0
      else refuse false m ("invalid signal number or exit status: " ++ t)

/-- Takes a signal: it may be trapped, passed over, or end the machine. -/
def receive (m : Machine) (n : Nat) : Machine :=
  if Signal.isHarmless n then m
  else
    match m.traps.find? fun entry => entry.1 = n with
    | some _ => if n = 9 then m.leaving (.killed n) else m
    | none => m.leaving (.killed n)

/-- The signals that a `kill` sends to this process, and the machine after it. -/
def kill (m : Machine) (arguments : List Text) : Machine × List Nat :=
  let refuse := fun message => (refuse false m message, [])
  let isList := arguments.head? = some ['-', 'l']
  match killOptions arguments with
  | .error message => if isList then (listSignals m (arguments.drop 1), []) else refuse message
  | .ok (_, []) => refuse killUsage
  | .ok (n, processes) =>
    let digits := fun t : Text => if t.head? = some '-' then t.drop 1 else t
    match processes.find? fun t => (number? (digits t)).isNone with
    | some t => refuse (illegalNumber (digits t))
    | none =>
      let self := Text.decimal Machine.processNumber
      let isKnown := fun t : Text =>
        t = self || t = ['0'] || ((number? t).any fun pid =>
          Machine.processNumber < pid && pid ≤ Machine.processNumber + m.jobs.length)
      let unknown := processes.filter fun t => !isKnown t
      let m := unknown.foldl (fun m _ => m.complain "No such process\n") m
      let hits := processes.filter fun t => t = self || t = ['0']
      (m.ended (if unknown.isEmpty then 0 else 1), if hits.isEmpty then [] else [n])

/-- The number of a condition that a `trap` can name. -/
def trapNumber? (t : Text) : Option Nat :=
  if t.asciiLower = "exit" then some 0 else Signal.read? t

def listTraps (m : Machine) : Machine :=
  let sorted := m.traps.mergeSort fun a b => a.1 ≤ b.1
  let told := sorted.flatMap fun (n, action) =>
    let name : Text := if n = 0 then "EXIT" else Signal.name n
    "trap -- " ++ quotedValue action ++ ' ' :: name ++ ['\n']
  (m.emit 1 told).ended 0

def trap (m : Machine) (arguments : List Text) : Machine :=
  let arguments := if arguments.head? = some "--" then arguments.drop 1 else arguments
  let resets :=
    match arguments with
    | [_] => true
    | t :: _ => t = ['-'] || (number? t).isSome
    | [] => false
  let names :=
    match arguments with
    | t :: more => if resets && (t ≠ ['-']) then t :: more else more
    | [] => []
  let action := arguments.head?.getD []
  names.foldl
    (fun m t =>
      match trapNumber? t with
      | none => (m.emit 2 ("trap: " ++ t ++ ": bad trap\n")).ended 1
      | some n =>
        let others := m.traps.filter fun entry => entry.1 ≠ n
        { m with traps := if resets then others else (n, action) :: others })
    (m.ended 0)

def wait (m : Machine) (arguments : List Text) : Machine :=
  match arguments.getLast? with
  | none => m.ended 0
  | some t =>
    match number? t with
    | none => refuse false m (illegalNumber t)
    | some pid =>
      if pid ≤ Machine.processNumber then m.ended 127
      else m.ended ((m.jobs[pid - Machine.processNumber - 1]?).getD 127)

/-! ## Names of commands -/

def plainNames : List Text :=
  Text.words
    "alias bg cd command echo false fg getopts hash jobs kill printf pwd read test [ true type
      ulimit umask unalias wait"

def interpreters : List Text := Text.words "sh bash dash ash"

/-- Tells what a name stands for, in short or at length. -/
def describe (isShort : Bool) (m : Machine) (name : Text) : Machine :=
  let tell := fun short long : Text =>
    m.emit 1 (if isShort then short ++ ['\n'] else name ++ ' ' :: long ++ ['\n'])
  if Command.keywords.contains name then tell name "is a shell keyword"
  else if m.functions.any fun entry => entry.1 = name then tell name "is a shell function"
  else if Command.specialNames.contains name then tell name "is a special shell builtin"
  else if plainNames.contains name then tell name "is a shell builtin"
  else
    match m.programPath? name with
    | some path => tell path ("is " ++ path)
    | none =>
      (if isShort then m else m.emit 1 (name ++ ": not found\n")).ended 127

def describeAll (isShort : Bool) (m : Machine) (names : List Text) : Machine :=
  names.foldl (describe isShort) (m.ended 0)

/-! ## All built-in commands -/

/-- Commands that change nothing a script can see. -/
def quietNames : List Text := Text.words "alias unalias bg fg hash jobs ulimit"

def runWithin? (isSpecial : Bool) (name : Text) (m : Machine) (arguments : List Text) :
    Option Machine :=
  let isQuestion := arguments.isEmpty || arguments.head? = some "-p"
  if name = ":" ∨ name = "true" then some (m.ended 0)
  else if name = "false" then some (m.ended 1)
  else if (name = "echo" ∨ name = "printf") && !m.isOpen 1 then
    some ((m.complain (name ++ ": I/O error")).ended 1)
  else if name = "echo" then some ((m.emit 1 (echoed arguments)).ended 0)
  else if name = "printf" then some (printf m arguments)
  else if name = "test" then some (test m arguments)
  else if name = "[" then some (bracketed m arguments)
  else if name = "exit" then some (leave isSpecial .exit m arguments)
  else if name = "return" then some (leave isSpecial .return m arguments)
  else if name = "break" then some (leaveLoop isSpecial .break m arguments)
  else if name = "continue" then some (leaveLoop isSpecial .continue m arguments)
  else if name = "shift" then some (shift isSpecial m arguments)
  else if name = "set" then
    some (if arguments.isEmpty then listBindings [] (fun _ => true) m
      else set isSpecial (arguments.length + 1) m arguments)
  else if name = "export" then
    some (if isQuestion then listBindings "export " Binding.isExported m
      else declare isSpecial (fun b => { b with isExported := true }) m arguments)
  else if name = "readonly" then
    some (if isQuestion then listBindings "readonly " Binding.isFixed m
      else declare isSpecial (fun b => { b with isFixed := true }) m arguments)
  else if name = "local" then some (makeLocal m arguments)
  else if name = "unset" then some (unset isSpecial m arguments)
  else if name = "read" then some (read m arguments)
  else if name = "getopts" then some (readOption m arguments)
  else if name = "cd" then some (changeDirectory m arguments)
  else if name = "pwd" then some ((m.emit 1 (FileTool.workingPath m.disk ++ ['\n'])).ended 0)
  else if name = "trap" then
    some (if arguments.isEmpty then listTraps m else trap m arguments)
  else if name = "wait" then some (wait m arguments)
  else if name = "type" then some (describeAll false m arguments)
  else if name = "umask" then
    some ((if arguments.isEmpty then m.emit 1 "0022\n" else m).ended 0)
  else if name = "times" then some ((m.emit 1 "0m0.00s 0m0.00s\n0m0.00s 0m0.00s\n").ended 0)
  else if quietNames.contains name then some (m.ended 0)
  else none

/-- The built-in command of a name; one that is special ends the script by its faults. -/
def run? (isSpecial : Bool) (name : Text) (m : Machine) (arguments : List Text) :
    Option Machine :=
  (runWithin? isSpecial name { m with within := name } arguments).map fun ran =>
    { ran with within := m.within }

end Builtin

end HeaderConstants.Script
