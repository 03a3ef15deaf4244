import HeaderConstants.Script.Builtin

/-!
# Running scripts

Commands are run on a machine with a bound on the depth of the run. A bare name is a function, a
built-in command or a program, in this order; a name with a slash is a file of the disk. Scripts are
run in the outer layer only (`Script.Host`), for the programs that a host is asked for.

* `Script.execute`: a command;
* `Script.runText`: a script, one complete command after the other;
* `Script.runFile`: a file of the disk as a program of its own.
-/

namespace HeaderConstants.Script
set_option autoImplicit false

namespace Machine

/-- A machine for commands that change nothing but the disk and the channels of this one. -/
def inner (m : Machine) : Machine :=
  { m with traps := m.traps.filter fun entry => entry.2.isEmpty }

/-- The machine after commands on its inner one. -/
def rejoin (m ran : Machine) : Machine :=
  { m with
    disk := { ran.disk with workingDirectory := m.disk.workingDirectory }
    inputs := ran.inputs
    outputs := ran.outputs
    status := ran.status % 256
    flow :=
      match ran.flow with
      | .killed n => .killed n
      | _ => m.flow }

/-- A machine for a script of its own, which knows what has been exported. -/
def child (m : Machine) (name : Text) (arguments : List Text) (settings : List Char) : Machine :=
  { m.inner with
    name := name
    arguments := arguments
    bindings := (m.bindings.filter fun entry => entry.2.isExported).map
      fun entry => (entry.1, { entry.2 with isFixed := false })
    functions := []
    settings := settings
    status := 0
    line := 1
    within := []
    locals := []
    loops := 0
    jobs := []
    optionPlace := 0 }

/-- What a script sees of a program that a signal has ended: a status, and a message. -/
def settled (m : Machine) : Machine :=
  match m.flow with
  | .killed n =>
    let m := ({ m with flow := .next }).ended (128 + n)
    if Signal.isQuiet n then m else m.emit 2 (Signal.description n ++ ['\n'])
  | _ => m

/-- Stops a run after a failure if the script asked for that. -/
def checked (isTested : Bool) (m : Machine) : Machine :=
  if m.goesOn && m.has 'e' && !isTested && m.status ≠ 0 then m.leaving .exit else m

/-- Whether a loop goes on after its body, and the machine behind the body. -/
def afterBody (m : Machine) : Bool × Machine :=
  match m.flow with
  | .next => (true, m)
  | .break n => (false, m.leaving (if n ≤ 1 then .next else .break (n - 1)))
  | .continue n =>
    if n ≤ 1 then (true, m.leaving .next) else (false, m.leaving (.continue (n - 1)))
  | _ => (false, m)

/-- Ends a function: its own names hold again what they held before. -/
def afterCall (m ran : Machine) : Machine :=
  let frame := ran.locals.head?.getD []
  let ran := frame.foldl (fun m (name, b) => m.setBinding name b) ran
  { ran with
    arguments := m.arguments
    locals := m.locals
    loops := m.loops
    flow := if ran.flow = .return then .next else ran.flow }

/-- Takes over what a tool did. -/
def take (m : Machine) (r : Tool) : Machine :=
  let m := ({ m with disk := r.disk }).leave 0 r.input
  ((m.emit 1 r.output).emit 2 r.errors).ended r.status

/-! ## Redirections -/

def openReason (missing : Text) (e : IoError) : Text :=
  if e = .notFound ∨ e = .notDirectory then missing else reason e

/-- Opens a file to be written, whose content may be kept. -/
def openFile (m : Machine) (descriptor : Nat) (path : Text) (keep : Bool) :
    Except Text Machine :=
  let content := if keep then (readRaw m.disk path).toOption.getD [] else []
  match m.disk.stream? (ofRaw path) with
  | some n => .ok (m.setChannel descriptor (m.channel n))
  | none =>
    match writeRaw m.disk path content, m.disk.locate (ofRaw path) with
    | .ok disk, .ok (p, _) => .ok (({ m with disk := disk }).setChannel descriptor (.file p))
    | .error e, _ | _, .error e =>
      .error ("cannot create " ++ path ++ ": " ++ openReason "Directory nonexistent" e)

/-- Opens a file to be read. -/
def openContent (m : Machine) (descriptor : Nat) (path : Text) : Except IoError Machine :=
  match m.disk.stream? (ofRaw path), readRaw m.disk path with
  | some n, _ => .ok (m.setChannel descriptor (m.channel n))
  | none, .ok content =>
    let (m, c) := m.openInput content
    .ok (m.setChannel descriptor c)
  | none, .error .isDirectory =>
    let (m, c) := m.openInput []
    .ok (m.setChannel descriptor c)
  | none, .error e => .error e

/-- Opens what a redirection with an expanded target names. -/
def redirect (m : Machine) (r : Redirect) (target : Text) : Except Text Machine :=
  match r.kind with
  | .write =>
    if m.has 'C' && Program.fileTest m.disk 'f' target then
      .error ("cannot create " ++ target ++ ": File exists")
    else m.openFile r.descriptor target false
  | .replace => m.openFile r.descriptor target false
  | .append => m.openFile r.descriptor target true
  | .read | .both =>
    match m.openContent r.descriptor target with
    | .ok m => .ok m
    | .error e =>
      if r.kind = .both then m.openFile r.descriptor target true
      else .error ("cannot open " ++ target ++ ": " ++ openReason "No such file" e)
  | .document =>
    let (m, c) := m.openInput target
    .ok (m.setChannel r.descriptor c)
  | .duplicate =>
    if target = ['-'] then .ok (m.setChannel r.descriptor .closed)
    else
      match target with
      | [c] =>
        let n := c.toNat - '0'.toNat
        if !c.isDigit then .ok (m.syntaxFault ⟨m.line + 1, "Bad fd number"⟩)
        else if m.isOpen n then .ok (m.setChannel r.descriptor (m.channel n))
        else .error (target ++ ": Bad file descriptor")
      | _ => .ok (m.syntaxFault ⟨m.line + 1, "Bad fd number"⟩)

end Machine

/-! ## Interpreters -/

/-- The program that the first line of a file names, and its argument. -/
def interpreterLine? (content : Text) : Option (Text × List Text) :=
  match content with
  | '#' :: '!' :: rest =>
    let isGap := fun c : Char => c = ' ' || c = '\t'
    let line := (rest.takeWhile (· ≠ '\n')).dropWhile isGap
    let program := line.takeWhile fun c => !isGap c
    let argument := (((line.drop program.length).dropWhile isGap).reverse.dropWhile isGap).reverse
    if program.isEmpty then none
    else some (program, if argument.isEmpty then [] else [argument])
  | _ => none

/-- How a shell is asked to run: its settings, the text of a command or the input instead of a file,
and its operands. -/
structure Invocation where
  settings : List Char
  readsText : Bool
  readsInput : Bool
  operands : List Text
  deriving DecidableEq, Repr

namespace Invocation

def letters : Text → Invocation → Except Text Invocation
  | [], i => .ok i
  | c :: rest, i =>
    if c = 'c' then letters rest { i with readsText := true }
    else if c = 's' then letters rest { i with readsInput := true }
    else if Builtin.isSetting c then letters rest { i with settings := c :: i.settings }
    else .error (Builtin.illegalOption ['-', c])

def readFrom : Nat → List Text → Invocation → Except Text Invocation
  | 0, _, i => .ok i
  | _ + 1, [], i => .ok i
  | fuel + 1, t :: more, i =>
    if t = "--" ∨ t = "-" then .ok { i with operands := more }
    else if t = "-o" then
      readFrom fuel (more.drop 1)
        { i with settings := ((more.head?.bind Builtin.settingOf?).toList) ++ i.settings }
    else
      match t with
      | '-' :: '-' :: _ => .error (Builtin.illegalOption ['-', '-'])
      | '-' :: cs => do
        let i ← letters cs i
        readFrom fuel more i
      | _ => .ok { i with operands := t :: more }

def read (arguments : List Text) : Except Text Invocation :=
  readFrom (arguments.length + 1) arguments ⟨[], false, false, []⟩

end Invocation

/-- The words of an `env`: names that are given values, and the command. -/
def environmentWords (arguments : List Text) : List Text × List Text :=
  let isAssignment := fun t : Text => t.contains '=' && t.head? ≠ some '='
  let isOption := fun t : Text => t = "-i" || t = "-" || t = "--"
  let arguments := arguments.dropWhile isOption
  (arguments.takeWhile isAssignment, arguments.dropWhile isAssignment)

/-- How many functions may call each other. -/
def callDepth : Nat := 1000

def isDeclaration (name : Text) : Bool :=
  name = "export" || name = "readonly" || name = "local"

/-! ## Evaluation -/

mutual

def expandPiece : Nat → Machine → Piece → List Atom × Machine
  | 0, m, _ => ([], m)
  | fuel + 1, m, piece =>
    if !m.goesOn then ([], m)
    else
      let unsetFails := fun name =>
        m.has 'u' && (m.value? name).isNone && !Machine.isAllArguments name
      match piece with
      | .plain t => (Field.ofText .literal t, m)
      | .quoted t => (Field.ofExpansion true t, m)
      | .malformed => ([], m.fail "Bad substitution")
      | .parameter name isQuoted =>
        if unsetFails name then ([], m.fail (name ++ ": parameter not set"))
        else (m.parameterAtoms name isQuoted, m)
      | .length name isQuoted =>
        if unsetFails name then ([], m.fail (name ++ ": parameter not set"))
        else (Field.ofExpansion isQuoted (Text.decimal ((m.value? name).getD []).length), m)
      | .cut name atEnd longest w isQuoted =>
        if unsetFails name then ([], m.fail (name ++ ": parameter not set"))
        else
          let (atoms, m) := expandWord fuel m w
          let marks := Glob.compile (Field.pattern atoms)
          let t := Glob.cut atEnd longest marks ((m.value? name).getD [])
          (Field.ofExpansion isQuoted t, m)
      | .instead name kind emptyToo w isQuoted =>
        let isSet := (m.value? name).any fun t => !(emptyToo && t.isEmpty)
        let quotes := if isQuoted then [Atom.quotes] else []
        match kind, isSet with
        | .alternate, false => (quotes, m)
        | .default, true | .assign, true | .complain, true => (m.parameterAtoms name isQuoted, m)
        | .default, false | .alternate, true =>
          let (atoms, m) := expandWord fuel m w
          (quotes ++ atoms.map (Field.loosened isQuoted), m)
        | .assign, false =>
          let (atoms, m) := expandWord fuel m w
          let t := Field.wholeText atoms
          (Field.ofExpansion isQuoted t, if m.goesOn then m.assign name t else m)
        | .complain, false =>
          let (atoms, m) := expandWord fuel m w
          let given := Field.wholeText atoms
          let missing : Text :=
            if emptyToo then "parameter not set or null" else "parameter not set"
          ([], if m.goesOn then m.fail (name ++ ": " ++ (if w.isEmpty then missing else given))
            else m)
      | .command source line isQuoted =>
        let (t, m) := commandText fuel m source line
        (Field.ofExpansion isQuoted t, m)
      | .arithmetic w isQuoted =>
        let (atoms, m) := expandWord fuel m w
        let expression := Field.wholeText atoms
        let holds := fun name => (m.parameter? name).getD []
        match Arithmetic.evaluate holds expression with
        | .error fault => ([], if m.goesOn then m.fail (fault.message expression) else m)
        | .ok (i, assigned) =>
          let m := assigned.reverse.foldl
            (fun m (name, j) => if m.goesOn then m.assign name (Text.signedDecimal j) else m) m
          (Field.ofExpansion isQuoted (Text.signedDecimal i), m)

def expandWord : Nat → Machine → Word → List Atom × Machine
  | 0, m, _ => ([], m)
  | _ + 1, m, [] => ([], m)
  | fuel + 1, m, piece :: pieces =>
    let (atoms, m) := expandPiece fuel m piece
    let (more, m) := expandWord fuel m pieces
    (atoms ++ more, m)

/-- The output of a script in a word, without the line ends at its end. -/
def commandText : Nat → Machine → Text → Nat → Text × Machine
  | 0, m, _, _ => ([], m)
  | fuel + 1, m, source, line =>
    let (opened, index) := m.openOutput
    let ran := runText fuel false line source (opened.inner.setChannel 1 (.output index))
    let ran := finish fuel ran
    let t := withoutEndLines ((ran.collected index).filter (· ≠ '\x00'))
    let after := m.rejoin { ran with outputs := ran.outputs.take index }
    (t, { after with status := m.status, substituted := ran.status % 256 })

/-- The fields of words. After a declaring command, a word that assigns is not cut. -/
def expandFields : Nat → Bool → Machine → List Word → List Text × Machine
  | 0, _, m, _ => ([], m)
  | _ + 1, _, m, [] => ([], m)
  | fuel + 1, declares, m, w :: ws =>
    let (atoms, m) := expandWord fuel m w
    let fields :=
      if declares && (Command.assignment? w).isSome then [Field.wholeText atoms]
      else m.fields atoms
    let (more, m) := expandFields fuel declares m ws
    (fields ++ more, m)

/-- The fields of the words of a command, where the first word may be a declaring command. -/
def commandFields : Nat → Machine → List Word → List Text × Machine
  | 0, m, _ => ([], m)
  | _ + 1, m, [] => ([], m)
  | fuel + 1, m, w :: ws =>
    let (first, m) := expandFields fuel false m [w]
    if first.isEmpty then commandFields fuel m ws
    else
      let (more, m) := expandFields fuel (first.head?.any isDeclaration) m ws
      (first ++ more, m)

/-- Assigns values, and tells them as they are traced. -/
def assignAll : Nat → Bool → Machine → List (Text × Word) → List Text × Machine
  | 0, _, m, _ => ([], m)
  | _ + 1, _, m, [] => ([], m)
  | fuel + 1, exports, m, (name, w) :: more =>
    let (atoms, m) := expandWord fuel m w
    let t := Field.wholeText atoms
    let m := if m.goesOn then m.assign name t else m
    let m :=
      if exports && m.goesOn then
        m.setBinding name ((m.binding? name).map fun b => { b with isExported := true })
      else m
    let (traced, m) := assignAll fuel exports m more
    ((name ++ '=' :: t) :: traced, m)

/-- Opens redirections in turn; a fault is told, and the status says so. -/
def openAll : Nat → Machine → List Redirect → Bool × Machine
  | 0, m, _ => (true, m)
  | _ + 1, m, [] => (true, m)
  | fuel + 1, m, r :: more =>
    let (atoms, m) := expandWord fuel m r.target
    if !m.goesOn then (false, m)
    else
      match m.redirect r (Field.wholeText atoms) with
      | .ok m => if m.goesOn then openAll fuel m more else (false, m)
      | .error message => (false, (m.complain message).ended 2)

/-- The first branch with a pattern that the text matches. -/
def chooseBranch : Nat → Machine → Text → List (List Word × Code) → Code × Machine
  | 0, m, _, _ => (.nothing, m)
  | _ + 1, m, _, [] => (.nothing, m)
  | fuel + 1, m, t, (patterns, body) :: more =>
    match patterns with
    | [] => chooseBranch fuel m t more
    | w :: ws =>
      let (atoms, m) := expandWord fuel m w
      if Glob.accepts (Glob.compile (Field.pattern atoms)) t then (body, m)
      else chooseBranch fuel m t ((ws, body) :: more)

/-- Runs the program of a name, if there is one; `called` is what it was called by. -/
def runNamed : Nat → Machine → Text → Text → List Text → Option Machine
  | 0, _, _, _, _ => none
  | fuel + 1, m, name, called, arguments =>
    if Builtin.interpreters.contains name then some (runShell fuel m called arguments)
    else if name = "env" then
      let (assignments, words) := environmentWords arguments
      let given := assignments.foldl
        (fun m t =>
          let (name, value) := Builtin.assigned t
          m.setBinding name (some ⟨value, true, false⟩)) m
      match words with
      | [] =>
        let exported := given.bindings.filterMap fun (name, b) =>
          if b.isExported then b.value.map fun t => name ++ '=' :: t ++ ['\n'] else none
        some ((m.emit 1 exported.reverse.flatten).ended 0)
      | program :: more =>
        match runExternal fuel given program more with
        | .ok ran => some { ran with bindings := m.bindings }
        | .error e =>
          let status := if e = .notFound then 127 else 126
          some ((m.emit 2 ("env: " ++ quoted program ++ ": " ++ reason e ++ ['\n'])).ended status)
    else (Program.run? name called m.disk (m.unread 0) arguments).map m.take

/-- Runs a program by its name or its path. -/
def runExternal : Nat → Machine → Text → List Text → Except IoError Machine
  | 0, m, _, _ => .ok m
  | fuel + 1, m, name, arguments =>
    if name.contains '/' then runFile fuel m name name arguments
    else
      match m.programPath? name with
      | some path => runFile fuel m path name arguments
      | none => .error .notFound

/-- Runs a file of the disk, or says why it cannot be started. -/
def runFile : Nat → Machine → Text → Text → List Text → Except IoError Machine
  | 0, m, _, _, _ => .ok m
  | fuel + 1, m, path, called, arguments => do
    let (p, onlyDirectory) ← m.disk.locate (ofRaw path)
    match ← m.disk.lookup p with
    | none => throw .notFound
    | some (.file bytes isExecutable) =>
      if onlyDirectory then throw .notDirectory
      else if !isExecutable then throw .permissionDenied
      else
        let content := raw bytes
        match Program.ofContent? content with
        | some name =>
          match runNamed fuel m name called arguments with
          | some ran => pure ran
          | none => throw .notFound
        | none =>
          match interpreterLine? content with
          | none => throw .badExecutable
          | some (program, more) => runFile fuel m program program (more ++ path :: arguments)
    | some _ => throw .permissionDenied

/-- Runs a shell on its arguments. -/
def runShell : Nat → Machine → Text → List Text → Machine
  | 0, m, _, _ => m
  | fuel + 1, m, name, arguments =>
    let refuse := fun message : Text =>
      (m.emit 2 (name ++ ": 0: " ++ message ++ ['\n'])).ended 2
    match Invocation.read arguments with
    | .error message => refuse message
    | .ok i =>
      if i.readsText then
        match i.operands with
        | [] => refuse "-c requires an argument"
        | text :: more => runScript fuel m (more.head?.getD name) (more.drop 1) i.settings text
      else
        match i.operands with
        | path :: more =>
          if i.readsInput then
            runScript fuel (m.leave 0 []) name (path :: more) i.settings (m.unread 0)
          else
            match readRaw m.disk path with
            | .ok content => runScript fuel m path more i.settings content
            | .error e =>
              refuse ("cannot open " ++ path ++ ": " ++ Machine.openReason "No such file" e)
        | [] => runScript fuel (m.leave 0 []) name [] i.settings (m.unread 0)

/-- Runs a script as a program of its own. -/
def runScript : Nat → Machine → Text → List Text → List Char → Text → Machine
  | 0, m, _, _, _, _ => m
  | fuel + 1, m, name, arguments, settings, text =>
    let ran := runText fuel false 1 text (m.child name arguments settings)
    m.rejoin (finish fuel ran)

/-- Runs the complete commands of a text. -/
def runText : Nat → Bool → Nat → Text → Machine → Machine
  | 0, _, _, _, m => m.fail "too deep"
  | fuel + 1, isTested, line, t, m => runLexemes fuel isTested (Lexeme.ofText line t) m

def runLexemes : Nat → Bool → List Lexeme → Machine → Machine
  | 0, _, _, m => m.fail "too long"
  | fuel + 1, isTested, lexemes, m =>
    match nextCommand lexemes with
    | .error fault => m.syntaxFault fault
    | .ok (none, _) => m
    | .ok (some code, rest) =>
      let m := if m.has 'n' then m else execute fuel isTested code m
      if m.goesOn then runLexemes fuel isTested rest m else m

/-- Runs what has to be run when a shell ends. -/
def finish : Nat → Machine → Machine
  | 0, m => m
  | fuel + 1, m =>
    match m.flow, m.traps.find? fun entry => entry.1 = 0 with
    | .killed _, _ | _, none => m
    | _, some (_, action) =>
      let others := m.traps.filter fun entry => entry.1 ≠ 0
      let ran := runText fuel false 1 action { m with traps := others, flow := .next }
      match ran.flow with
      | .exit | .killed _ => ran
      | _ => { ran with status := m.status, flow := .exit }

/-- Runs the actions for signals that have been received. -/
def deliver : Nat → List Nat → Machine → Machine
  | 0, _, m => m
  | _ + 1, [], m => m
  | fuel + 1, n :: more, m =>
    let m := Builtin.receive m n
    match m.goesOn, m.traps.find? fun entry => entry.1 = n with
    | true, some (_, action) =>
      let ran := runText fuel false 1 action m
      deliver fuel more (if ran.goesOn then ran.ended m.status else ran)
    | _, _ => deliver fuel more m

/-- Runs the fields of a simple command. With `isDirect`, functions are passed over and faults of
special commands do not end the script. -/
def runFields : Nat → Bool → Bool → Machine → Text → List Text → Machine
  | 0, _, _, m, _, _ => m.fail "too deep"
  | fuel + 1, isTested, isDirect, m, name, arguments =>
    let isSpecial := Command.specialNames.contains name && !isDirect
    let refused := fun (m : Machine) (program : Text) (e : IoError) =>
      let status := if e = .notFound ∨ e = .notDirectory then 127 else 126
      (m.complain (program ++ ": " ++ Machine.openReason "not found" e)).ended status
    let asScript := fun (program : Text) (more : List Text) =>
      let path := (m.programPath? program).getD program
      (readRaw m.disk path).toOption.map (runScript fuel m path more [])
    let external := fun (m : Machine) (program : Text) (more : List Text) =>
      match runExternal fuel m program more with
      | .ok ran => ran
      | .error e =>
        match (if e = IoError.badExecutable then asScript program more else none) with
        | some ran => ran
        | none => refused m program e
    match (if isDirect then none else m.functions.find? fun entry => entry.1 = name) with
    | some (_, body) =>
      if callDepth ≤ m.locals.length then
        m.fail ("Maximum function recursion depth (" ++ Text.decimal callDepth ++ ") reached")
      else
        m.afterCall
          (execute fuel isTested body
            { m with arguments := arguments, locals := [] :: m.locals, loops := 0 })
    | none =>
      if name = "eval" then
        let line := m.line
        let t := Text.joined [' '] arguments
        let ran := (m.ended 0).onBehalf name (runText fuel isTested 1 t)
        let ran := if isDirect && ran.flow = .exit && ran.status = 2 then ran.leaving .next else ran
        { ran with line := line }
      else if name = "exec" then
        match arguments with
        | [] => m.ended 0
        | program :: more =>
          let ran := m.onBehalf name fun m => external m program more
          if ran.goesOn then ran.leaving .exit else ran
      else if name = "command" then
        match arguments with
        | [] => m.ended 0
        | option :: more =>
          if option = "-v" then Builtin.describeAll true m (more.take 1)
          else if option = "-V" then Builtin.describeAll false m (more.take 1)
          else if option = "-p" ∨ option = "--" then
            match more with
            | [] => m.ended 0
            | program :: more => runFields fuel isTested true m program more
          else if option.head? = some '-' && 1 < option.length then
            m.onBehalf name (Builtin.refuse true · (Builtin.illegalOption (option.take 2)))
          else runFields fuel isTested true m option more
      else if name = "." then
        let path := arguments.head?.getD []
        if path.isEmpty then m.ended 0
        else if !path.contains '/' then
          m.onBehalf name (Builtin.refuse isSpecial · (path ++ ": not found"))
        else
          match readRaw m.disk path with
          | .error e =>
            let why := "cannot open " ++ path ++ ": " ++ Machine.openReason "No such file" e
            m.onBehalf name (Builtin.refuse isSpecial · why)
          | .ok content =>
            let line := m.line
            let ran := (m.ended 0).onBehalf path (runText fuel isTested 1 content)
            { ran with
              line := line
              flow := if ran.flow = .return then .next else ran.flow }
      else if name = "kill" then
        let (ran, received) := Builtin.kill { m with within := name } arguments
        deliver fuel received { ran with within := m.within }
      else
        match Builtin.run? isSpecial name m arguments with
        | some m => m
        | none => (external m name arguments).settled

def repeatLoop : Nat → Bool → Code → Code → Bool → Nat → Machine → Machine
  | 0, _, _, _, _, _, m => m.fail "too long"
  | fuel + 1, isTested, condition, body, whileOk, status, m =>
    let (isOn, m) := (execute fuel true condition m).afterBody
    if !isOn then m
    else if (m.status = 0) ≠ whileOk then m.ended status
    else
      let (isOn, m) := (execute fuel isTested body m).afterBody
      if isOn then repeatLoop fuel isTested condition body whileOk m.status m else m

def eachWord : Nat → Bool → Text → List Text → Code → Machine → Machine
  | 0, _, _, _, _, m => m.fail "too long"
  | _ + 1, _, _, [], _, m => m
  | fuel + 1, isTested, name, t :: ts, body, m =>
    let assigned := m.assign name t
    if !assigned.goesOn then assigned
    else
      let (isOn, m) := (execute fuel isTested body assigned).afterBody
      if isOn then eachWord fuel isTested name ts body m else m

/-- Runs the members of a pipeline in turn, each on the output of the one before it. -/
def runPipe : Nat → Bool → Machine → Channel → List Code → Machine
  | 0, _, m, _, _ => m
  | _ + 1, _, m, _, [] => m
  | fuel + 1, isTested, m, source, [code] =>
    m.rejoin (finish fuel (execute fuel isTested code (m.inner.setChannel 0 source)))
  | fuel + 1, isTested, m, source, code :: more =>
    let (opened, index) := m.openOutput
    let ran := finish fuel
      (execute fuel isTested code ((opened.inner.setChannel 0 source).setChannel 1 (.output index)))
    let after := m.rejoin ran
    let (after, next) := after.openInput (ran.collected index)
    if after.goesOn then runPipe fuel isTested after next more else after

/-- Runs a simple command: its words are expanded, then its redirections and its assignments. -/
def runSimple : Nat → Bool → List Word → List (Text × Word) → List Redirect → Machine → Machine
  | 0, _, _, _, _, m => m.fail "too deep"
  | fuel + 1, isTested, words, assignments, redirects, m =>
    let (fields, m) := commandFields fuel { m with substituted := 0 } words
    if !m.goesOn then m
    else
      let name := fields.head?.getD []
      let isSpecial := Command.specialNames.contains name
      let (isOpen, opened) := openAll fuel m redirects
      let restored := fun after : Machine => { after with channels := m.channels }
      if !isOpen then
        let after := restored opened
        if isSpecial && after.goesOn then after.leaving .exit else after
      else
        let isLasting := fields.isEmpty || isSpecial
        let saved := assignments.map fun entry => (entry.1, m.binding? entry.1)
        let (traced, assigned) := assignAll fuel (!isLasting) opened assignments
        if !assigned.goesOn then restored assigned
        else
          let sign := (m.lookup? "PS4").getD ['+', ' ']
          let traceLine := sign ++ Text.joined [' '] (traced ++ fields) ++ ['\n']
          let assigned :=
            if m.has 'x' then
              { (restored assigned).emit 2 traceLine with channels := assigned.channels }
            else assigned
          match fields with
          | [] => restored (assigned.ended assigned.substituted)
          | name :: arguments =>
            let ran := runFields fuel isTested false assigned name arguments
            let ran :=
              if isLasting then ran else saved.foldl (fun m (name, b) => m.setBinding name b) ran
            if name = "exec" && arguments.isEmpty then ran else restored ran

/-- Runs a command. With `isTested`, a failure is looked at by what surrounds the command. -/
def execute : Nat → Bool → Code → Machine → Machine
  | 0, _, _, m => m.fail "too deep"
  | fuel + 1, isTested, code, m =>
    if !m.goesOn then m
    else
      match code with
      | .nothing => m
      | .define name body =>
        let others := m.functions.filter fun entry => entry.1 ≠ name
        ({ m with functions := (name, body) :: others }).ended 0
      | .simple line words assignments redirects =>
        let ran := runSimple fuel isTested words assignments redirects { m with line := line }
        ran.checked isTested
      | .sequence first second =>
        execute fuel isTested second (execute fuel isTested first m)
      | .background code =>
        let (opened, source) := m.openInput []
        let ran := finish fuel (execute fuel isTested code (opened.inner.setChannel 0 source))
        let after := m.rejoin ran
        ({ after with jobs := m.jobs ++ [after.status] }).ended 0
      | .ifOk first second =>
        let m := execute fuel true first m
        if m.goesOn && m.status = 0 then execute fuel isTested second m else m
      | .ifFailed first second =>
        let m := execute fuel true first m
        if m.goesOn && m.status ≠ 0 then execute fuel isTested second m else m
      | .negated code =>
        let m := execute fuel true code m
        if m.goesOn then m.ended (if m.status = 0 then 1 else 0) else m
      | .pipe codes => (runPipe fuel isTested m (m.channel 0) codes).checked isTested
      | .choose condition yes no =>
        let m := execute fuel true condition m
        if !m.goesOn then m
        else if m.status = 0 then execute fuel isTested yes m
        else execute fuel isTested no (m.ended 0)
      | .loop condition body whileOk =>
        let ran := repeatLoop fuel isTested condition body whileOk 0 { m with loops := m.loops + 1 }
        { ran with loops := m.loops }
      | .each line name words body =>
        let (fields, m) := expandFields fuel false { m with line := line } words
        let ran :=
          eachWord fuel isTested name fields body { m with loops := m.loops + 1, status := 0 }
        if m.goesOn then { ran with loops := m.loops } else m
      | .select line subject branches =>
        let (atoms, m) := expandWord fuel { m with line := line } subject
        let (body, m) := chooseBranch fuel m (Field.wholeText atoms) branches
        execute fuel isTested body (m.ended 0)
      | .subshell line body redirects =>
        let (isOpen, opened) := openAll fuel { m with line := line }.inner redirects
        let ran := if isOpen then finish fuel (execute fuel isTested body opened) else opened
        (m.rejoin ran).checked isTested
      | .redirected line body redirects =>
        let (isOpen, opened) := openAll fuel { m with line := line } redirects
        let ran := if isOpen then execute fuel isTested body opened else opened
        { ran with channels := m.channels }

end

/-- More steps than any script of the size that hosts are given needs. -/
def runDepth : Nat := 20000

/-- A program as a host starts it, with the flow that tells how it ended. -/
def runProgram (m : Machine) (program : Text) (arguments : List Text) : Except IoError Machine :=
  if program.isEmpty then .error .notFound
  else runExternal runDepth m program arguments

end HeaderConstants.Script
