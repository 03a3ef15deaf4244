import HeaderConstants.Script.Regex
import HeaderConstants.Script.Tool

/-!
# Editing lines

The stream editor: commands with addresses run on each line of the operands in turn. A line may be
substituted in, deleted, printed, exchanged or surrounded by other text.

* `Script.Edit.run`: the editor on an argument list.
-/

namespace HeaderConstants.Script
set_option autoImplicit false

namespace Edit

inductive Address where
  | line (n : Nat)
  | last
  | found (e : Regex.Expression)

inductive Reach where
  | all
  | one (a : Address)
  | fromTo (a b : Address)

/-- A piece of a replacement: text, or a group, of which the one of number zero is the match. -/
inductive Filling where
  | text (t : Text)
  | group (n : Nat)
  deriving DecidableEq, Repr

structure Replacement where
  pattern : Regex.Expression
  filling : List Filling
  isGlobal : Bool
  number : Nat
  isPrinted : Bool

inductive Action where
  | substitute (s : Replacement)
  | delete
  | print
  | quit (status : Nat)
  | number
  | exchange (source target : Text)
  | append (t : Text)
  | insert (t : Text)
  | change (t : Text)
  | group
  | groupEnd

structure Order where
  reach : Reach
  isNegated : Bool
  action : Action

/-! ## Reading -/

/-- The text up to a delimiter that no backslash protects, and what follows it. A protected
delimiter loses its backslash. -/
def delimited? (stop : Char) : Bool → Text → Option (Text × Text)
  | _, [] => none
  | _, ['\\'] => none
  | inBracket, '\\' :: c :: rest =>
    (delimited? stop inBracket rest).map fun (t, r) =>
      (if c = stop && c ≠ '\\' then c :: t else '\\' :: c :: t, r)
  | inBracket, c :: rest =>
    if c = stop && !inBracket then some ([], rest)
    else
      let inBracket := if c = '[' then true else if c = ']' then false else inBracket
      (delimited? stop inBracket rest).map fun (t, r) => (c :: t, r)

/-- The replacement up to its delimiter; brackets mean nothing there. -/
def replacement? (stop : Char) : Text → Option (Text × Text)
  | [] => none
  | ['\\'] => none
  | '\\' :: c :: rest =>
    (replacement? stop rest).map fun (t, r) =>
      (if c = stop then c :: t else '\\' :: c :: t, r)
  | c :: rest =>
    if c = stop then some ([], rest) else (replacement? stop rest).map fun (t, r) => (c :: t, r)

def fillings : Text → List Filling
  | [] => []
  | ['\\'] => [.text ['\\']]
  | '\\' :: c :: rest =>
    (if c.isDigit then .group (c.toNat - '0'.toNat)
      else if c = 'n' then .text ['\n']
      else if c = 't' then .text ['\t']
      else .text [c]) :: fillings rest
  | c :: rest => (if c = '&' then .group 0 else .text [c]) :: fillings rest

def address? (extended : Bool) (t : Text) : Option (Address × Text) :=
  match t with
  | '$' :: rest => some (.last, rest)
  | '/' :: rest =>
    (delimited? '/' false rest).map fun (e, r) => (.found (Regex.read extended e), r)
  | c :: _ =>
    if c.isDigit then
      some (.line ((Numeral.read? 10 (t.takeWhile Char.isDigit)).getD 0), t.dropWhile Char.isDigit)
    else none
  | [] => none

def skipBlanks (t : Text) : Text := t.dropWhile fun c => c = ' ' || c = '\t'

def reach? (extended : Bool) (t : Text) : Option (Reach × Text) :=
  match address? extended t with
  | none => some (.all, t)
  | some (a, rest) =>
    match skipBlanks rest with
    | ',' :: rest =>
      (address? extended (skipBlanks rest)).map fun (b, rest) => (.fromTo a b, rest)
    | rest => some (.one a, rest)

/-- The flags after a substitution. -/
def flags (s : Replacement) : Text → Replacement × Text
  | [] => (s, [])
  | c :: rest =>
    if c = 'g' then flags { s with isGlobal := true } rest
    else if c = 'p' then flags { s with isPrinted := true } rest
    else if c.isDigit then flags { s with number := c.toNat - '0'.toNat } rest
    else if c = 'I' ∨ c = 'i' ∨ c = 'm' ∨ c = 'M' then flags s rest
    else (s, c :: rest)

/-- The text of a command that adds lines: after blanks, or on the next line. -/
def addedText (t : Text) : Text × Text :=
  let t := skipBlanks t
  let t :=
    match t with
    | '\\' :: '\n' :: rest => skipBlanks rest
    | '\\' :: rest => rest
    | t => t
  (t.takeWhile (· ≠ '\n'), t.dropWhile (· ≠ '\n'))

def action? (extended : Bool) (t : Text) : Option (Action × Text) :=
  match t with
  | 's' :: stop :: rest => do
    let (pattern, rest) ← delimited? stop false rest
    let (filling, rest) ← replacement? stop rest
    let s : Replacement := ⟨Regex.read extended pattern, fillings filling, false, 1, false⟩
    let (s, rest) := flags s rest
    pure (.substitute s, rest)
  | 'y' :: stop :: rest => do
    let (source, rest) ← replacement? stop rest
    let (target, rest) ← replacement? stop rest
    pure (.exchange source target, rest)
  | 'd' :: rest => some (.delete, rest)
  | 'p' :: rest => some (.print, rest)
  | 'q' :: rest =>
    let rest := skipBlanks rest
    some (.quit ((Numeral.read? 10 (rest.takeWhile Char.isDigit)).getD 0),
      rest.dropWhile Char.isDigit)
  | '=' :: rest => some (.number, rest)
  | 'a' :: rest =>
    let (added, rest) := addedText rest
    some (.append added, rest)
  | 'i' :: rest =>
    let (added, rest) := addedText rest
    some (.insert added, rest)
  | 'c' :: rest =>
    let (added, rest) := addedText rest
    some (.change added, rest)
  | '{' :: rest => some (.group, rest)
  | '}' :: rest => some (.groupEnd, rest)
  | _ => none

def orders? (extended : Bool) : Nat → Text → Option (List Order)
  | 0, _ => none
  | fuel + 1, t =>
    let isGap := fun c : Char => c = ' ' || c = '\t' || c = '\n' || c = ';'
    let t := t.dropWhile isGap
    match t with
    | [] => some []
    | '#' :: rest => orders? extended fuel (rest.dropWhile (· ≠ '\n'))
    | t => do
      let (reach, rest) ← reach? extended t
      let rest := skipBlanks rest
      let isNegated := rest.head? = some '!'
      let (action, rest) ← action? extended (skipBlanks (if isNegated then rest.drop 1 else rest))
      let more ← orders? extended fuel rest
      pure (⟨reach, isNegated, action⟩ :: more)

/-! ## Running -/

def fill (start stop : Regex.Place) (filling : List Filling) : Text :=
  filling.flatMap fun
    | .text t => t
    | .group n => if n = 0 then stop.since start else stop.group n

/-- Substitutes from a place on, where the next match has a number. -/
def substituteFrom (s : Replacement) : Nat → Nat → Regex.Place → Text × Bool
  | 0, _, p => (p.after, false)
  | fuel + 1, n, p =>
    match Regex.find? s.pattern (p.after.length + 1) p with
    | none => (p.after, false)
    | some (start, stop) =>
      let skipped := start.since p
      let isDone := s.number ≤ n
      let put := if isDone then fill start stop s.filling else stop.since start
      if isDone && !s.isGlobal then (skipped ++ put ++ stop.after, true)
      else
        let isEmpty := stop.after.length = start.after.length
        let (passed, p) :=
          if isEmpty then (stop.after.take 1, stop.advance 1) else ([], stop)
        if isEmpty && stop.after.isEmpty then (skipped ++ put, isDone)
        else
          let (t, again) := substituteFrom s fuel (n + 1) p
          (skipped ++ put ++ passed ++ t, isDone || again)

def substitute (s : Replacement) (line : Text) : Text × Bool :=
  substituteFrom s (line.length + 2) 1 (Regex.start line)

/-- The line that is worked on, its number, whether it is the last one, and what is written: before
it, and after it. -/
structure Cycle where
  line : Text
  number : Nat
  isLast : Bool
  before : Text
  after : Text
  isDeleted : Bool
  quits : Option Nat

def Address.holds (c : Cycle) : Address → Bool
  | line n => c.number = n
  | last => c.isLast
  | found e => Regex.occursIn e c.line

/-- Whether an order is for this line, and whether its range goes on. -/
def Reach.holds (c : Cycle) (isInside : Bool) : Reach → Bool × Bool
  | all => (true, false)
  | one a => (a.holds c, false)
  | fromTo a b =>
    if isInside then
      let ends :=
        match b with
        | .line n => n ≤ c.number
        | b => b.holds c
      (true, !ends)
    else if a.holds c then
      let ends :=
        match b with
        | .line n => n ≤ c.number
        | .last => c.isLast
        | .found _ => false
      (true, !ends)
    else (false, false)

def act (action : Action) (c : Cycle) : Cycle :=
  match action with
  | .substitute s =>
    let (line, isDone) := substitute s c.line
    if isDone then
      { c with line := line, before := c.before ++ (if s.isPrinted then line ++ ['\n'] else []) }
    else c
  | .delete => { c with isDeleted := true }
  | .print => { c with before := c.before ++ c.line ++ ['\n'] }
  | .quit status => { c with quits := some status }
  | .number => { c with before := c.before ++ Text.decimal c.number ++ ['\n'] }
  | .exchange source target =>
    { c with line := c.line.map fun d =>
        match source.idxOf? d with
        | some i => (target[i]?).getD d
        | none => d }
  | .append t => { c with after := c.after ++ t ++ ['\n'] }
  | .insert t => { c with before := c.before ++ t ++ ['\n'] }
  | .change t => { c with before := c.before ++ t ++ ['\n'], isDeleted := true }
  | .group | .groupEnd => c

/-- Skips orders to the end of the group that has just been opened. -/
def skipGroup : Nat → List (Order × Bool) → List (Order × Bool) × List (Order × Bool)
  | _, [] => ([], [])
  | depth, (o, isInside) :: more =>
    match o.action, depth with
    | .groupEnd, 0 => ([(o, isInside)], more)
    | .groupEnd, depth + 1 =>
      let (skipped, rest) := skipGroup depth more
      ((o, isInside) :: skipped, rest)
    | .group, depth =>
      let (skipped, rest) := skipGroup (depth + 1) more
      ((o, isInside) :: skipped, rest)
    | _, depth =>
      let (skipped, rest) := skipGroup depth more
      ((o, isInside) :: skipped, rest)

/-- Runs orders on a line; each keeps whether it is inside its range. -/
def runOrders : Nat → List (Order × Bool) → Cycle → List (Order × Bool) × Cycle
  | 0, orders, c => (orders, c)
  | _ + 1, [], c => ([], c)
  | fuel + 1, (o, isInside) :: more, c =>
    if c.isDeleted || c.quits.isSome then ((o, isInside) :: more, c)
    else
      let (holds, isInside) := o.reach.holds c isInside
      let here := holds != o.isNegated
      match o.action with
      | .group =>
        if here then
          let (rest, c) := runOrders fuel more c
          ((o, isInside) :: rest, c)
        else
          let (skipped, after) := skipGroup 0 more
          let (rest, c) := runOrders fuel after c
          ((o, isInside) :: skipped ++ rest, c)
      | action =>
        let (rest, c) := runOrders fuel more (if here then act action c else c)
        ((o, isInside) :: rest, c)

def editLines (isQuiet : Bool) : List (Order × Bool) → Nat → List Text → Text × Nat
  | _, _, [] => ([], 0)
  | orders, n, line :: more =>
    let start : Cycle := ⟨line, n, more.isEmpty, [], [], false, none⟩
    let (orders, c) := runOrders (orders.length + 1) orders start
    let shown := if isQuiet || c.isDeleted then [] else c.line ++ ['\n']
    let t := c.before ++ shown ++ c.after
    match c.quits with
    | some status => (t, status)
    | none =>
      let (rest, status) := editLines isQuiet orders (n + 1) more
      (t ++ rest, status)

/-- The edited form of a text. A last line that is not ended stays so. -/
def edit (isQuiet : Bool) (orders : List Order) (t : Text) : Text × Nat :=
  let (edited, status) := editLines isQuiet (orders.map (·, false)) 1 (linesOf t)
  (if t.getLast?.any (· ≠ '\n') && edited.getLast? = some '\n' then edited.dropLast else edited,
    status)

def shortOption (t : Text) : Text :=
  if t = "--quiet" ∨ t = "--silent" then ['-', 'n']
  else if t = "--regexp-extended" then ['-', 'E']
  else if t = "--in-place" then ['-', 'i']
  else t

def unreadable (path : Text) (e : IoError) : Text :=
  if e = .isDirectory then "couldn't edit " ++ path ++ ": not a regular file"
  else "can't read " ++ pathAndReason path e

def run (r : Tool) (arguments : List Text) : Tool :=
  let arguments := arguments.map shortOption
  r.withOptions "nErsuz" "ef" (arguments.filter fun t => !Text.startsWith t "-i") fun o =>
    let inPlace := arguments.any fun t => Text.startsWith t "-i"
    let (script, paths) :=
      match o.values 'e' with
      | [] => (o.operands.head?.getD [], o.operands.drop 1)
      | scripts => (Text.joined ['\n'] scripts, o.operands)
    match orders? (o.has 'E' || o.has 'r') (script.length + 1) script with
    | none => r.complain "-e expression #1, char 1: unknown command"
    | some orders =>
      if inPlace then
        paths.foldl
          (fun r path =>
            match readRaw r.disk path with
            | .ok content =>
              r.change (fun e => "couldn't open " ++ pathAndReason path e)
                (writeRaw r.disk path (edit (o.has 'n') orders content).1)
            | .error e => r.report 2 (unreadable path e))
          r
      else
        let (sources, r) := r.sources unreadable paths
        let failed := !r.errors.isEmpty
        let (t, status) := edit (o.has 'n') orders (sources.flatMap Prod.snd)
        (r.say t).ended (if failed then 2 else status)

end Edit

end HeaderConstants.Script
