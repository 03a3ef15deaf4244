import HeaderConstants.Numeral.Digits
import HeaderConstants.Script.Glob
import HeaderConstants.Text.Word

/-!
# Patterns for lines

Regular expressions in their basic and extended notation: single characters, classes, repetitions,
groups, alternatives, references to groups, and anchors. A search takes the first place where the
expression matches, and there the repetitions take as much as they can.

* `Script.Regex.read`: the expression of a text;
* `Script.Regex.find?`: the first match in a line.
-/

namespace HeaderConstants.Script
set_option autoImplicit false

namespace Regex

inductive Node where
  | exact (c : Char)
  | any
  | oneOf (members : List Glob.Member)
  | noneOf (members : List Glob.Member)
  | lineStart
  | lineEnd
  | wordStart
  | wordEnd
  | back (group : Nat)
  | group (index : Nat) (branches : List (List Node))
  | repeated (node : Node) (least : Nat) (most : Option Nat)

/-- The branches of an expression. -/
abbrev Expression := List (List Node)

/-! ## Reading -/

def wordMembers : List Glob.Member := [.kind "alnum", .range '_' '_']

/-- The class after its opening bracket; nothing if it is not closed. -/
def bracket? (t : Text) : Option (Node × Text) :=
  let isNegated := t.head? = some '^'
  let signs := (if isNegated then t.drop 1 else t).map (·, false)
  (Glob.members? (t.length + 1) true signs).map fun (ms, rest) =>
    (if isNegated then .noneOf ms else .oneOf ms, Glob.signText rest)

/-- A node behind a backslash that is no operator. -/
def escaped (c : Char) : Node :=
  if c = 'w' then .oneOf wordMembers
  else if c = 'W' then .noneOf wordMembers
  else if c = 's' then .oneOf [.kind "space"]
  else if c = 'S' then .noneOf [.kind "space"]
  else if c = '<' then .wordStart
  else if c = '>' then .wordEnd
  else if c = 'n' then .exact '\n'
  else if c = 't' then .exact '\t'
  else if '1' ≤ c && c ≤ '9' then .back (c.toNat - '0'.toNat)
  else .exact c

def readCount (t : Text) : Option Nat × Text :=
  (Numeral.read? 10 (t.takeWhile Char.isDigit), t.dropWhile Char.isDigit)

/-- The bounds of a repetition after its opening brace, and what follows its closing one. -/
def bounds? (extended : Bool) (t : Text) : Option (Nat × Option Nat × Text) :=
  let (least, rest) := readCount t
  let (most, rest) :=
    match rest with
    | ',' :: rest => readCount rest
    | rest => (least, rest)
  let closer : Text := if extended then "\x7d" else "\\\x7d"
  if Text.startsWith rest closer then some (least.getD 0, most, rest.drop closer.length) else none

/-- The sign of an operator at the start of a text: in the basic notation all but the star have a
backslash. -/
def operator? (extended : Bool) (t : Text) : Option (Char × Text) :=
  let isOperator := fun c : Char =>
    c = '(' || c = ')' || c = '|' || c = '+' || c = '?' || c = '\x7b'
  match t with
  | '*' :: rest => some ('*', rest)
  | '\\' :: c :: rest => if !extended && isOperator c then some (c, rest) else none
  | c :: rest => if extended && isOperator c then some (c, rest) else none
  | [] => none

/-- The repetitions after a node. -/
def repetitions (extended : Bool) : Nat → Node → Text → Node × Text
  | 0, node, t => (node, t)
  | fuel + 1, node, t =>
    match operator? extended t with
    | some ('*', rest) => repetitions extended fuel (.repeated node 0 none) rest
    | some ('+', rest) => repetitions extended fuel (.repeated node 1 none) rest
    | some ('?', rest) => repetitions extended fuel (.repeated node 0 (some 1)) rest
    | some ('\x7b', rest) =>
      match bounds? extended rest with
      | some (least, most, rest) => repetitions extended fuel (.repeated node least most) rest
      | none => (node, t)
    | _ => (node, t)

def endsBranch (extended : Bool) (t : Text) : Bool :=
  match operator? extended t with
  | some (c, _) => c = ')' || c = '|'
  | none => t.isEmpty

mutual

/-- The branches up to a closing parenthesis or the end, with the number of the next group. -/
def branches (extended : Bool) : Nat → Nat → Text → Expression × Nat × Text
  | 0, n, t => ([], n, t)
  | fuel + 1, n, t =>
    let (nodes, n, rest) := sequence extended fuel true n t
    match operator? extended rest with
    | some ('|', rest) =>
      let (more, n, rest) := branches extended fuel n rest
      (nodes :: more, n, rest)
    | _ => ([nodes], n, rest)

def sequence (extended : Bool) : Nat → Bool → Nat → Text → List Node × Nat × Text
  | 0, _, n, t => ([], n, t)
  | fuel + 1, isFirst, n, t =>
    if endsBranch extended t then ([], n, t)
    else
      let (node, n, rest) := atom extended fuel isFirst n t
      let (node, rest) :=
        match node with
        | .lineStart => (node, rest)
        | node => repetitions extended (rest.length + 1) node rest
      let isFirst :=
        match node with
        | .lineStart => true
        | _ => false
      let (more, n, rest) := sequence extended fuel isFirst n rest
      (node :: more, n, rest)

/-- The node at the start of a nonempty text. -/
def atom (extended : Bool) : Nat → Bool → Nat → Text → Node × Nat × Text
  | 0, _, n, t => (.exact ' ', n, t)
  | fuel + 1, isFirst, n, t =>
    match operator? extended t with
    | some ('(', rest) =>
      let (inner, m, rest) := branches extended fuel (n + 1) rest
      let rest :=
        match operator? extended rest with
        | some (')', rest) => rest
        | _ => rest
      (.group n inner, m, rest)
    | _ =>
      match t with
      | '.' :: rest => (.any, n, rest)
      | '[' :: rest =>
        match bracket? rest with
        | some (node, rest) => (node, n, rest)
        | none => (.exact '[', n, rest)
      | '\\' :: c :: rest => (escaped c, n, rest)
      | '^' :: rest => (if extended || isFirst then .lineStart else .exact '^', n, rest)
      | '$' :: rest =>
        (if extended || endsBranch extended rest then .lineEnd else .exact '$', n, rest)
      | c :: rest => (.exact c, n, rest)
      | [] => (.lineEnd, n, [])

end

def read (extended : Bool) (t : Text) : Expression := (branches extended (4 * t.length + 8) 1 t).1

/-- The expression of a text that stands for itself. -/
def literal (t : Text) : Expression := [t.map .exact]

/-! ## Matching -/

/-- A place in a line: the characters before it, the last one first, those after it, and the texts
of the groups that have been passed. -/
structure Place where
  before : Text
  after : Text
  groups : List (Nat × Text)
  deriving DecidableEq, Repr

namespace Place

def group (p : Place) (n : Nat) : Text :=
  ((p.groups.find? fun entry => entry.1 = n).map Prod.snd).getD []

/-- The text from an earlier place up to this one. -/
def since (p : Place) (earlier : Place) : Text :=
  (p.before.take (p.before.length - earlier.before.length)).reverse

def advance (p : Place) (n : Nat) : Place :=
  { p with before := (p.after.take n).reverse ++ p.before, after := p.after.drop n }

def isInWord (t : Text) : Bool := t.head?.any isNameChar

end Place

/-- How many characters a node takes at a place, if it takes a fixed number. -/
def Node.taken? (p : Place) : Node → Option Nat
  | exact c => if p.after.head? = some c then some 1 else none
  | any => if p.after.isEmpty then none else some 1
  | oneOf ms => if p.after.head?.any fun c => ms.any (Glob.Member.accepts c) then some 1 else none
  | noneOf ms => if p.after.head?.any fun c => !ms.any (Glob.Member.accepts c) then some 1 else none
  | lineStart => if p.before.isEmpty then some 0 else none
  | lineEnd => if p.after.isEmpty then some 0 else none
  | wordStart => if !Place.isInWord p.before && Place.isInWord p.after then some 0 else none
  | wordEnd => if Place.isInWord p.before && !Place.isInWord p.after then some 0 else none
  | back n =>
    let t := p.group n
    if Text.startsWith p.after t then some t.length else none
  | group .. => none
  | repeated .. => none

/-- Matches nodes and then what `next` asks for. -/
def run : Nat → List Node → (Place → Option Place) → Place → Option Place
  | 0, _, _, _ => none
  | _ + 1, [], next, p => next p
  | fuel + 1, .group n inner :: more, next, p =>
    inner.findSome? fun nodes =>
      run fuel nodes
        (fun q => run fuel more next { q with groups := (n, q.since p) :: q.groups }) p
  | fuel + 1, .repeated node least most :: more, next, p =>
    let again :=
      if most = some 0 then none
      else
        run fuel [node]
          (fun q =>
            if q.after.length = p.after.length then none
            else run fuel (.repeated node (least - 1) (most.map (· - 1)) :: more) next q) p
    match again with
    | some q => some q
    | none => if least = 0 then run fuel more next p else none
  | fuel + 1, node :: more, next, p =>
    match node.taken? p with
    | some n => run fuel more next (p.advance n)
    | none => none

/-- More steps than a match in lines of the size of scripts takes. -/
def depth (t : Text) : Nat := 64 * (t.length + 16)

/-- The end of a match that starts at a place. -/
def matchAt? (e : Expression) (p : Place) : Option Place :=
  e.findSome? fun nodes => run (depth p.after) nodes some { p with groups := [] }

/-- The first match from a place on: where it starts and where it ends. -/
def find? (e : Expression) : Nat → Place → Option (Place × Place)
  | 0, _ => none
  | fuel + 1, p =>
    match matchAt? e p with
    | some q => some (p, q)
    | none => if p.after.isEmpty then none else find? e fuel (p.advance 1)

def start (t : Text) : Place := ⟨[], t, []⟩

def occursIn (e : Expression) (t : Text) : Bool := (find? e (t.length + 1) (start t)).isSome

end Regex

end HeaderConstants.Script
