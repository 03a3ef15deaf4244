import HeaderConstants.Script.Regex
import HeaderConstants.Script.Tool

/-!
# Tools for numbers

Expressions given as separate words, and sequences of integers.

* `Script.Calculate.run?`: the tool of a name.
-/

namespace HeaderConstants.Script
set_option autoImplicit false

namespace Calculate

def wholeNumber? (t : Text) : Option Int :=
  let isNegative := t.head? = some '-'
  (Numeral.read? 10 (if isNegative then t.drop 1 else t)).map fun n =>
    if isNegative then -(n : Int) else n

/-! ## Expressions -/

inductive Fault where
  | misplaced (message : Text)
  | notANumber
  | divisionByZero
  deriving DecidableEq, Repr

def Fault.message : Fault → Text
  | misplaced t => t
  | notANumber => "non-integer argument"
  | divisionByZero => "division by zero"

def isNull (t : Text) : Bool := t.isEmpty || wholeNumber? t = some 0

def ofBool (b : Bool) : Text := if b then ['1'] else ['0']

def arithmetic (op : Text) (a b : Text) : Except Fault Text :=
  match wholeNumber? a, wholeNumber? b with
  | some i, some j =>
    if op = "+" then .ok (Text.signedDecimal (i + j))
    else if op = "-" then .ok (Text.signedDecimal (i - j))
    else if op = "*" then .ok (Text.signedDecimal (i * j))
    else if j = 0 then .error .divisionByZero
    else if op = "/" then .ok (Text.signedDecimal (i.tdiv j))
    else .ok (Text.signedDecimal (i.tmod j))
  | _, _ => .error .notANumber

def comparison (op : Text) (a b : Text) : Text :=
  let (less, equal) :=
    match wholeNumber? a, wholeNumber? b with
    | some i, some j => (decide (i < j), decide (i = j))
    | _, _ => (Text.precedes a b, decide (a = b))
  ofBool
    (if op = "=" ∨ op = "==" then equal
      else if op = "!=" then !equal
      else if op = "<" then less
      else if op = "<=" then less || equal
      else if op = ">" then !(less || equal)
      else !less)

/-- The first group of a match at the start of a text, or the length of the match. -/
def matched (t pattern : Text) : Text :=
  let e := Regex.read false pattern
  let grouped := (List.range pattern.length).any fun i =>
    Text.startsWith (pattern.drop i) ['\\', '(']
  match Regex.matchAt? e (Regex.start t) with
  | some q => if grouped then q.group 1 else Text.decimal (q.since (Regex.start t)).length
  | none => if grouped then [] else ['0']

def level? (op : Text) : Option Nat :=
  if op = "|" then some 1
  else if op = "&" then some 2
  else if (Text.words "= == != < <= > >=").contains op then some 3
  else if op = "+" ∨ op = "-" then some 4
  else if op = "*" ∨ op = "/" ∨ op = "%" then some 5
  else if op = ":" then some 6
  else none

def apply (op a b : Text) : Except Fault Text :=
  if op = "|" then .ok (if !isNull a then a else if isNull b then ['0'] else b)
  else if op = "&" then .ok (if isNull a || isNull b then ['0'] else a)
  else if op = ":" then .ok (matched a b)
  else if level? op = some 3 then .ok (comparison op a b)
  else arithmetic op a b

/-- The part of a text of some length from a place on; places count from one. -/
def portion (t place length : Text) : Text :=
  match wholeNumber? place, wholeNumber? length with
  | some i, some n => if 0 < i ∧ 0 < n then (t.drop (i.toNat - 1)).take n.toNat else []
  | _, _ => []

/-- The place of the first character of a text that is among others. -/
def placeOf (t signs : Text) : Text :=
  match t.findIdx? signs.contains with
  | some i => Text.decimal (i + 1)
  | none => ['0']

/-- The words that stand before their operands: how many operands they have, and what they make. -/
def keyword? (t : Text) : Option (Nat × (List Text → Text)) :=
  if t = "length" then some (1, fun ts => Text.decimal (ts.head?.getD []).length)
  else if t = "match" then
    some (2, fun ts => matched (ts.head?.getD []) (((ts.drop 1).head?).getD []))
  else if t = "index" then
    some (2, fun ts => placeOf (ts.head?.getD []) (((ts.drop 1).head?).getD []))
  else if t = "substr" then
    some (3, fun ts =>
      portion (ts.head?.getD []) (((ts.drop 1).head?).getD []) (((ts.drop 2).head?).getD []))
  else none

def missing (before : Text) : Fault :=
  .misplaced ("syntax error: missing argument after " ++ quoted before)

def unexpected (t : Text) : Fault :=
  .misplaced ("syntax error: unexpected argument " ++ quoted t)

mutual

/-- An expression whose operators bind at least so tightly; `before` is the word before it. -/
def binary : Nat → Nat → Text → List Text → Except Fault (Text × List Text)
  | 0, _, before, _ => .error (missing before)
  | fuel + 1, least, before, ts => do
    let (first, rest) ← primary fuel before ts
    binaryFrom fuel least first rest

def binaryFrom : Nat → Nat → Text → List Text → Except Fault (Text × List Text)
  | 0, _, first, ts => .ok (first, ts)
  | fuel + 1, least, first, ts =>
    match ts with
    | op :: rest =>
      match level? op with
      | some level =>
        if least ≤ level then do
          let (second, rest) ← binary fuel (level + 1) op rest
          let t ← apply op first second
          binaryFrom fuel least t rest
        else .ok (first, ts)
      | none => .ok (first, ts)
    | [] => .ok (first, ts)

def primary : Nat → Text → List Text → Except Fault (Text × List Text)
  | 0, before, _ => .error (missing before)
  | fuel + 1, before, ts =>
    match ts with
    | [] => .error (missing before)
    | ['('] :: rest => do
      let (t, rest) ← binary fuel 1 ['('] rest
      match rest with
      | [')'] :: rest => pure (t, rest)
      | [] => .error (.misplaced ("syntax error: expecting ')' after " ++ quoted t))
      | u :: _ => .error (.misplaced ("syntax error: expecting ')' instead of " ++ quoted u))
    | [')'] :: _ => .error (.misplaced "syntax error: unexpected ')'")
    | ['+'] :: t :: rest => .ok (t, rest)
    | ['+'] :: [] => .error (missing ['+'])
    | t :: rest =>
      match keyword? t with
      | none => .ok (t, rest)
      | some (n, make) => do
        let (operands, rest) ← primaries fuel n t rest
        pure (make operands, rest)

def primaries : Nat → Nat → Text → List Text → Except Fault (List Text × List Text)
  | 0, _, before, _ => .error (missing before)
  | _ + 1, 0, _, ts => .ok ([], ts)
  | fuel + 1, n + 1, before, ts => do
    let (t, rest) ← primary fuel before ts
    let (more, rest) ← primaries fuel n t rest
    pure (t :: more, rest)

end

def expression (r : Tool) (arguments : List Text) : Tool :=
  let arguments := if arguments.head? = some "--" then arguments.drop 1 else arguments
  if arguments.isEmpty then r.misuse 2 "missing operand"
  else
    match binary (8 * arguments.length + 8) 1 [] arguments with
    | .error fault => r.report 2 fault.message
    | .ok (t, []) => (r.say (t ++ ['\n'])).ended (if isNull t then 1 else 0)
    | .ok (_, t :: _) => r.report 2 (unexpected t).message

/-! ## Sequences -/

/-- How a sequence is written: what stands between numbers, and whether all have one width. -/
structure Style where
  separator : Text
  isEven : Bool
  deriving DecidableEq, Repr

/-- A number with zeros in front of its digits up to a width. -/
def widened (width : Nat) (t : Text) : Text :=
  match t with
  | '-' :: digits => '-' :: (List.replicate (width - t.length) '0' ++ digits)
  | digits => List.replicate (width - t.length) '0' ++ digits

def sequence (style : Style) (first step last : Int) : Text :=
  let count := if 0 < step then (last - first) / step + 1 else (first - last) / (-step) + 1
  let numbers := (List.range count.toNat).map fun (i : Nat) =>
    Text.signedDecimal (first + step * (i : Int))
  let width := (numbers.map List.length).foldl max 0
  let numbers := if style.isEven then numbers.map (widened width) else numbers
  if numbers.isEmpty then [] else Text.joined style.separator numbers ++ ['\n']

/-- The options of a sequence and its operands. -/
def sequenceOptions : Nat → List Text → Style → Style × List Text
  | 0, ts, style => (style, ts)
  | _ + 1, [], style => (style, [])
  | fuel + 1, t :: more, style =>
    match t with
    | ['-', 'w'] => sequenceOptions fuel more { style with isEven := true }
    | ['-', 's'] =>
      sequenceOptions fuel (more.drop 1) { style with separator := more.head?.getD [] }
    | '-' :: 's' :: separator => sequenceOptions fuel more { style with separator := separator }
    | _ => (style, t :: more)

def runSequence (r : Tool) (arguments : List Text) : Tool :=
  let (style, operands) := sequenceOptions arguments.length arguments ⟨['\n'], false⟩
  let bad := operands.find? fun t => (wholeNumber? t).isNone
  if 3 < operands.length then
    r.misuse 1 ("extra operand " ++ quoted ((operands[3]?).getD []))
  else
    match bad, operands.filterMap wholeNumber? with
    | some t, _ => r.misuse 1 ("invalid floating point argument: " ++ quoted t)
    | none, [last] => r.say (sequence style 1 1 last)
    | none, [first, last] => r.say (sequence style first 1 last)
    | none, [first, step, last] =>
      if step = 0 then
        r.misuse 1 ("invalid Zero increment value: " ++ quoted ((operands[1]?).getD []))
      else r.say (sequence style first step last)
    | none, _ => r.misuse 1 "missing operand"

def run? (name : Text) (r : Tool) (arguments : List Text) : Option Tool :=
  if name = "expr" then some (expression r arguments)
  else if name = "seq" then some (runSequence r arguments)
  else none

def names : List Text := ["expr", "seq"]

end Calculate

end HeaderConstants.Script
