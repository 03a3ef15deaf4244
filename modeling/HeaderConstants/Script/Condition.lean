import HeaderConstants.Script.Arithmetic

/-!
# Conditions

The words of a `test` command: comparisons of texts and of integers, questions about one text or
one file, negation, conjunction, disjunction and brackets. Up to three words are read by their
number, so that a text that looks like an operator can be compared.

* `Script.Condition.holds`: the truth of a condition, or why it has none.
-/

namespace HeaderConstants.Script
set_option autoImplicit false

namespace Condition

inductive Role where
  | operand
  | unary
  | binary
  | not
  | and
  | or
  | opening
  | closing
  | missing
  deriving DecidableEq, Repr

def unaryOperators : List Text :=
  Text.words "-r -w -x -e -f -d -c -b -p -u -g -k -s -t -z -n -h -O -G -L -S"

def binaryOperators : List Text :=
  Text.words "= != < > -eq -ne -ge -gt -le -lt -nt -ot -ef"

def operatorRole? (t : Text) : Option Role :=
  if unaryOperators.contains t then some .unary
  else if binaryOperators.contains t then some .binary
  else if t = "!" then some .not
  else if t = "-a" then some .and
  else if t = "-o" then some .or
  else if t = "(" then some .opening
  else if t = ")" then some .closing
  else none

def isBinary (t : Text) : Bool := binaryOperators.contains t

/-- The role of the first word, which depends on those after it. -/
def role : List Text → Role
  | [] => .missing
  | t :: more =>
    match operatorRole? t with
    | none => .operand
    | some .unary =>
      match more with
      | [] => .operand
      | [_] => .unary
      | next :: _ => if isBinary next then .operand else .unary
    | some .opening => if more.isEmpty then .operand else .opening
    | some r => r

/-- The value of a decimal numeral between blanks. -/
def number (t : Text) : Except Text Int :=
  let body := t.trim
  let digits := if body.head? = some '-' || body.head? = some '+' then body.drop 1 else body
  match Numeral.read? 10 digits with
  | some n => .ok (if body.head? = some '-' then -(n : Int) else n)
  | none => .error ("Illegal number: " ++ t)

def compareTexts? (op a b : Text) : Option Bool :=
  if op = "=" then some (a = b)
  else if op = "!=" then some (a ≠ b)
  else if op = "<" then some (Text.precedes a b)
  else if op = ">" then some (Text.precedes b a)
  else none

def compareNumbers (op : Text) (i j : Int) : Bool :=
  if op = "-eq" then i = j
  else if op = "-ne" then i ≠ j
  else if op = "-lt" then i < j
  else if op = "-le" then i ≤ j
  else if op = "-gt" then j < i
  else j ≤ i

def binaryHolds (op a b : Text) : Except Text Bool :=
  match compareTexts? op a b with
  | some truth => .ok truth
  | none =>
    if op = "-nt" ∨ op = "-ot" then .ok false
    else if op = "-ef" then .ok (a = b)
    else do
      let i ← number a
      let j ← number b
      pure (compareNumbers op i j)

def unaryHolds (file : Char → Text → Bool) (op a : Text) : Except Text Bool :=
  match op with
  | ['-', 'n'] => .ok (!a.isEmpty)
  | ['-', 'z'] => .ok a.isEmpty
  | ['-', 't'] => (number a).map fun _ => false
  | ['-', c] => .ok (file c a)
  | _ => .ok false

mutual

/-- The truth of alternatives at the start of words, and the words that are left. -/
def alternatives (file : Char → Text → Bool) : Nat → Bool → List Text →
    Except Text (Bool × List Text)
  | 0, _, ts => .ok (false, ts)
  | fuel + 1, isOperand, ts => do
    let (a, rest) ← conjunction file fuel isOperand ts
    if role rest = .or then
      let (b, rest) ← alternatives file fuel false (rest.drop 1)
      pure (a || b, rest)
    else pure (a, rest)

def conjunction (file : Char → Text → Bool) : Nat → Bool → List Text →
    Except Text (Bool × List Text)
  | 0, _, ts => .ok (false, ts)
  | fuel + 1, isOperand, ts => do
    let (a, rest) ← negation file fuel isOperand ts
    if role rest = .and then
      let (b, rest) ← conjunction file fuel false (rest.drop 1)
      pure (a && b, rest)
    else pure (a, rest)

def negation (file : Char → Text → Bool) : Nat → Bool → List Text →
    Except Text (Bool × List Text)
  | 0, _, ts => .ok (false, ts)
  | fuel + 1, isOperand, ts =>
    if !isOperand && role ts = .not then
      (negation file fuel false (ts.drop 1)).map fun (a, rest) => (!a, rest)
    else primary file fuel isOperand ts

def primary (file : Char → Text → Bool) : Nat → Bool → List Text →
    Except Text (Bool × List Text)
  | 0, _, ts => .ok (false, ts)
  | fuel + 1, isOperand, ts =>
    match ts with
    | [] => .ok (false, [])
    | t :: rest =>
      let r := if isOperand then .operand else role ts
      if r = .opening then
        if role rest = .closing then .ok (false, rest.drop 1)
        else do
          let (a, rest) ← alternatives file fuel false rest
          if role rest = .closing then pure (a, rest.drop 1) else .error "closing paren expected"
      else if r = .unary then
        match rest with
        | [] => .error (t ++ ": argument expected")
        | a :: rest => (unaryHolds file t a).map (·, rest)
      else
        match rest with
        | op :: more =>
          if role rest = .binary then
            match more with
            | [] => .error (op ++ ": argument expected")
            | b :: rest => (binaryHolds op t b).map (·, rest)
          else .ok (!t.isEmpty, rest)
        | [] => .ok (!t.isEmpty, [])

end

/-- The truth of all words, which have to be used up. -/
def whole (file : Char → Text → Bool) (isOperand : Bool) (ts : List Text) :
    Except Text Bool := do
  let (a, rest) ← alternatives file (4 * ts.length + 8) isOperand ts
  if rest.isEmpty then pure a
  else
    let last := (ts[ts.length - rest.length - 1]?).getD []
    if last.isEmpty then .error "unexpected operator" else .error (last ++ ": unexpected operator")

/-- The truth of a condition, or the message of its fault. -/
def holdsFrom (file : Char → Text → Bool) : Nat → List Text → Except Text Bool
  | 0, ts => whole file false ts
  | fuel + 1, ts =>
    match ts with
    | [] => .ok false
    | [a, op, b] =>
      if isBinary op then whole file true ts
      else if a = "(" ∧ b = ")" then whole file false [op]
      else if a = "!" then (holdsFrom file fuel [op, b]).map (!·)
      else whole file false ts
    | [a, b, c, d] =>
      if a = "(" ∧ d = ")" then whole file false [b, c]
      else if a = "!" then (holdsFrom file fuel [b, c, d]).map (!·)
      else whole file false ts
    | ts => whole file false ts

def holds (file : Char → Text → Bool) (ts : List Text) : Except Text Bool := holdsFrom file 4 ts

end Condition

end HeaderConstants.Script
