import HeaderConstants.Expr.Arithmetic
import HeaderConstants.Numeral.Digits
import HeaderConstants.Text.Blank
import HeaderConstants.Text.Word

/-!
# Arithmetic of scripts

Integers of 64 bits that wrap around, with the operators of integer expressions, the choice and
assignments to names. The value of a name is the numeral that it holds, zero if it holds nothing.

* `Script.Arithmetic.evaluate`: the value of an expression, and the names that it assigns.
-/

namespace HeaderConstants.Script
set_option autoImplicit false

/-- The integer of a numeral in C notation between blanks, if it is one. -/
def integer? (t : Text) : Option Int :=
  let t := t.trim
  let (negative, digits) :=
    match t with
    | '-' :: digits => (true, digits)
    | '+' :: digits => (false, digits)
    | digits => (false, digits)
  let n :=
    match digits with
    | '0' :: 'x' :: digits => Numeral.read? 16 digits
    | '0' :: 'X' :: digits => Numeral.read? 16 digits
    | '0' :: d :: digits => Numeral.read? 8 (d :: digits)
    | digits => Numeral.read? 10 digits
  n.map fun n => if negative then -(n : Int) else n

namespace Arithmetic

open HeaderConstants.Expr

inductive Fault where
  | malformed (expectation : Text)
  | divisionByZero
  | notANumber (t : Text)
  deriving DecidableEq, Repr

/-- The message of a fault in an expression. -/
def Fault.message (expression : Text) : Fault → Text
  | malformed expectation =>
    "arithmetic expression: expecting " ++ expectation ++ (": \"" : Text) ++ expression ++ ['"']
  | divisionByZero => "arithmetic expression: division by zero: \"" ++ expression ++ ['"']
  | notANumber t => "Illegal number: " ++ t

/-! ## Words of 64 bits -/

def wrap (i : Int) : Int := i.bmod wordCount

/-- The largest numbers stand for those beyond them. -/
def saturate (i : Int) : Int := min 0x7FFFFFFFFFFFFFFF (max (-0x8000000000000000) i)

def bitwise (f : BitVec 64 → BitVec 64 → BitVec 64) (x y : Int) : Int :=
  (f (BitVec.ofInt 64 x) (BitVec.ofInt 64 y)).toInt

def applyUnary : UnaryOp → Int → Int
  | .negate, x => wrap (-x)
  | .keep, x => x
  | .complement, x => -x - 1
  | .not, x => ofBool (x = 0)

def applyBinary (op : BinaryOp) (x y : Int) : Except Fault Int :=
  let amount : Nat := (y % 64).toNat
  match op with
  | .or => .ok (ofBool (x ≠ 0 ∨ y ≠ 0))
  | .and => .ok (ofBool (x ≠ 0 ∧ y ≠ 0))
  | .bitOr => .ok (bitwise (· ||| ·) x y)
  | .bitXor => .ok (bitwise (· ^^^ ·) x y)
  | .bitAnd => .ok (bitwise (· &&& ·) x y)
  | .equal => .ok (ofBool (x = y))
  | .notEqual => .ok (ofBool (x ≠ y))
  | .less => .ok (ofBool (x < y))
  | .greater => .ok (ofBool (y < x))
  | .lessEqual => .ok (ofBool (x ≤ y))
  | .greaterEqual => .ok (ofBool (y ≤ x))
  | .shiftLeft => .ok (wrap (x <<< amount))
  | .shiftRight => .ok (x >>> amount)
  | .add => .ok (wrap (x + y))
  | .sub => .ok (wrap (x - y))
  | .mul => .ok (wrap (x * y))
  | .div => if y = 0 then .error .divisionByZero else .ok (wrap (x.tdiv y))
  | .rem => if y = 0 then .error .divisionByZero else .ok (x.tmod y)

/-! ## Tokens -/

inductive Token where
  | number (i : Int)
  | name (t : Text)
  | sign (t : Text)
  deriving DecidableEq, Repr

/-- The signs, each before those that it starts with. -/
def signs : List Text :=
  Text.words
    "<<= >>= << >> <= >= == != && || += -= *= /= %= &= |= ^= < > = & | ^ + - * / % ! ~ ? : ( )"

/-- The digits of the numeral at the start of a text: a base is told by a leading zero. -/
def numeral (t : Text) : Text :=
  let isHexDigit := fun c => (Numeral.digit? 16 c).isSome
  let isOctalDigit := fun c => (Numeral.digit? 8 c).isSome
  match t with
  | '0' :: 'x' :: digits =>
    let run := digits.takeWhile isHexDigit
    if run.isEmpty then ['0'] else '0' :: 'x' :: run
  | '0' :: 'X' :: digits =>
    let run := digits.takeWhile isHexDigit
    if run.isEmpty then ['0'] else '0' :: 'X' :: run
  | '0' :: digits => '0' :: digits.takeWhile isOctalDigit
  | digits => digits.takeWhile Char.isDigit

/-- Tokens up to the first character that starts none, which is a sign of its own. -/
def tokens : Nat → Text → List Token
  | 0, _ => []
  | _ + 1, [] => []
  | fuel + 1, c :: rest =>
    if isBlank c then tokens fuel rest
    else if c.isDigit then
      let digits := numeral (c :: rest)
      .number (saturate ((integer? digits).getD 0)) :: tokens fuel ((c :: rest).drop digits.length)
    else if isNameStart c then
      .name ((c :: rest).takeWhile isNameChar) :: tokens fuel ((c :: rest).dropWhile isNameChar)
    else
      match signs.find? fun sign => Text.startsWith (c :: rest) sign with
      | some sign => .sign sign :: tokens fuel ((c :: rest).drop sign.length)
      | none => [.sign [c]]

/-! ## Terms -/

inductive Term where
  | number (i : Int)
  | name (t : Text)
  | unary (op : UnaryOp) (a : Term)
  | binary (op : BinaryOp) (a b : Term)
  | choice (condition yes no : Term)
  | assign (name : Text) (op : Option BinaryOp) (a : Term)
  deriving DecidableEq, Repr

def binaryOps : List (Text × BinaryOp) :=
  [("||", .or), ("&&", .and), ("|", .bitOr), ("^", .bitXor), ("&", .bitAnd), ("==", .equal),
    ("!=", .notEqual), ("<", .less), (">", .greater), ("<=", .lessEqual), (">=", .greaterEqual),
    ("<<", .shiftLeft), (">>", .shiftRight), ("+", .add), ("-", .sub), ("*", .mul), ("/", .div),
    ("%", .rem)]

def binaryOp? (sign : Text) : Option BinaryOp :=
  (binaryOps.find? fun entry => entry.1 = sign).map Prod.snd

def unaryOp? : Text → Option UnaryOp
  | ['-'] => some .negate
  | ['+'] => some .keep
  | ['~'] => some .complement
  | ['!'] => some .not
  | _ => none

/-- The operator of a sign that assigns: none for the plain one. -/
def assignment? (sign : Text) : Option (Option BinaryOp) :=
  if sign = ['='] then some none
  else if sign.getLast? = some '=' then
    match binaryOp? sign.dropLast with
    | some op => if 5 < op.level && op.level < 8 then none else some (some op)
    | none => none
  else none

def binaryAhead? (least : Nat) : List Token → Option (BinaryOp × List Token)
  | .sign t :: rest =>
    match binaryOp? t with
    | some op => if least ≤ op.level then some (op, rest) else none
    | none => none
  | _ => none

mutual

def assignment : Nat → List Token → Except Fault (Term × List Token)
  | 0, _ => .error (.malformed "primary")
  | fuel + 1, ts =>
    match ts with
    | .name t :: .sign sign :: rest =>
      match assignment? sign with
      | some op => do
        let (a, rest) ← assignment fuel rest
        pure (.assign t op a, rest)
      | none => choice fuel ts
    | ts => choice fuel ts

def choice : Nat → List Token → Except Fault (Term × List Token)
  | 0, _ => .error (.malformed "primary")
  | fuel + 1, ts => do
    let (condition, rest) ← binary fuel 1 ts
    match rest with
    | .sign ['?'] :: rest =>
      let (yes, rest) ← assignment fuel rest
      match rest with
      | .sign [':'] :: rest =>
        let (no, rest) ← choice fuel rest
        pure (.choice condition yes no, rest)
      | _ => .error (.malformed "':'")
    | rest => pure (condition, rest)

/-- A term of operators of at least a level. -/
def binary : Nat → Nat → List Token → Except Fault (Term × List Token)
  | 0, _, _ => .error (.malformed "primary")
  | fuel + 1, least, ts => do
    let (first, rest) ← primary fuel ts
    binaryFrom fuel least first rest

def binaryFrom : Nat → Nat → Term → List Token → Except Fault (Term × List Token)
  | 0, _, _, _ => .error (.malformed "primary")
  | fuel + 1, least, first, ts =>
    match binaryAhead? least ts with
    | some (op, rest) => do
      let (second, rest) ← binary fuel (op.level + 1) rest
      binaryFrom fuel least (.binary op first second) rest
    | none => .ok (first, ts)

def primary : Nat → List Token → Except Fault (Term × List Token)
  | 0, _ => .error (.malformed "primary")
  | fuel + 1, ts =>
    match ts with
    | .number i :: rest => .ok (.number i, rest)
    | .name t :: rest => .ok (.name t, rest)
    | .sign ['('] :: rest => do
      let (a, rest) ← assignment fuel rest
      match rest with
      | .sign [')'] :: rest => pure (a, rest)
      | _ => .error (.malformed "')'")
    | .sign t :: rest =>
      match unaryOp? t with
      | some op => do
        let (a, rest) ← primary fuel rest
        pure (.unary op a, rest)
      | none => .error (.malformed "primary")
    | [] => .error (.malformed "primary")

end

def term (t : Text) : Except Fault Term := do
  let ts := tokens (t.length + 1) t
  let (a, rest) ← assignment (8 * ts.length + 8) ts
  if rest.isEmpty then pure a else .error (.malformed "EOF")

/-! ## Values -/

/-- Names with the values that have been assigned to them, the latest first. -/
abbrev Assigned := List (Text × Int)

/-- The value of a name, by what it holds and what has been assigned to it. -/
def valueOf (holds : Text → Text) (assigned : Assigned) (name : Text) : Except Fault Int :=
  match assigned.find? fun entry => entry.1 = name with
  | some (_, i) => .ok i
  | none =>
    let t := holds name
    if t.trim.isEmpty then .ok 0
    else
      match integer? t with
      | some i => .ok (saturate i)
      | none => .error (.notANumber t)

/-- The value of a term. What a logical operator or a choice does not need is left alone. -/
def Term.value (holds : Text → Text) : Term → Assigned → Except Fault (Int × Assigned)
  | number i, s => .ok (i, s)
  | name t, s => (valueOf holds s t).map (·, s)
  | unary op a, s => do
    let (x, s) ← a.value holds s
    pure (applyUnary op x, s)
  | binary op a b, s => do
    let (x, s) ← a.value holds s
    if op = .or ∧ x ≠ 0 then pure (1, s)
    else if op = .and ∧ x = 0 then pure (0, s)
    else
      let (y, s) ← b.value holds s
      let z ← applyBinary op x y
      pure (z, s)
  | choice condition yes no, s => do
    let (x, s) ← condition.value holds s
    if x ≠ 0 then yes.value holds s else no.value holds s
  | assign t op a, s => do
    let (y, s) ← a.value holds s
    match op with
    | none => pure (y, (t, y) :: s)
    | some op =>
      let x ← valueOf holds s t
      let z ← applyBinary op x y
      pure (z, (t, z) :: s)

/-- The value of an expression, and the names that it assigns, the latest first. -/
def evaluate (holds : Text → Text) (t : Text) : Except Fault (Int × Assigned) := do
  let a ← term t
  a.value holds []

end Arithmetic

end HeaderConstants.Script
