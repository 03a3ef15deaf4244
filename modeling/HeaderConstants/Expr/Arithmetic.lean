import HeaderConstants.Expr.Error

/-!
# Arithmetic

Values are integers of 128 bits. Sums, differences, products, quotients, remainders and negations
are faults when they leave that range, quotients go toward zero, and a shift amount lies below 64. A
left shift keeps the low 128 bits. The complement is taken within 64 bits, and a comparison or a
logical operator gives one or zero.

* `Expr.UnaryOp.apply`, `Expr.BinaryOp.apply`: the operators on values;
* `Expr.toWord`: a result as a 64-bit value, the negative ones as two's complement.
-/

namespace HeaderConstants.Expr
set_option autoImplicit false

/-- How many values have 64 bits. -/
def wordCount : Nat := 0x10000000000000000

/-- How many values have 128 bits. -/
def wideCount : Nat := 0x100000000000000000000000000000000

/-- The integers of 128 bits. -/
def Fits (v : Int) : Prop :=
  -0x80000000000000000000000000000000 ≤ v ∧ v < 0x80000000000000000000000000000000

instance (v : Int) : Decidable (Fits v) := inferInstanceAs (Decidable (_ ∧ _))

def checked (op : Overflowing) (v : Int) : Except Fault Int :=
  if Fits v then .ok v else .error (.overflow op)

def ofBool (b : Bool) : Int := if b then 1 else 0

/-- A bitwise operation on the two's complement of 128 bits. -/
def bitwise (f : BitVec 128 → BitVec 128 → BitVec 128) (x y : Int) : Int :=
  (f (BitVec.ofInt 128 x) (BitVec.ofInt 128 y)).toInt

def shiftAmount (y : Int) : Except Fault Nat :=
  if 0 ≤ y ∧ y < 64 then .ok y.toNat else .error (.invalidShift y)

def UnaryOp.apply : UnaryOp → Int → Except Fault Int
  | negate, x => checked .sub (-x)
  | keep, x => .ok x
  | complement, x => .ok (wordCount - 1 - x % wordCount)
  | not, x => .ok (ofBool (x = 0))

def BinaryOp.apply : BinaryOp → Int → Int → Except Fault Int
  | or, x, y => .ok (ofBool (x ≠ 0 ∨ y ≠ 0))
  | and, x, y => .ok (ofBool (x ≠ 0 ∧ y ≠ 0))
  | bitOr, x, y => .ok (bitwise (· ||| ·) x y)
  | bitXor, x, y => .ok (bitwise (· ^^^ ·) x y)
  | bitAnd, x, y => .ok (bitwise (· &&& ·) x y)
  | equal, x, y => .ok (ofBool (x = y))
  | notEqual, x, y => .ok (ofBool (x ≠ y))
  | less, x, y => .ok (ofBool (x < y))
  | greater, x, y => .ok (ofBool (y < x))
  | lessEqual, x, y => .ok (ofBool (x ≤ y))
  | greaterEqual, x, y => .ok (ofBool (y ≤ x))
  | shiftLeft, x, y => (shiftAmount y).map fun (k : Nat) => (x <<< k).bmod wideCount
  | shiftRight, x, y => (shiftAmount y).map fun (k : Nat) => x >>> k
  | add, x, y => checked .add (x + y)
  | sub, x, y => checked .sub (x - y)
  | mul, x, y => checked .mul (x * y)
  | div, x, y => if y = 0 then .error .divisionByZero else checked .div (x.tdiv y)
  | rem, x, y =>
    if y = 0 then .error .moduloByZero
    else if Fits (x.tdiv y) then .ok (x.tmod y) else .error (.overflow .rem)

def toWord (v : Int) : Except Fault UInt64 :=
  if -0x8000000000000000 ≤ v ∧ v < wordCount then .ok (UInt64.ofNat (v % wordCount).toNat)
  else .error .tooWide

end HeaderConstants.Expr
