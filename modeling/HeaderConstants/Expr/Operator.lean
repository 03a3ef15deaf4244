import HeaderConstants.Text.Basic

/-!
# Operators

The unary and binary operators of integer expressions. Binary operators of a higher level bind
tighter; those of one level associate to the left, and every unary operator binds tighter than all
of them.
-/

namespace HeaderConstants.Expr
set_option autoImplicit false

inductive UnaryOp where
  | negate
  | keep
  | complement
  | not
  deriving DecidableEq, Repr

inductive BinaryOp where
  | or
  | and
  | bitOr
  | bitXor
  | bitAnd
  | equal
  | notEqual
  | less
  | greater
  | lessEqual
  | greaterEqual
  | shiftLeft
  | shiftRight
  | add
  | sub
  | mul
  | div
  | rem
  deriving DecidableEq, Repr

namespace BinaryOp

def level : BinaryOp → Nat
  | or => 1
  | and => 2
  | bitOr => 3
  | bitXor => 4
  | bitAnd => 5
  | equal | notEqual => 6
  | less | greater | lessEqual | greaterEqual => 7
  | shiftLeft | shiftRight => 8
  | add | sub => 9
  | mul | div | rem => 10

theorem level_le_ten (op : BinaryOp) : op.level ≤ 10 := by cases op <;> decide

end BinaryOp

end HeaderConstants.Expr
