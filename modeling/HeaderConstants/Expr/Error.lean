import HeaderConstants.Expr.Token

/-!
# Why an expression has no value

A name that stands for nothing, or a fault of the text: a literal, a character, the order of the
tokens, or a value out of bounds.
-/

namespace HeaderConstants
set_option autoImplicit false

namespace Expr

/-- The operators whose result can leave 128 bits. -/
inductive Overflowing where
  | add
  | sub
  | mul
  | div
  | rem
  deriving DecidableEq, Repr

def Overflowing.sign : Overflowing → Char
  | add => '+'
  | sub => '-'
  | mul => '*'
  | div => '/'
  | rem => '%'

inductive Fault where
  | invalidLiteral (literal : Text)
  | unsupported (c : Char)
  | empty
  | trailing (token : Token)
  | unexpected (token : Token)
  | unexpectedEnd
  | unclosed
  | overflow (op : Overflowing)
  | divisionByZero
  | moduloByZero
  | invalidShift (amount : Int)
  | tooWide
  deriving DecidableEq, Repr

def Fault.message : Fault → Text
  | invalidLiteral literal => "invalid integer literal '" ++ literal ++ "'"
  | unsupported c => "unsupported character '" ++ [c] ++ "'"
  | empty => "empty expression"
  | trailing token => "unexpected trailing " ++ token.label
  | unexpected token => "unexpected " ++ token.label
  | unexpectedEnd => "unexpected end of expression"
  | unclosed => "expected ')'"
  | overflow op => "overflow in '" ++ [op.sign] ++ "'"
  | divisionByZero => "division by zero"
  | moduloByZero => "modulo by zero"
  | invalidShift amount => "invalid shift amount " ++ Text.signedDecimal amount
  | tooWide => "value does not fit in 64 bits"

end Expr

inductive EvalError where
  | unresolvedSymbol (symbol : Text)
  | malformed (expression : Text) (fault : Expr.Fault)
  deriving DecidableEq, Repr

def EvalError.message : EvalError → Text
  | unresolvedSymbol symbol => "unresolved symbol '" ++ symbol ++ "'"
  | malformed expression fault =>
    "malformed expression '" ++ expression ++ "': " ++ fault.message

end HeaderConstants
