import HeaderConstants.Expr.Arithmetic
import HeaderConstants.Expr.Lexer
import HeaderConstants.Expr.Reader
import HeaderConstants.Expr.Suffix

/-!
# The value of an expression

The text loses its literal suffixes, is cut into tokens and read with the operators on 128-bit
integers; the result has to fit into 64 bits. A fault of the tokens is reported with the text
without suffixes, every later one with the text as it was given.
-/

namespace HeaderConstants
set_option autoImplicit false

namespace Expr

def arithmetic : Algebra Int where
  literal n := n
  unary := UnaryOp.apply
  binary := BinaryOp.apply

def LexError.evalError (expression : Text) : LexError → EvalError
  | .name symbol => .unresolvedSymbol symbol
  | .fault cause => .malformed expression cause

end Expr

open HeaderConstants.Expr

def evaluate (expression : Text) : Except EvalError UInt64 := do
  let stripped := stripSuffixes expression
  let ts ← (tokens stripped).mapError (LexError.evalError stripped)
  (do toWord (← read arithmetic ts)).mapError (EvalError.malformed expression)

end HeaderConstants
