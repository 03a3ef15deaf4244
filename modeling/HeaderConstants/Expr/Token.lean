import HeaderConstants.Expr.Operator

/-!
# Tokens of expressions

An integer, a parenthesis or an operator sign. Signs such as `-` stand for a unary operator where an
operand is due and for a binary one after an operand.

* `Token.label`: how a message names the token;
* `Token.unary?`, `Token.binary?`: the operators that a sign stands for.
-/

namespace HeaderConstants.Expr
set_option autoImplicit false

inductive Token where
  | int (value : Nat)
  | leftParen
  | rightParen
  | plus
  | minus
  | star
  | slash
  | percent
  | shl
  | shr
  | amp
  | pipe
  | caret
  | tilde
  | not
  | andAnd
  | orOr
  | eq
  | ne
  | lt
  | gt
  | le
  | ge
  deriving DecidableEq, Repr

namespace Token

def label : Token → Text
  | int value => "Int(" ++ Text.decimal value ++ ")"
  | leftParen => "LParen"
  | rightParen => "RParen"
  | plus => "Plus"
  | minus => "Minus"
  | star => "Star"
  | slash => "Slash"
  | percent => "Percent"
  | shl => "Shl"
  | shr => "Shr"
  | amp => "Amp"
  | pipe => "Pipe"
  | caret => "Caret"
  | tilde => "Tilde"
  | not => "Not"
  | andAnd => "AndAnd"
  | orOr => "OrOr"
  | eq => "Eq"
  | ne => "Ne"
  | lt => "Lt"
  | gt => "Gt"
  | le => "Le"
  | ge => "Ge"

def unary? : Token → Option UnaryOp
  | minus => some .negate
  | plus => some .keep
  | tilde => some .complement
  | not => some .not
  | _ => none

def binary? : Token → Option BinaryOp
  | orOr => some .or
  | andAnd => some .and
  | pipe => some .bitOr
  | caret => some .bitXor
  | amp => some .bitAnd
  | eq => some .equal
  | ne => some .notEqual
  | lt => some .less
  | gt => some .greater
  | le => some .lessEqual
  | ge => some .greaterEqual
  | shl => some .shiftLeft
  | shr => some .shiftRight
  | plus => some .add
  | minus => some .sub
  | star => some .mul
  | slash => some .div
  | percent => some .rem
  | _ => none

/-- The token of a two-character sign. -/
def double? : Char → Char → Option Token
  | '<', '<' => some shl
  | '>', '>' => some shr
  | '&', '&' => some andAnd
  | '|', '|' => some orOr
  | '=', '=' => some eq
  | '!', '=' => some ne
  | '<', '=' => some le
  | '>', '=' => some ge
  | _, _ => none

/-- The token of a one-character sign. -/
def single? : Char → Option Token
  | '(' => some leftParen
  | ')' => some rightParen
  | '+' => some plus
  | '-' => some minus
  | '*' => some star
  | '/' => some slash
  | '%' => some percent
  | '&' => some amp
  | '|' => some pipe
  | '^' => some caret
  | '~' => some tilde
  | '!' => some not
  | '<' => some lt
  | '>' => some gt
  | _ => none

end Token

end HeaderConstants.Expr
