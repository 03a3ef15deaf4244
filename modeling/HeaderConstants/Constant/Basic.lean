import HeaderConstants.Numeral.Hex
import HeaderConstants.Text.Search

/-!
# Constants

A constant of a header: its name and the text of its value, where it was defined, and, once it is
resolved, its 64-bit value with the substitutions that led to it. The line of the definition is kept
with its comment markers taken apart, so that it can stand inside a comment.
-/

namespace HeaderConstants
set_option autoImplicit false

/-- One substitution: every occurrence of the symbol in the expression gave way to the
replacement. -/
structure ResolutionStep where
  expression : Text
  symbol : Text
  replacement : Text
  deriving DecidableEq, Repr

structure Constant where
  name : Text
  rawValue : Text
  sourceFile : Text
  sourceLine : Nat
  line : Text
  resolvedValue : Option UInt64
  trace : List ResolutionStep
  deriving DecidableEq, Repr

namespace Constant

/-- Puts a space into every comment marker, into the openers first. -/
def defuse (line : Text) : Text :=
  Text.replaceAll ['*', '/'] ['*', ' ', '/'] (Text.replaceAll ['/', '*'] ['/', ' ', '*'] line)

def define (name rawValue sourceFile : Text) (sourceLine : Nat) (line : Text) : Constant :=
  ⟨name, rawValue, sourceFile, sourceLine, defuse line, none, []⟩

def isResolved (c : Constant) : Bool := c.resolvedValue.isSome

/-- What the constant is known as: its value once it has one, its text before. -/
def body (c : Constant) : Text :=
  match c.resolvedValue with
  | some v => HexLiteral.text v
  | none => c.rawValue

/-- What stands for the constant in the expressions that name it. -/
def substitutionText (c : Constant) : Text := '(' :: c.body ++ [')']

def resolve (c : Constant) (value : UInt64) (trace : List ResolutionStep) : Constant :=
  { c with resolvedValue := some value, trace := trace }

end Constant

end HeaderConstants
