import HeaderConstants.Constant.Basic
import HeaderConstants.Header.Copyright
import HeaderConstants.Header.Define

/-!
# Headers

A header is read line by line. Each definition line gives one constant, with the number of its line
counted from one; the first definition line that cannot be read is the error of the header.
-/

namespace HeaderConstants
set_option autoImplicit false

/-- A line of a file that could not be read. -/
structure LocatedError where
  file : Text
  lineNumber : Nat
  cause : LineError
  deriving DecidableEq, Repr

def LocatedError.message (e : LocatedError) : Text :=
  e.file ++ ":" ++ Text.decimal e.lineNumber ++ ":" ++ " " ++ e.cause.message

structure Header where
  fileName : Text
  constants : List Constant
  copyright : Text
  deriving DecidableEq, Repr

namespace Header

/-- The constants of the lines from the given number on. -/
def constantsFrom (file : Text) : Nat → List Text → Except LocatedError (List Constant)
  | _, [] => .ok []
  | number, line :: lines =>
    let trimmed := line.trimStart
    if isDefinition trimmed then
      match parseDefinition trimmed with
      | .error cause => .error ⟨file, number, cause⟩
      | .ok d => do
        let more ← constantsFrom file (number + 1) lines
        pure (Constant.define d.name d.value file number trimmed :: more)
    else constantsFrom file (number + 1) lines

def parse (file contents : Text) : Except LocatedError Header := do
  let lines := contents.lines.map Text.trimEnd
  let constants ← constantsFrom file 1 lines
  pure ⟨file, constants, copyrightOf lines⟩

end Header

end HeaderConstants
