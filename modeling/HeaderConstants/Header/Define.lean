import HeaderConstants.Header.Token

/-!
# Definition lines

A definition is a line that starts with `#define`; its name is the first token after that and its
value the second. Either may be empty, and what follows the value is not looked at.
-/

namespace HeaderConstants.Header
set_option autoImplicit false

def directive : Text := "#define"

def isDefinition (line : Text) : Bool := line.startsWith directive

structure Definition where
  name : Text
  value : Text
  deriving DecidableEq, Repr

def definition? (afterDirective : Text) : Option Definition := do
  let (name, rest) ← leadingToken? afterDirective
  let (value, _) ← leadingToken? rest
  pure ⟨name, value⟩

def parseDefinition (line : Text) : Except LineError Definition :=
  let trimmed := line.trim
  if isDefinition trimmed then
    match definition? (trimmed.drop directive.length) with
    | some d => .ok d
    | none => .error (.unbalanced trimmed)
  else .error (.notADefinition trimmed)

end HeaderConstants.Header
