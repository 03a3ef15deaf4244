import HeaderConstants.Text.Basic

/-!
# Targets

What the constants are generated for. A target is asked for by its name in any ASCII case; the short
form `rs` is understood too.
-/

namespace HeaderConstants
set_option autoImplicit false

inductive Target where
  | java
  | rust
  | json
  deriving DecidableEq, Repr

namespace Target

def name : Target → Text
  | java => "java"
  | rust => "rust"
  | json => "json"

def extension : Target → Text
  | java => "java"
  | rust => "rs"
  | json => "json"

/-- The target of an exact name. -/
def ofName? (t : Text) : Option Target := [java, rust, json].find? (fun target => target.name = t)

def parse? (t : Text) : Option Target :=
  let lower := t.asciiLower
  if lower = "rs" then some rust else ofName? lower

def unknownMessage (t : Text) : Text := "unknown target language '" ++ t.asciiLower ++ "'"

end Target

end HeaderConstants
