import HeaderConstants.Config.Generator
import HeaderConstants.Emit.Java
import HeaderConstants.Emit.Json
import HeaderConstants.Emit.Rust

/-!
# Emission by target

The text of a document in the form that the configuration asks for.
-/

namespace HeaderConstants
set_option autoImplicit false

def Document.emit (config : GeneratorConfig) (d : Document) : Except Unresolved Text :=
  match config.target with
  | .java => Emit.Java.emit config.javaPackage config.typeName d
  | .rust => Emit.Rust.emit d
  | .json => Emit.JsonDocument.emit d

end HeaderConstants
