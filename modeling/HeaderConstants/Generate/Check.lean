import HeaderConstants.Generate.Action

/-!
# The compile check

The generated text is given to the compiler of its target before it is used; a JSON text has to be
readable.
-/

namespace HeaderConstants.Check
set_option autoImplicit false

open HeaderConstants.Action

def rustFileName : Text := "pkcs11_constants.rs"

/-- Compiles a text as a file of the scratch directory. -/
def compile (h : Host) (tool fileName text : Text) (arguments : Text → List Text) :
    Action (Except GenerateError Unit) := do
  let path := Disk.join h.scratch fileName
  write path text
  let o ← start h tool ⟨tool, arguments path⟩
  if o.status.isSuccess then pure (.ok ())
  else pure (.error (.toolFailed tool fileName o.status.message (some h.scratch)))

def unreadableJson : GenerateError :=
  .toolFailed "serde_json" "generated JSON" "not a JSON text" none

def text (h : Host) (config : GeneratorConfig) (t : Text) : Action Unit :=
  match config.target with
  | .java =>
    inScratch h (compile h config.toolchain.javac (config.typeName ++ ".java") t fun path => [path])
  | .rust =>
    inScratch h (compile h config.toolchain.rustc rustFileName t fun path =>
      ["--crate-type", "lib", "--emit", "metadata", "--out-dir", h.scratch, path])
  | .json => if (Json.ofText? t).isSome then pure () else throw unreadableJson

def run (h : Host) (config : GeneratorConfig) (t : Text) : Action Unit := do
  text h config t
  log h .info .check ("Generated " ++ config.target.name ++ " output passed the compile check")

end HeaderConstants.Check
