import HeaderConstants.Constant.Stored
import HeaderConstants.Emit.Document

/-!
# JSON

An object with the copyright texts of the headers and the list of constants; the verbose form adds
to each constant its source line, its substitutions and the compiler's outputs.
-/

namespace HeaderConstants.Emit
set_option autoImplicit false

namespace JsonDocument

def header (h : HeaderCopyright) : Json :=
  .object [("file_name", .string h.fileName), ("text", .string h.text)]

def probeMembers (o : ProbeOutput) : List (Text × Json) :=
  [("check", .object [("stdout", .string o.stdout), ("stderr", .string o.stderr)])]

def plainMembers (c : Constant) (v : UInt64) : List (Text × Json) :=
  [("name", .string c.name), ("value", HexLiteral.toJson v), ("raw_value", .string c.rawValue),
    ("source_file", .string c.sourceFile), ("source_line", .nat c.sourceLine)]

def verboseMembers (c : Constant) : List (Text × Json) :=
  [("line", .string c.line), ("resolution", .array (c.trace.map ResolutionStep.toJson))]

def constant (d : Document) (c : Constant) : Except Unresolved Json := do
  let v ← c.requireValue
  pure (.object (plainMembers c v
    ++ (if d.verbose then verboseMembers c else [])
    ++ ((d.probeOutput? c.name).map probeMembers).getD []))

def ofDocument (d : Document) : Except Unresolved Json := do
  let constants ← d.constants.mapM (constant d)
  pure (.object [("headers", .array (d.headers.map header)), ("constants", .array constants)])

def emit (d : Document) : Except Unresolved Text := do
  let j ← ofDocument d
  pure (j.pretty ++ ['\n'])

end JsonDocument

end HeaderConstants.Emit
