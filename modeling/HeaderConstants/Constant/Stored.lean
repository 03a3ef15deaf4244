import HeaderConstants.Constant.Set
import HeaderConstants.Json.Fields
import HeaderConstants.Json.Printer

/-!
# Stored constants

Constants are stored as JSON objects of all their fields, the value as a hexadecimal literal or
null; a set is stored as an object with the list of its constants.
-/

namespace HeaderConstants
set_option autoImplicit false

open Json (Tree Fields)

namespace ResolutionStep

def toJson (s : ResolutionStep) : Json :=
  .object [("expression", .string s.expression), ("symbol", .string s.symbol),
    ("replacement", .string s.replacement)]

def ofTree? (t : Tree) : Option ResolutionStep := do
  let f ← Fields.of? ["expression", "symbol", "replacement"] t
  let expression ← f.required "expression" Tree.text?
  let symbol ← f.required "symbol" Tree.text?
  let replacement ← f.required "replacement" Tree.text?
  pure ⟨expression, symbol, replacement⟩

end ResolutionStep

namespace HexLiteral

def toJson (v : UInt64) : Json := .string (text v)

def ofTree? (t : Tree) : Option UInt64 := do
  let spelled ← t.text?
  read? spelled

end HexLiteral

namespace Constant

def fieldNames : List Text :=
  ["name", "raw_value", "source_file", "source_line", "line", "resolved_value", "resolution_trace"]

def toJson (c : Constant) : Json :=
  .object [("name", .string c.name), ("raw_value", .string c.rawValue),
    ("source_file", .string c.sourceFile), ("source_line", .nat c.sourceLine),
    ("line", .string c.line),
    ("resolved_value", (c.resolvedValue.map HexLiteral.toJson).getD .null),
    ("resolution_trace", .array (c.trace.map ResolutionStep.toJson))]

def ofTree? (t : Tree) : Option Constant := do
  let f ← Fields.of? fieldNames t
  let name ← f.required "name" Tree.text?
  let rawValue ← f.required "raw_value" Tree.text?
  let sourceFile ← f.required "source_file" Tree.text?
  let sourceLine ← f.required "source_line" Tree.size?
  let line ← f.required "line" Tree.text?
  let resolvedValue ← f.optional "resolved_value" HexLiteral.ofTree?
  let trace ← f.required "resolution_trace" (Tree.list? ResolutionStep.ofTree?)
  pure ⟨name, rawValue, sourceFile, sourceLine, line, resolvedValue, trace⟩

def store (c : Constant) : Text := c.toJson.compact

def restore? (t : Text) : Option Constant := do
  let tree ← Tree.ofText? t
  ofTree? tree

end Constant

namespace ConstantSet

def toJson (s : ConstantSet) : Json :=
  .object [("records", .array (s.constants.map Constant.toJson))]

def ofTree? (t : Tree) : Option ConstantSet := do
  let f ← Fields.of? ["records"] t
  let constants ← f.required "records" (Tree.list? Constant.ofTree?)
  pure ⟨constants⟩

def store (s : ConstantSet) : Text := s.toJson.compact

def restore? (t : Text) : Option ConstantSet := do
  let tree ← Tree.ofText? t
  ofTree? tree

end ConstantSet

end HeaderConstants
