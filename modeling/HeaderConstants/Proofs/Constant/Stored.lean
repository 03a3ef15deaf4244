import HeaderConstants.Constant.Stored
import HeaderConstants.Proofs.Constant.OrderedMap
import HeaderConstants.Proofs.Json.Value
import HeaderConstants.Proofs.Numeral.HexForm

/-!
# Stored constants read back

What is stored is read back as it was: the texts whatever characters they have, the value through
its hexadecimal literal, and a set in its order. Line numbers are natural numbers of 64 bits.

* `Constant.ofTree?_layout`: a constant with something in the place of its value;
* `Constant.restore?_store`: a constant;
* `ConstantSet.restore?_store`: a set;
* `ConstantSet.stored_and_restored`: every set that comes about.
-/

namespace HeaderConstants
set_option autoImplicit false

open Json

variable {c : Constant} {s : ConstantSet}

/-! ## Parts of a constant -/

theorem HexLiteral.ofTree?_toJson (v : UInt64) : ofTree? (toJson v).tree = some v :=
  read?_text v

theorem ResolutionStep.ofTree?_toJson (st : ResolutionStep) : ofTree? st.toJson.tree = some st := rfl

theorem ResolutionStep.written_toJson {depth : Nat} (st : ResolutionStep) :
    Written (depth + 1) st.toJson := by
  refine .object ?_
  simp [Written.string]

/-! ## Constants -/

namespace Constant

/-- The constant as it is stored, with something in the place of its value. -/
def layout (value : Json) (c : Constant) : Json :=
  .object [("name", .string c.name), ("raw_value", .string c.rawValue),
    ("source_file", .string c.sourceFile), ("source_line", .nat c.sourceLine),
    ("line", .string c.line), ("resolved_value", value),
    ("resolution_trace", .array (c.trace.map ResolutionStep.toJson))]

theorem toJson_eq (c : Constant) :
    c.toJson = c.layout ((c.resolvedValue.map HexLiteral.toJson).getD .null) := rfl

theorem written_layout {depth : Nat} {value : Json} (h : c.sourceLine < UInt64.size)
    (hvalue : Written (depth + 2) value) : Written (depth + 3) (c.layout value) := by
  have htrace : Written (depth + 2) (.array (c.trace.map ResolutionStep.toJson)) :=
    .array (List.forall_mem_map.2 fun st _ => st.written_toJson)
  refine .object ?_
  simp only [List.forall_mem_cons]
  exact ⟨.string _, .string _, .string _, .nat h, .string _, hvalue, htrace, List.forall_mem_nil _⟩

theorem written_toJson {depth : Nat} (h : c.sourceLine < UInt64.size) :
    Written (depth + 3) c.toJson := by
  refine written_layout h ?_
  cases c.resolvedValue with
  | none => exact .null
  | some v => exact .string _

/-- What is read of a layout depends on what stands in the place of the value. -/
theorem ofTree?_layout {value : Json} (h : c.sourceLine < UInt64.size) :
    ofTree? (c.layout value).tree = (value.tree.nullable? HexLiteral.ofTree?).map
      fun found => { c with resolvedValue := found } := by
  let f : Fields := ⟨[("name", (Json.string c.name).tree),
    ("raw_value", (Json.string c.rawValue).tree), ("source_file", (Json.string c.sourceFile).tree),
    ("source_line", (Json.nat c.sourceLine).tree), ("line", (Json.string c.line).tree),
    ("resolved_value", value.tree),
    ("resolution_trace", (Json.array (c.trace.map ResolutionStep.toJson)).tree)], false⟩
  have hfields : Fields.of? fieldNames (c.layout value).tree = some f := rfl
  have hname : f.required "name" Tree.text? = some c.name := rfl
  have hraw : f.required "raw_value" Tree.text? = some c.rawValue := rfl
  have hfile : f.required "source_file" Tree.text? = some c.sourceFile := rfl
  have hnumber : f.required "source_line" Tree.size? = some c.sourceLine := size?_tree h
  have hline : f.required "line" Tree.text? = some c.line := rfl
  have hvalue : f.optional "resolved_value" HexLiteral.ofTree? =
      value.tree.nullable? HexLiteral.ofTree? := Fields.optional_of_find? rfl
  have htrace : f.required "resolution_trace" (Tree.list? ResolutionStep.ofTree?) = some c.trace :=
    list?_tree fun st _ => st.ofTree?_toJson
  simp only [ofTree?, hfields, hname, hraw, hfile, hnumber, hline, hvalue, htrace,
    Option.bind_eq_bind, Option.bind_some]
  exact Option.map_eq_bind.symm

theorem ofTree?_toJson (h : c.sourceLine < UInt64.size) : ofTree? c.toJson.tree = some c := by
  have hvalue : ((c.resolvedValue.map HexLiteral.toJson).getD .null).tree.nullable?
      HexLiteral.ofTree? = some c.resolvedValue :=
    nullable?_getD HexLiteral.ofTree?_toJson fun _ => rfl
  rw [toJson_eq, ofTree?_layout h, hvalue]
  rfl

theorem restore?_layout {value : Json} (h : c.sourceLine < UInt64.size) (hvalue : Written 2 value) :
    restore? (c.layout value).compact = (value.tree.nullable? HexLiteral.ofTree?).map
      fun found => { c with resolvedValue := found } := by
  rw [restore?, Tree.ofText?_compact (written_layout h hvalue), Option.bind_eq_bind,
    Option.bind_some, ofTree?_layout h]

theorem restore?_store (h : c.sourceLine < UInt64.size) : restore? c.store = some c := by
  have hwritten : Written 3 c.toJson := written_toJson h
  rw [restore?, store, Tree.ofText?_compact hwritten,
    Option.bind_eq_bind, Option.bind_some, ofTree?_toJson h]

end Constant

/-! ## Sets -/

namespace ConstantSet

theorem ofTree?_toJson (h : ∀ c ∈ s.constants, c.sourceLine < UInt64.size) :
    ofTree? s.toJson.tree = some s := by
  let f : Fields := ⟨[("records", (Json.array (s.constants.map Constant.toJson)).tree)], false⟩
  have hfields : Fields.of? ["records"] s.toJson.tree = some f := rfl
  have hconstants : f.required "records" (Tree.list? Constant.ofTree?) = some s.constants :=
    list?_tree fun c hc => Constant.ofTree?_toJson (h c hc)
  simp only [ofTree?, hfields, hconstants, Option.bind_eq_bind, Option.bind_some]
  rfl

theorem restore?_store (h : ∀ c ∈ s.constants, c.sourceLine < UInt64.size) :
    restore? s.store = some s := by
  have hwritten : Written 5 s.toJson := by
    refine .object (List.forall_mem_singleton.2 (.array ?_))
    exact List.forall_mem_map.2 fun c hc => Constant.written_toJson (h c hc)
  rw [restore?, store, Tree.ofText?_compact hwritten, Option.bind_eq_bind, Option.bind_some,
    ofTree?_toJson h]

theorem Holds.sourceLine_lt {inserted : List Constant} (h : Holds inserted s)
    (hlines : ∀ c ∈ inserted, c.sourceLine < UInt64.size) :
    ∀ c ∈ s.constants, c.sourceLine < UInt64.size := by
  intro c hc
  obtain ⟨d, hd, ⟨-, -, -, hline, -⟩, -⟩ := exists_of_mem_forall₂ h hc
  exact hline ▸ hlines d (lastDefinitions_subset inserted hd)

/-- However a set came about, it is read back as it was, and so is each constant, with the text that
it is substituted by. -/
theorem stored_and_restored (steps : List Step)
    (hlines : ∀ c ∈ logAfter [] steps, c.sourceLine < UInt64.size) :
    restore? (empty.after steps).store = some (empty.after steps) ∧
    ∀ c : Constant, c.sourceLine < UInt64.size →
      Constant.restore? c.store = some c ∧
      (Constant.restore? c.store).map Constant.store = some c.store ∧
      (Constant.restore? c.store).map Constant.substitutionText = some c.substitutionText := by
  have hempty : Holds [] empty := .nil
  refine ⟨restore?_store ((hempty.after steps).sourceLine_lt hlines), fun c hc => ?_⟩
  rw [Constant.restore?_store hc]
  exact ⟨rfl, rfl, rfl⟩

/-- One constant has a trace and one has no value; the texts have a quote, a backslash, controls and
a character of four bytes. -/
theorem stored_and_restored_escapes :
    let file : Text := "dir\\a\"b\u0001\x7f.h"
    let text : Text := "B +\t'\u2028😀\n"
    let steps : List Step := [.insert (.define "A" "1" file 7 "#define A 1"),
      .insert (.define "B" "A + 1" file 8 "#define B A + 1"), .resolve (.new .standard),
      .insert (.define "C" text [] (2 ^ 64 - 1) text)]
    let s := empty.after steps
    (∀ c ∈ logAfter [] steps, c.sourceLine < UInt64.size) ∧
    s.constants.map (fun c => (c.resolvedValue, c.trace.length)) =
      [(some 1, 0), (some 2, 1), (none, 0)] ∧
    restore? s.store = some s ∧
    ∀ c ∈ s.constants, Constant.restore? c.store = some c := by
  intro file text steps s
  have hlines : ∀ c ∈ logAfter [] steps, c.sourceLine < UInt64.size := by decide +kernel
  obtain ⟨hset, hconstant⟩ := stored_and_restored steps hlines
  have hempty : Holds [] empty := .nil
  have hpresent := (hempty.after steps).sourceLine_lt hlines
  exact ⟨hlines, by decide +kernel, hset, fun c hc => (hconstant c (hpresent c hc)).1⟩

end ConstantSet

end HeaderConstants
