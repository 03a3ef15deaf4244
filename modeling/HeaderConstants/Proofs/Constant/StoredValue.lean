import HeaderConstants.Proofs.Constant.Stored
import HeaderConstants.Proofs.Result

/-!
# Stored values

The value of a stored constant is a text that has to be a hexadecimal literal. A plus sign before
the digits is passed over, here as wherever literals are read; every other text that is no literal
is refused, and the constant with it.

* `Constant.exists_parse_of_restore?`: the value of a constant, from any text that stores it;
* `HexLiteral.parse_accepts`: which texts are values.
-/

namespace HeaderConstants
set_option autoImplicit false

open Json

variable {c : Constant} {s doc : Text} {tree : Tree} {f : Fields}

theorem HexLiteral.ofTree?_string (s : Text) :
    ofTree? (.string (some s)) = (parse s).toOption := by
  rw [parse]
  change read? s = _
  cases read? s <;> rfl

namespace Constant

/-- With a text in the place of its value a constant is read back with the value of that text. -/
theorem restore?_layout_string_iff {c' : Constant} (h : c.sourceLine < UInt64.size) :
    restore? (c.layout (.string s)).compact = some c' ↔
      ∃ v, HexLiteral.parse s = .ok v ∧ c' = { c with resolvedValue := some v } := by
  have hvalue : (Json.string s).tree.nullable? HexLiteral.ofTree? =
      (HexLiteral.parse s).toOption.map some := by
    rw [← HexLiteral.ofTree?_string]
    rfl
  rw [restore?_layout h (.string s), hvalue]
  simp only [Option.map_eq_some_iff, toOption_eq_some_iff, exists_exists_and_eq_and,
    eq_comm (b := c')]

/-- Whatever else is stored, and in which order, the value is the one of the text in its place. -/
theorem exists_parse_of_restore? (htree : Tree.ofText? doc = some tree)
    (hfields : Fields.of? fieldNames tree = some f)
    (hfind : f.find? "resolved_value" = some (.string (some s))) (h : restore? doc = some c) :
    ∃ v, HexLiteral.parse s = .ok v ∧ c.resolvedValue = some v := by
  have hvalue : f.optional "resolved_value" HexLiteral.ofTree? =
      (HexLiteral.parse s).toOption.map some := by
    rw [Fields.optional_of_find? hfind, ← HexLiteral.ofTree?_string]
    rfl
  simp only [restore?, ofTree?, htree, hfields, hvalue, Option.bind_eq_bind, Option.bind_some,
    Option.bind_eq_some_iff, Option.map_eq_some_iff, toOption_eq_some_iff] at h
  obtain ⟨name, -, rawValue, -, file, -, number, -, line, -, value, ⟨v, hv, rfl⟩, trace, -, h⟩ := h
  obtain rfl := Option.some.inj h
  exact ⟨v, hv, rfl⟩

end Constant

namespace HexLiteral

/-- A text is read as a value, alone or as the value of a constant that is stored, if and only if it
is a literal of the value, with or without a plus sign before its digits. Every other text is
refused, and the message has it. -/
theorem parse_accepts (s : Text) :
    (∀ v, parse s = .ok v ↔ IsHex s v ∨ IsSigned s v) ∧
    ((∀ v, parse s = .ok v ↔ IsHex s v) ↔ ∀ v, ¬ IsSigned s v) ∧
    (∀ e, parse s = .error e ↔ e = ⟨s⟩ ∧ ∀ v, ¬ (IsHex s v ∨ IsSigned s v)) ∧
    (∀ e, parse s = .error e → e.message = "not a hex literal: '" ++ s ++ "'") ∧
    (∀ c : Constant, c.sourceLine < UInt64.size → ∀ c',
      Constant.restore? (c.layout (.string s)).compact = some c' ↔
        ∃ v, parse s = .ok v ∧ c' = { c with resolvedValue := some v }) ∧
    ∀ doc tree f c, Tree.ofText? doc = some tree →
      Fields.of? Constant.fieldNames tree = some f →
      f.find? "resolved_value" = some (.string (some s)) → Constant.restore? doc = some c →
        ∃ v, parse s = .ok v ∧ c.resolvedValue = some v := by
  refine ⟨fun v => parse_eq_ok_iff, reads_as_hex_iff, fun e => parse_eq_error_iff, ?_, ?_, ?_⟩
  · intro e h
    obtain ⟨rfl, -⟩ := parse_eq_error_iff.1 h
    rfl
  · exact fun c hc c' => Constant.restore?_layout_string_iff hc
  · exact fun doc tree f c htree hfields hfind h =>
      Constant.exists_parse_of_restore? htree hfields hfind h

/-- The digits have capitals and small letters; a stored constant may also be a list. -/
theorem parse_accepts_mixed_case :
    let s : Text := "0X00fF"
    let c : Constant := .define "A" "255" "t.h" 7 "#define A 255"
    let number : Tree := .number ⟨false, "7".toList, [], none⟩
    let items : List Tree := [.string "A".toList, .string "255".toList, .string "t.h".toList,
      number, .string "#define A 255".toList, .string s, .array []]
    let doc : Text := "[\"A\", \"255\", \"t.h\", 7, \"#define A 255\", \"0X00fF\", []]"
    let f : Fields := ⟨Constant.fieldNames.zip items, true⟩
    parse s = .ok 255 ∧ c.sourceLine < UInt64.size ∧
    Constant.restore? (c.layout (.string s)).compact = some { c with resolvedValue := some 255 } ∧
    Tree.ofText? doc = some (.array items) ∧
    Fields.of? Constant.fieldNames (.array items) = some f ∧
    f.find? "resolved_value" = some (.string (some s)) ∧
    Constant.restore? doc = some { c with resolvedValue := some 255 } ∧
    ∃ v, parse s = .ok v ∧ some 255 = some v := by
  intro s c number items doc f
  obtain ⟨-, -, -, -, hlayout, hstored⟩ := parse_accepts s
  have hparse : parse s = .ok 255 := by decide +kernel
  have htree : Tree.ofText? doc = some (.array items) := by rfl
  have hrestore : Constant.restore? doc = some { c with resolvedValue := some 255 } := by
    decide +kernel
  have hvalue := hstored doc _ f _ htree rfl rfl hrestore
  exact ⟨hparse, by decide, (hlayout c (by decide) _).2 ⟨255, hparse, rfl⟩, htree, rfl, rfl,
    hrestore, hvalue⟩

/-- `0x+FF` is read as 255. -/
theorem not_only_hex : ¬ ∀ s v, parse s = .ok v ↔ IsHex s v := by
  intro honly
  have hread : parse "0x+FF" = .ok 255 := by decide +kernel
  obtain ⟨x, digits, htext, -, hn⟩ := (honly "0x+FF" 255).1 hread
  obtain ⟨-, rfl⟩ : x = 'x' ∧ digits = "+FF".toList := by simpa using htext.symm
  exact not_isNumeral_plus hn

end HexLiteral

end HeaderConstants
