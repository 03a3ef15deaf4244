import HeaderConstants.Emit.Document

/-!
# Rust

A module of public 64-bit constants, each under documentation lines with its source; the verbose
form adds the definition, the substitutions and the compiler's outputs.
-/

namespace HeaderConstants.Emit.Rust
set_option autoImplicit false

def banner : List Text :=
  ["//! PKCS#11 constants generated by constgen from NSS's pkcs11t.h and",
    "//! pkcs11n.h headers. Do not edit by hand.", ""]

def allowLine : Text := "#![allow(non_upper_case_globals)]"

def docMark : Text := "/// "

def blankDoc : Text := "///"

def copyrightLines (h : HeaderCopyright) : List Text :=
  ("// Copyright statements from " ++ h.fileName) :: commentLines "// " h.text.trimEnd ++ [[]]

def code (t : Text) : Text := ['\x60'] ++ t ++ ['\x60']

def stepLine (s : ResolutionStep) : Text :=
  docMark ++ "Resolution step: in " ++ code s.expression ++ " replaced " ++ code s.symbol
    ++ " with " ++ code s.replacement

def definitionLines (c : Constant) : List Text :=
  [blankDoc, docMark ++ "Line number: " ++ Text.decimal c.sourceLine,
    docMark ++ "Line: " ++ code c.line, docMark ++ "Parsed value: " ++ code c.rawValue]
    ++ c.trace.map stepLine

def streamLines (title output : Text) : List Text :=
  if output.isEmpty then []
  else blankDoc :: (docMark ++ title) :: commentLines docMark output.trimEnd

def probeLines (o : ProbeOutput) : List Text :=
  streamLines "check stdout:" o.stdout ++ streamLines "check stderr:" o.stderr

def declaration (c : Constant) (v : UInt64) : Text :=
  "pub const " ++ c.name ++ ": u64 = " ++ HexLiteral.text v ++ ";"

def sourceLines (c : Constant) : List Text := ["", docMark ++ "Source file: " ++ c.sourceFile]

def constantLines (d : Document) (c : Constant) : Except Unresolved (List Text) := do
  let v ← c.requireValue
  pure (sourceLines c
    ++ (if d.verbose then definitionLines c else [])
    ++ ((d.probeOutput? c.name).map probeLines).getD []
    ++ [declaration c v])

def emit (d : Document) : Except Unresolved Text := do
  let constants ← d.constants.mapM (constantLines d)
  pure (unlines (banner ++ d.headers.flatMap copyrightLines ++ [allowLine] ++ constants.flatten))

end HeaderConstants.Emit.Rust
