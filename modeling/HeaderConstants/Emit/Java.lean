import HeaderConstants.Emit.Document

/-!
# Java

One public interface that holds every constant as a `long`, each under a documentation comment with
its source; the verbose form adds the definition, the substitutions and the compiler's outputs.
-/

namespace HeaderConstants.Emit.Java
set_option autoImplicit false

def commentMark : Text := "     * "

def blankComment : Text := "     *"

def banner (typeName : Text) : List Text :=
  ["/**", " * " ++ typeName ++ ".java", " *",
    " * This file is automatically generated by constgen from the contents of",
    " * NSS's pkcs11t.h and pkcs11n.h headers. Do not edit it by hand;",
    " * regenerate it from the headers instead.", " *",
    " * Below are the copyright statements for the sourced files:", " */"]

def copyrightText (h : HeaderCopyright) : Text :=
  "/* Copyright statements from " ++ h.fileName ++ " */\n" ++ h.text

def stepLines (s : ResolutionStep) : List Text :=
  [commentMark ++ "Resolution step: in [" ++ s.expression ++ "]",
    commentMark ++ "  replaced [" ++ s.symbol ++ "] with [" ++ s.replacement ++ "]"]

def traceLines (trace : List ResolutionStep) : List Text :=
  if trace.isEmpty then [] else blankComment :: trace.flatMap stepLines

def definitionLines (c : Constant) : List Text :=
  [commentMark ++ "Line number: " ++ Text.decimal c.sourceLine, commentMark ++ "Line: " ++ c.line,
    commentMark ++ "Parsed name: " ++ c.name, commentMark ++ "Parsed value: " ++ c.rawValue]
    ++ traceLines c.trace

def streamLines (title output : Text) : List Text :=
  if output.isEmpty then []
  else blankComment :: (commentMark ++ title) :: commentLines commentMark output

def probeLines (o : ProbeOutput) : List Text :=
  streamLines "check stdout:" o.stdout ++ streamLines "check stderr:" o.stderr

/-- The lines of a constant's documentation between its first and its last. -/
def docLines (d : Document) (c : Constant) : List Text :=
  [commentMark ++ "Content automatically generated; see NSS documentation for more information.",
    blankComment, commentMark ++ "Source file: " ++ c.sourceFile]
    ++ (if d.verbose then definitionLines c else [])
    ++ ((d.probeOutput? c.name).map probeLines).getD []

def docOpening : List Text := ["", "    /**"]

def docClosing : Text := "     */"

def declaration (c : Constant) (v : UInt64) : Text :=
  "    public static final long " ++ c.name ++ " = " ++ HexLiteral.text v ++ "L;"

def constantLines (d : Document) (c : Constant) : Except Unresolved (List Text) := do
  let v ← c.requireValue
  pure (docOpening ++ docLines d c ++ [docClosing, declaration c v])

def emit (package typeName : Text) (d : Document) : Except Unresolved Text := do
  let constants ← d.constants.mapM (constantLines d)
  pure (unlines (banner typeName)
    ++ d.headers.flatMap copyrightText
    ++ unlines ["package " ++ package ++ ";", "", "public interface " ++ typeName ++ " \x7b"]
    ++ unlines constants.flatten
    ++ unlines ["\x7d"])

end HeaderConstants.Emit.Java
