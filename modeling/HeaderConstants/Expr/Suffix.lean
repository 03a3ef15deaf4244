import HeaderConstants.Text.Pattern

/-!
# Literal suffixes

A literal may carry the letters of an unsigned or long type. A suffixed literal is found between two
word boundaries: hexadecimal digits after `0x` or `0X`, or decimal digits, then `u` or `U` with an
optional `l`, `L`, `ll` or `LL` after it, or one of these with an optional `u` or `U` after it. Its
suffix is dropped, and everything else stays.
-/

namespace HeaderConstants.Expr
set_option autoImplicit false

open Text (Pattern Cursor)

namespace Suffix

def isHexDigit (c : Char) : Bool :=
  c.isDigit || ('a' ≤ c && c ≤ 'f') || ('A' ≤ c && c ≤ 'F')

def literal : Pattern :=
  .either
    (.andThen (.char '0') (.andThen (.one (fun c => c = 'x' || c = 'X')) (.many1 isHexDigit)))
    (.many1 Char.isDigit)

def unsigned : Pattern := .one (fun c => c = 'u' || c = 'U')

def long : Pattern :=
  .either (.andThen (.char 'l') (.char 'l'))
    (.either (.andThen (.char 'L') (.char 'L')) (.one (fun c => c = 'l' || c = 'L')))

def suffix : Pattern :=
  .either (.andThen unsigned (.optional long)) (.andThen long (.optional unsigned))

/-- The ends of the literal and of its suffix, where a suffixed literal starts here. -/
def match? (start : Cursor) : Option (Cursor × Cursor) :=
  (Pattern.andThen .boundary literal).run
    (fun afterLiteral =>
      (Pattern.andThen suffix .boundary).run (fun afterSuffix => some (afterLiteral, afterSuffix))
        afterLiteral)
    start

/-- Drops the suffixes from the left; the number counts the characters of the last match that are
still to be passed over. -/
def stripFrom : Option Char → Nat → Text → Text
  | _, _, [] => []
  | _, skip + 1, c :: rest => stripFrom (some c) skip rest
  | before, 0, c :: rest =>
    match match? ⟨before, c :: rest⟩ with
    | some (afterLiteral, afterSuffix) =>
      (c :: rest).take (rest.length + 1 - afterLiteral.rest.length) ++
        stripFrom (some c) (rest.length - afterSuffix.rest.length) rest
    | none => c :: stripFrom (some c) 0 rest

end Suffix

def stripSuffixes (t : Text) : Text := Suffix.stripFrom none 0 t

end HeaderConstants.Expr
