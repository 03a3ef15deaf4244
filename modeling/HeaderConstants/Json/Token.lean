import HeaderConstants.Json.Basic
import HeaderConstants.Numeral.Digits

/-!
# Tokens of JSON

The punctuation, the three words, numbers and quoted texts. A quoted text is kept as its characters
and the 16-bit units that its escapes name: only when it is used as a text do the units have to form
characters.

* `Json.quotedParts?`: a quoted text after its opening quote;
* `Json.number?`: a number;
* `Json.tokens?`: all tokens of a text;
* `Json.partsText?`: the text that characters and units form.
-/

namespace HeaderConstants.Json
set_option autoImplicit false

inductive Part where
  | char (c : Char)
  | unit (n : Nat)
  deriving DecidableEq, Repr

inductive Token where
  | openBracket
  | closeBracket
  | openBrace
  | closeBrace
  | comma
  | colon
  | null
  | bool (value : Bool)
  | number (value : Number)
  | quoted (parts : List Part)
  deriving DecidableEq, Repr

def isSpace (c : Char) : Bool := c = ' ' || c = '\t' || c = '\n' || c = '\r'

/-! ## Quoted texts -/

/-- The character of a one-letter escape. -/
def escapeChar? : Char → Option Char
  | '"' => some '"'
  | '\\' => some '\\'
  | '/' => some '/'
  | 'b' => some '\x08'
  | 'f' => some '\x0c'
  | 'n' => some '\n'
  | 'r' => some '\r'
  | 't' => some '\t'
  | _ => none

def quotedParts? : Text → Option (List Part × Text)
  | [] => none
  | '"' :: rest => some ([], rest)
  | '\\' :: 'u' :: a :: b :: c :: d :: rest => do
    let n ← Numeral.read? 16 [a, b, c, d]
    let (parts, rest') ← quotedParts? rest
    pure (.unit n :: parts, rest')
  | '\\' :: e :: rest => do
    let c ← escapeChar? e
    let (parts, rest') ← quotedParts? rest
    pure (.char c :: parts, rest')
  | c :: rest =>
    if c = '\\' ∨ c.toNat < 0x20 then none
    else do
      let (parts, rest') ← quotedParts? rest
      pure (.char c :: parts, rest')

def isHighSurrogate (n : Nat) : Bool := 0xD800 ≤ n && n < 0xDC00

def isLowSurrogate (n : Nat) : Bool := 0xDC00 ≤ n && n < 0xE000

/-- Units that are surrogates have to come in pairs, the high one first. -/
def partsText? : List Part → Option Text
  | [] => some []
  | .char c :: parts => (partsText? parts).map (c :: ·)
  | [.unit n] =>
    if isHighSurrogate n || isLowSurrogate n then none else some [Char.ofNat n]
  | .unit n :: next :: parts =>
    if isLowSurrogate n then none
    else if isHighSurrogate n then
      match next with
      | .char _ => none
      | .unit m =>
        if isLowSurrogate m then
          (partsText? parts).map
            (Char.ofNat (0x10000 + (n - 0xD800) * 0x400 + (m - 0xDC00)) :: ·)
        else none
    else (partsText? (next :: parts)).map (Char.ofNat n :: ·)

/-! ## Numbers -/

/-- The digits before the point: one zero, or a run that starts with another digit. -/
def wholeDigits? : Text → Option (Text × Text)
  | '0' :: rest => some (['0'], rest)
  | c :: rest =>
    if c.isDigit then some (c :: rest.takeWhile Char.isDigit, rest.dropWhile Char.isDigit) else none
  | [] => none

def digitRun? (t : Text) : Option (Text × Text) :=
  let digits := t.takeWhile Char.isDigit
  if digits.isEmpty then none else some (digits, t.dropWhile Char.isDigit)

def fraction? : Text → Option (Text × Text)
  | '.' :: rest => digitRun? rest
  | rest => some ([], rest)

def exponentDigits? (negative : Bool) (t : Text) : Option (Option Int × Text) := do
  let (digits, rest) ← digitRun? t
  let n ← Numeral.read? 10 digits
  pure (some (if negative then -(n : Int) else n), rest)

def exponent? : Text → Option (Option Int × Text)
  | e :: rest =>
    if e = 'e' ∨ e = 'E' then
      match rest with
      | '+' :: rest => exponentDigits? false rest
      | '-' :: rest => exponentDigits? true rest
      | rest => exponentDigits? false rest
    else some (none, e :: rest)
  | [] => some (none, [])

def unsignedNumber? (negative : Bool) (t : Text) : Option (Number × Text) := do
  let (whole, rest) ← wholeDigits? t
  let (fraction, rest) ← fraction? rest
  let (exponent, rest) ← exponent? rest
  pure (⟨negative, whole, fraction, exponent⟩, rest)

def number? : Text → Option (Number × Text)
  | '-' :: rest => unsignedNumber? true rest
  | t => unsignedNumber? false t

/-! ## All tokens -/

def punctuation? : Char → Option Token
  | '[' => some .openBracket
  | ']' => some .closeBracket
  | '{' => some .openBrace
  | '}' => some .closeBrace
  | ',' => some .comma
  | ':' => some .colon
  | _ => none

/-- The first token of a text that does not start with a space, and what follows it. -/
def token? : Text → Option (Token × Text)
  | [] => none
  | 'n' :: 'u' :: 'l' :: 'l' :: rest => some (.null, rest)
  | 't' :: 'r' :: 'u' :: 'e' :: rest => some (.bool true, rest)
  | 'f' :: 'a' :: 'l' :: 's' :: 'e' :: rest => some (.bool false, rest)
  | '"' :: rest => (quotedParts? rest).map fun (parts, rest') => (.quoted parts, rest')
  | c :: rest =>
    match punctuation? c with
    | some token => some (token, rest)
    | none => (number? (c :: rest)).map fun (n, rest') => (.number n, rest')

/-- All tokens; the number bounds them, and the length of the text is enough of it. -/
def tokensWithin? : Nat → Text → Option (List Token)
  | _, [] => some []
  | 0, _ :: _ => none
  | fuel + 1, c :: rest =>
    if isSpace c then tokensWithin? fuel rest
    else
      match token? (c :: rest) with
      | none => none
      | some (token, rest') => (tokensWithin? fuel rest').map (token :: ·)

def tokens? (t : Text) : Option (List Token) := tokensWithin? t.length t

end HeaderConstants.Json
