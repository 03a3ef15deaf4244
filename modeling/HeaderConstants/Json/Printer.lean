import HeaderConstants.Json.Basic

/-!
# Writing JSON

Texts are quoted with escapes for the quote, the backslash and the control characters only. The
compact form has no blanks; the indented form puts every item and member on a line of its own, two
spaces deeper than what holds it, and writes empty lists and objects without a break.
-/

namespace HeaderConstants.Json
set_option autoImplicit false

def lowerHexDigit (d : Nat) : Char :=
  if d < 10 then Char.ofNat ('0'.toNat + d) else Char.ofNat ('a'.toNat + (d - 10))

def escaped (c : Char) : Text :=
  match c with
  | '"' => ['\\', '"']
  | '\\' => ['\\', '\\']
  | '\x08' => ['\\', 'b']
  | '\x0c' => ['\\', 'f']
  | '\n' => ['\\', 'n']
  | '\r' => ['\\', 'r']
  | '\t' => ['\\', 't']
  | c =>
    if c.toNat < 0x20 then
      ['\\', 'u', '0', '0', lowerHexDigit (c.toNat / 16), lowerHexDigit (c.toNat % 16)]
    else [c]

def quoted (t : Text) : Text := '"' :: t.flatMap escaped ++ ['"']

def Number.print (n : Number) : Text :=
  (if n.negative then ['-'] else []) ++ n.whole
    ++ (if n.fraction.isEmpty then [] else '.' :: n.fraction)
    ++ (match n.exponent with
        | none => []
        | some e => 'e' :: Text.signedDecimal e)

/-! ## Compact -/

mutual

def compact : Json → Text
  | .null => ['n', 'u', 'l', 'l']
  | .bool true => ['t', 'r', 'u', 'e']
  | .bool false => ['f', 'a', 'l', 's', 'e']
  | .number n => n.print
  | .string t => quoted t
  | .array items => '[' :: compactItems items ++ [']']
  | .object members => '{' :: compactMembers members ++ ['}']

def compactItems : List Json → Text
  | [] => []
  | [item] => compact item
  | item :: next :: more => compact item ++ ',' :: compactItems (next :: more)

def compactMembers : List (Text × Json) → Text
  | [] => []
  | [(key, value)] => quoted key ++ ':' :: compact value
  | (key, value) :: next :: more =>
    quoted key ++ ':' :: compact value ++ ',' :: compactMembers (next :: more)

end

/-! ## Indented -/

def newline (depth : Nat) : Text := '\n' :: List.replicate (2 * depth) ' '

mutual

def indented (depth : Nat) : Json → Text
  | .null => ['n', 'u', 'l', 'l']
  | .bool true => ['t', 'r', 'u', 'e']
  | .bool false => ['f', 'a', 'l', 's', 'e']
  | .number n => n.print
  | .string t => quoted t
  | .array [] => ['[', ']']
  | .array (item :: more) =>
    '[' :: indentedItems (depth + 1) (item :: more) ++ newline depth ++ [']']
  | .object [] => ['{', '}']
  | .object (member :: more) =>
    '{' :: indentedMembers (depth + 1) (member :: more) ++ newline depth ++ ['}']

def indentedItems (depth : Nat) : List Json → Text
  | [] => []
  | [item] => newline depth ++ indented depth item
  | item :: next :: more =>
    newline depth ++ indented depth item ++ ',' :: indentedItems depth (next :: more)

def indentedMembers (depth : Nat) : List (Text × Json) → Text
  | [] => []
  | [(key, value)] => newline depth ++ quoted key ++ ':' :: ' ' :: indented depth value
  | (key, value) :: next :: more =>
    newline depth ++ quoted key ++ ':' :: ' ' :: indented depth value
      ++ ',' :: indentedMembers depth (next :: more)

end

def pretty (j : Json) : Text := indented 0 j

end HeaderConstants.Json
