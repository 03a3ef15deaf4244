import HeaderConstants.Numeral.Digits

/-!
# Hexadecimal literals of 64-bit values

A value is written as `0x` and capital digits, padded with zeros to eight. Reading takes `0x` or
`0X`, then digits of either case; one plus sign may stand before the digits, and the value has to
be below `2 ^ 64`.

* `HexLiteral.text`: the literal of a value;
* `HexLiteral.read?`, `HexLiteral.parse`: the value of a literal, without and with the failure.
-/

namespace HeaderConstants.HexLiteral
set_option autoImplicit false

/-- The least number of digits, at least eight, that holds the value. -/
def width (v : UInt64) : Nat := max 8 (Nat.log2 v.toNat / 4 + 1)

def text (v : UInt64) : Text := '0' :: 'x' :: Numeral.write 16 (width v) v.toNat

def digits? : Text → Option Text
  | '0' :: 'x' :: digits => some digits
  | '0' :: 'X' :: digits => some digits
  | _ => none

def unsigned : Text → Text
  | '+' :: digits => digits
  | digits => digits

def read? (t : Text) : Option UInt64 := do
  let digits ← digits? t
  let n ← Numeral.read? 16 (unsigned digits)
  if n < UInt64.size then some (UInt64.ofNat n) else none

def unreadableMessage (t : Text) : Text := "not a hex literal: '" ++ t ++ "'"

/-- A text that was refused. -/
structure Unreadable where
  text : Text
  deriving DecidableEq, Repr

def Unreadable.message (e : Unreadable) : Text := unreadableMessage e.text

def parse (t : Text) : Except Unreadable UInt64 :=
  match read? t with
  | some v => .ok v
  | none => .error ⟨t⟩

end HeaderConstants.HexLiteral
