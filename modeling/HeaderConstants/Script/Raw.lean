import HeaderConstants.Text.Basic
import HeaderConstants.Text.Utf8

/-!
# Raw text

Scripts and the small programs that they run work on bytes. A raw text has one character for each
byte, so that the functions on texts serve for bytes as well.

Like all of `Script`, this belongs to the outer layer that only runs programs (`Script.Host`).
-/

namespace HeaderConstants.Script
set_option autoImplicit false

/-- Bytes as characters of the same number. -/
def raw (bytes : Bytes) : Text := bytes.map fun b => Char.ofNat b.toNat

def rawBytes (t : Text) : Bytes := t.map fun c => UInt8.ofNat c.toNat

/-- The text of which a raw text holds the bytes. -/
def ofRaw (t : Text) : Text := Text.ofBytesTolerant (rawBytes t)

def toRaw (t : Text) : Text := raw t.toBytes

/-- The text up to a character, and what follows that. -/
def upTo? (stop : Char) (t : Text) : Option (Text × Text) :=
  match t.dropWhile (· ≠ stop) with
  | [] => none
  | _ :: rest => some (t.takeWhile (· ≠ stop), rest)

end HeaderConstants.Script
