import HeaderConstants.Text.Basic

/-!
# UTF-8

Byte counts and byte offsets of a text, and its bytes. Reading bytes cuts them into well-formed
characters and maximal ill-formed parts; strict reading allows no ill-formed part, tolerant reading
puts the replacement character for each.

* `Text.byteLength`, `Text.dropBytes?`: counts and offsets in bytes;
* `Text.toBytes`, `Text.ofBytes?`, `Text.ofBytesTolerant`: writing and the two readings.
-/

namespace HeaderConstants
set_option autoImplicit false

abbrev Bytes := List UInt8

namespace Text

def byteLength : Text → Nat
  | [] => 0
  | c :: rest => c.utf8Size + byteLength rest

/-- What follows the first `n` bytes; nothing past the end or inside a character. -/
def dropBytes? : Nat → Text → Option Text
  | 0, t => some t
  | _ + 1, [] => none
  | n + 1, c :: rest =>
    if c.utf8Size ≤ n + 1 then dropBytes? (n + 1 - c.utf8Size) rest else none

def toBytes (t : Text) : Bytes := t.flatMap String.utf8EncodeChar

end Text

namespace Utf8

/-- A character of which some bytes are still owed: the next byte lies between `low` and `high`. -/
structure Unfinished where
  value : Nat
  owed : Nat
  low : Nat
  high : Nat
  deriving DecidableEq, Repr

inductive Step where
  | character (c : Char)
  | more (u : Unfinished)
  | illFormed
  deriving DecidableEq, Repr

/-- What a byte means that stands first. -/
def leading (b : Nat) : Step :=
  if b < 0x80 then .character (Char.ofNat b)
  else if b < 0xC2 then .illFormed
  else if b < 0xE0 then .more ⟨b - 0xC0, 1, 0x80, 0xBF⟩
  else if b = 0xE0 then .more ⟨0, 2, 0xA0, 0xBF⟩
  else if b = 0xED then .more ⟨0xD, 2, 0x80, 0x9F⟩
  else if b < 0xF0 then .more ⟨b - 0xE0, 2, 0x80, 0xBF⟩
  else if b = 0xF0 then .more ⟨0, 3, 0x90, 0xBF⟩
  else if b < 0xF4 then .more ⟨b - 0xF0, 3, 0x80, 0xBF⟩
  else if b = 0xF4 then .more ⟨4, 3, 0x80, 0x8F⟩
  else .illFormed

/-- What a byte means that follows an unfinished character. -/
def following (u : Unfinished) (b : Nat) : Step :=
  if u.low ≤ b ∧ b ≤ u.high then
    let value := u.value * 64 + (b - 0x80)
    if u.owed = 1 then .character (Char.ofNat value)
    else .more ⟨value, u.owed - 1, 0x80, 0xBF⟩
  else .illFormed

/-- The characters in order, `none` for each maximal ill-formed part. -/
def pieces : Option Unfinished → Bytes → List (Option Char)
  | none, [] => []
  | some _, [] => [none]
  | none, b :: rest =>
    match leading b.toNat with
    | .character c => some c :: pieces none rest
    | .more u => pieces (some u) rest
    | .illFormed => none :: pieces none rest
  | some u, b :: rest =>
    match following u b.toNat with
    | .character c => some c :: pieces none rest
    | .more v => pieces (some v) rest
    | .illFormed =>
      none ::
        match leading b.toNat with
        | .character c => some c :: pieces none rest
        | .more v => pieces (some v) rest
        | .illFormed => none :: pieces none rest

end Utf8

namespace Text

def ofBytes? (bytes : Bytes) : Option Text := (Utf8.pieces none bytes).mapM id

def ofBytesTolerant (bytes : Bytes) : Text :=
  (Utf8.pieces none bytes).map (·.getD (Char.ofNat 0xFFFD))

end Text

end HeaderConstants
