import HeaderConstants.Text.Utf8

/-!
# Control sequences of a terminal

A terminal takes some characters as orders: single controls, and sequences that an escape character
begins. Without its orders a text has the printing characters and, of the controls, those that move
to the next line or column.

* `Text.Terminal.Mode.next`: the place in a sequence after a character that is not shown;
* `Text.Terminal.Reader.feed`: one character;
* `Text.withoutOrders`: the characters of a text that are shown.
-/

namespace HeaderConstants.Text
set_option autoImplicit false

namespace Terminal

def escapeCharacter : Char := '\x1b'

/-- Controls that move to the next line or column. -/
def isMove (c : Char) : Bool := c = '\t' || c = '\n' || c = '\x0c' || c = '\r'

/-- Characters that are shown outside of sequences. -/
def isPrinted (c : Char) : Bool := isMove c || (0x20 ≤ c.toNat && c.toNat ≠ 0x7F)

def isAscii (c : Char) : Bool := c.toNat ≤ 0x7F

/-- A place in a sequence: after the escape character, in the short sequences and the control
sequences that it begins, at the head of a device string with its parameters, or inside a string,
which for a system command is ended by a bell as well. -/
inductive Mode where
  | outside
  | escape
  | short
  | control
  | device
  | deviceParameter
  | deviceShort
  | string
  | systemString
  deriving DecidableEq, Repr

def stringTerminator : UInt8 := 0x9C

/-- Ranges of ASCII: the marks before the last character of a sequence, the parameters, and the
characters that end a sequence. -/
def isMark (c : Char) : Bool := 0x20 ≤ c.toNat && c.toNat ≤ 0x2F

def isParameter (c : Char) : Bool := 0x30 ≤ c.toNat && c.toNat ≤ 0x3F

def isFinal (c : Char) : Bool := 0x40 ≤ c.toNat && c.toNat ≤ 0x7E

def Mode.afterEscape (c : Char) : Mode :=
  if isMark c then .short
  else if c = '[' then .control
  else if c = ']' then .systemString
  else if c = 'P' then .device
  else if c = 'X' || c = '^' || c = '_' then .string
  else if isParameter c || isFinal c then .outside
  else .escape

def Mode.inDevice (mode : Mode) (c : Char) : Mode :=
  if isFinal c then .string
  else if isMark c then .deviceShort
  else if isParameter c then
    match mode with
    | .device => .deviceParameter
    | .deviceParameter => if c.toNat ≤ 0x3B then .deviceParameter else .string
    | _ => .string
  else mode

/-- The place after a character that is not shown. Two controls give a sequence up everywhere. -/
def Mode.next (mode : Mode) (c : Char) : Mode :=
  if c = escapeCharacter then .escape
  else if c = '\x18' || c = '\x1a' then .outside
  else
    match mode with
    | .outside => .outside
    | .escape => afterEscape c
    | .short => if isParameter c || isFinal c then .outside else .short
    | .control => if isFinal c then .outside else .control
    | .string => if (String.utf8EncodeChar c).contains stringTerminator then .outside else .string
    | .systemString => if c = '\x07' then .outside else .systemString
    | mode => mode.inDevice c

/-- Moves are shown also before the end of a sequence, but not in a string or at its head. -/
def Mode.shows (mode : Mode) (c : Char) : Bool :=
  match mode with
  | .outside => isPrinted c
  | .escape | .short | .control => isMove c
  | _ => false

/-- A place in a sequence, and whether the last character was shown. -/
structure Reader where
  mode : Mode
  isShowing : Bool
  deriving DecidableEq, Repr

namespace Reader

def start : Reader := ⟨.outside, false⟩

/-- Takes a character and says whether it is shown. A move in a sequence interrupts it: what is
printed after the move is shown too, and the sequence goes on at the first character that is not,
unless a character beyond ASCII has ended it. -/
def feed (r : Reader) (c : Char) : Reader × Bool :=
  if r.isShowing && isPrinted c then (⟨if isAscii c then r.mode else .outside, true⟩, true)
  else if r.mode.shows c then (⟨r.mode, true⟩, true)
  else (⟨r.mode.next c, false⟩, false)

def shown : Reader → Text → Text
  | _, [] => []
  | r, c :: rest =>
    let (r', isShown) := r.feed c
    if isShown then c :: shown r' rest else shown r' rest

end Reader

end Terminal

def withoutOrders (t : Text) : Text := Terminal.Reader.start.shown t

end HeaderConstants.Text
