import HeaderConstants.Script.Arithmetic

/-!
# Formatted output

Escapes as the printing commands of a script understand them, and formats with directives for texts
and integers, used again as long as arguments are left.

* `Script.echoed`: the text of an `echo`;
* `Script.Printf.formatted`: the text of a `printf`, and what it has to complain of.
-/

namespace HeaderConstants.Script
set_option autoImplicit false

def isOctalDigit (c : Char) : Bool := '0' ≤ c && c ≤ '7'

/-- Up to three octal digits, as one byte. -/
def octal (t : Text) : Char × Text :=
  let digits := (t.takeWhile isOctalDigit).take 3
  (Char.ofNat ((Numeral.readFrom? 8 0 digits).getD 0 % 256), t.drop digits.length)

def letterEscape? : Char → Option Char
  | 'a' => some '\x07'
  | 'b' => some '\x08'
  | 'e' => some '\x1b'
  | 'f' => some '\x0c'
  | 'n' => some '\n'
  | 'r' => some '\r'
  | 't' => some '\t'
  | 'v' => some '\x0b'
  | '\\' => some '\\'
  | _ => none

/-- The character of an escape after its backslash; an escape of no meaning is a backslash, and
nothing of what follows is taken. -/
def escape (t : Text) : Char × Text :=
  match t with
  | c :: rest =>
    if isOctalDigit c then octal t
    else
      match letterEscape? c with
      | some d => (d, rest)
      | none => ('\\', t)
  | [] => ('\\', [])

/-- Escapes of arguments: octal digits may follow a zero, and `\c` ends the output. -/
def unescaped : Nat → Text → Text × Bool
  | 0, _ => ([], false)
  | _ + 1, [] => ([], false)
  | fuel + 1, '\\' :: rest =>
    match rest with
    | 'c' :: _ => ([], true)
    | '0' :: digits =>
      let (c, rest) := octal digits
      let (t, stop) := unescaped fuel rest
      (c :: t, stop)
    | rest =>
      let (c, rest) := escape rest
      let (t, stop) := unescaped fuel rest
      (c :: t, stop)
  | fuel + 1, c :: rest =>
    let (t, stop) := unescaped fuel rest
    (c :: t, stop)

def echoed (arguments : List Text) : Text :=
  let silent := arguments.head? = some ['-', 'n']
  let t := Text.joined [' '] (if silent then arguments.drop 1 else arguments)
  let (t, stop) := unescaped (t.length + 1) t
  if silent || stop then t else t ++ ['\n']

namespace Printf

/-! ## Directives -/

/-- A size in a directive: none, a number, or the next argument. -/
inductive Size where
  | missing
  | fixed (n : Nat)
  | given
  deriving DecidableEq, Repr

structure Directive where
  flags : Text
  width : Size
  precision : Size
  conversion : Char
  deriving DecidableEq, Repr

def size (t : Text) : Size × Text :=
  match t with
  | '*' :: rest => (.given, rest)
  | t =>
    let digits := t.takeWhile Char.isDigit
    if digits.isEmpty then (.missing, t)
    else (.fixed ((Numeral.read? 10 digits).getD 0), t.drop digits.length)

def isFlag (c : Char) : Bool := c = '#' || c = '-' || c = '+' || c = ' ' || c = '0'

/-- The directive after a percent sign, if a conversion is there. -/
def directive? (t : Text) : Option (Directive × Text) :=
  let flags := t.takeWhile isFlag
  let (width, rest) := size (t.drop flags.length)
  let (precision, rest) :=
    match rest with
    | '.' :: rest =>
      match size rest with
      | (.missing, rest) => (.fixed 0, rest)
      | found => found
    | rest => (.missing, rest)
  match rest with
  | c :: rest => some (⟨flags, width, precision, c⟩, rest)
  | [] => none

/-! ## Output -/

/-- What has been written, the arguments that are left, the complaints, and whether the output has
ended, by an escape or by a fault. -/
structure State where
  output : Text
  arguments : List Text
  complaints : List Text
  isStopped : Bool
  isFaulty : Bool
  deriving DecidableEq, Repr

namespace State

def write (s : State) (t : Text) : State := { s with output := s.output ++ t }

def complain (s : State) (message : Text) : State :=
  { s with complaints := s.complaints ++ [message] }

def fail (s : State) (message : Text) : State :=
  { s.complain message with isStopped := true, isFaulty := true }

def take (s : State) : Option Text × State :=
  (s.arguments.head?, { s with arguments := s.arguments.drop 1 })

/-- The longest start of a text that is an integer, and whether that is all of it. -/
def readInteger (t : Text) : Option Int × Bool :=
  match integer? t with
  | some i => (some i, t.getLast?.all fun c => !isBlank c)
  | none =>
    let starts := (List.range t.length).reverse.map t.take
    (starts.findSome? fun (start : Text) =>
      if start.getLast?.any isBlank then none else integer? start, false)

def outOfRange : Text := "Numerical result out of range"

/-- The integer of the next argument: a quote stands for the number of the character after it. -/
def takeInteger (isSigned : Bool) (s : State) : Int × State :=
  let (argument, s) := s.take
  match argument with
  | none | some [] => (0, s)
  | some (c :: t) =>
    if c = '"' || c = '\'' then ((t.head?.map fun d : Char => (d.toNat : Int)).getD 0, s)
    else
      let whole : Text := c :: t
      match readInteger whole with
      | (none, _) => (0, s.complain (whole ++ ": expected numeric value"))
      | (some i, isWhole) =>
        let least : Int := if isSigned then -0x8000000000000000 else -0xFFFFFFFFFFFFFFFF
        let most : Int := if isSigned then 0x7FFFFFFFFFFFFFFF else 0xFFFFFFFFFFFFFFFF
        let bounded := if i < least then (if isSigned then least else most) else min i most
        if !isWhole then (bounded, s.complain (whole ++ ": not completely converted"))
        else if i < least ∨ most < i then (bounded, s.complain (whole ++ ": " ++ outOfRange))
        else (i, s)

/-- The number of a size, with a negative width as a flag. -/
def takeSize (s : State) : Size → Option Int × State
  | .missing => (none, s)
  | .fixed n => (some n, s)
  | .given =>
    let (i, s) := s.takeInteger true
    (some i, s)

end State

def fill (flags : Text) (width : Nat) (t : Text) : Text :=
  let gap := List.replicate (width - t.length) ' '
  if flags.contains '-' then t ++ gap else gap ++ t

def unsigned (i : Int) : Nat := (i % Expr.wordCount).toNat

/-- The sign or mark before the digits of an integer, and its digits. -/
def integerParts (flags : Text) (conversion : Char) (i : Int) : Text × Text :=
  let marked := flags.contains '#' && i ≠ 0
  match conversion with
  | 'x' => (if marked then "0x" else [], Nat.toDigits 16 (unsigned i))
  | 'X' => (if marked then "0X" else [], (Nat.toDigits 16 (unsigned i)).map Char.toUpper)
  | 'o' => (if marked then "0" else [], Nat.toDigits 8 (unsigned i))
  | 'u' => ([], Text.decimal (unsigned i))
  | _ =>
    (if i < 0 then "-" else if flags.contains '+' then "+" else if flags.contains ' ' then " "
      else [], Text.decimal i.natAbs)

def integerText (flags : Text) (width : Nat) (precision : Option Nat) (conversion : Char)
    (i : Int) : Text :=
  let (mark, digits) := integerParts flags conversion i
  let digits := if precision = some 0 ∧ i = 0 then [] else digits
  let least :=
    match precision with
    | some n => n
    | none =>
      if flags.contains '0' && !flags.contains '-' then width - mark.length else 0
  fill flags width (mark ++ List.replicate (least - digits.length) '0' ++ digits)

def isIntegerConversion (c : Char) : Bool :=
  c = 'd' || c = 'i' || c = 'o' || c = 'u' || c = 'x' || c = 'X'

/-- Writes what a directive asks for. -/
def perform (d : Directive) (shown : Text) (s : State) : State :=
  let (width, s) := s.takeSize d.width
  let (precision, s) := s.takeSize d.precision
  let flags := if width.any (· < 0) then '-' :: d.flags else d.flags
  let width := (width.getD 0).natAbs
  let precision := precision.bind fun n => if n < 0 then none else some n.toNat
  let cut := fun t : Text => (precision.map t.take).getD t
  if d.conversion = 's' then
    let (t, s) := s.take
    s.write (fill flags width (cut (t.getD [])))
  else if d.conversion = 'b' then
    let (t, s) := s.take
    let given := t.getD []
    let (t, stop) := unescaped (given.length + 1) given
    { s.write (fill flags width (cut t)) with isStopped := stop }
  else if d.conversion = 'c' then
    let (t, s) := s.take
    s.write (fill flags width [((t.getD []).head?).getD '\x00'])
  else if isIntegerConversion d.conversion then
    let (i, s) := s.takeInteger (d.conversion = 'd' || d.conversion = 'i')
    s.write (integerText flags width precision d.conversion i)
  else s.fail ('%' :: shown ++ ": invalid directive")

/-- One use of a format. -/
def once : Nat → Text → State → State
  | 0, _, s => s
  | fuel + 1, format, s =>
    if s.isStopped then s
    else
      match format with
      | [] => s
      | '\\' :: rest =>
        let (c, rest) := escape rest
        once fuel rest (s.write [c])
      | '%' :: '%' :: rest => once fuel rest (s.write ['%'])
      | '%' :: rest =>
        match directive? rest with
        | some (d, after) =>
          once fuel after (perform d (rest.take (rest.length - after.length)) s)
        | none => s.fail "missing format character"
      | c :: rest => once fuel rest (s.write [c])

def again (format : Text) : Nat → State → State
  | 0, s => s
  | fuel + 1, s =>
    let left := s.arguments.length
    let s := once (format.length + 1) format s
    if s.isStopped || s.arguments.isEmpty || s.arguments.length = left then s
    else again format fuel s

/-- The end of a `printf` of a format with arguments. -/
def formatted (format : Text) (arguments : List Text) : State :=
  again format (arguments.length + 1) ⟨[], arguments, [], false, false⟩

def State.status (s : State) : Nat :=
  if s.isFaulty then 2 else if s.complaints.isEmpty then 0 else 1

end Printf

end HeaderConstants.Script
