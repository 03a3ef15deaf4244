import HeaderConstants.Text.Basic

/-!
# Digits

Positional numerals in a base from two to sixteen. Reading takes both cases of a letter digit;
writing gives capitals and as many digits as are asked for.

* `Numeral.digit?`, `Numeral.read?`: the value of a digit and of a nonempty run of digits;
* `Numeral.write`: the last digits of a number, most significant first.
-/

namespace HeaderConstants.Numeral
set_option autoImplicit false

def digitValue? (c : Char) : Option Nat :=
  if '0' ≤ c ∧ c ≤ '9' then some (c.toNat - '0'.toNat)
  else if 'a' ≤ c ∧ c ≤ 'f' then some (c.toNat - 'a'.toNat + 10)
  else if 'A' ≤ c ∧ c ≤ 'F' then some (c.toNat - 'A'.toNat + 10)
  else none

def digit? (base : Nat) (c : Char) : Option Nat := (digitValue? c).filter (· < base)

/-- Reads on from the value of the digits so far. -/
def readFrom? (base : Nat) : Nat → Text → Option Nat
  | value, [] => some value
  | value, c :: rest =>
    match digit? base c with
    | some d => readFrom? base (value * base + d) rest
    | none => none

def read? (base : Nat) (t : Text) : Option Nat := if t.isEmpty then none else readFrom? base 0 t

def digitChar (d : Nat) : Char :=
  if d < 10 then Char.ofNat ('0'.toNat + d) else Char.ofNat ('A'.toNat + (d - 10))

def write (base : Nat) : Nat → Nat → Text
  | 0, _ => []
  | width + 1, n => write base width (n / base) ++ [digitChar (n % base)]

theorem length_write (base width n : Nat) : (write base width n).length = width := by
  induction width generalizing n with
  | zero => rfl
  | succ width ih => simp [write, ih]

end HeaderConstants.Numeral
