import HeaderConstants.Json.Tree

/-!
# The value of a JSON text

A text has a value if it is well formed, is nested at most 127 deep, and all its texts and numbers
have a value: texts are made of characters, and numbers do not go beyond the floating-point numbers
of 64 bits.

* `Json.Number.isFinite`: the number is in range;
* `Json.Tree.value?`: the value of a tree;
* `Json.ofText?`: the value of a text.
-/

namespace HeaderConstants.Json
set_option autoImplicit false

/-! ## The range of numbers -/

namespace Number

/-- The digits of a number as a significand below `2 ^ 64` and a decimal exponent. -/
structure Scaled where
  significand : Nat
  exponent : Int
  deriving DecidableEq, Repr

def digit (c : Char) : Nat := c.toNat - '0'.toNat

/-- Takes up the digits before the point; those from the first that does not fit on only scale. -/
def scaleWhole (significand : Nat) : Text → Scaled
  | [] => ⟨significand, 0⟩
  | c :: rest =>
    if significand * 10 + digit c < UInt64.size then scaleWhole (significand * 10 + digit c) rest
    else ⟨significand, rest.length + 1⟩

/-- Takes up the digits after the point; those from the first that does not fit on are dropped. -/
def scaleFraction (s : Scaled) : Text → Scaled
  | [] => s
  | c :: rest =>
    if s.significand * 10 + digit c < UInt64.size then
      scaleFraction ⟨s.significand * 10 + digit c, s.exponent - 1⟩ rest
    else s

def scaled (n : Number) : Scaled :=
  let s := scaleFraction (scaleWhole 0 n.whole) n.fraction
  ⟨s.significand, s.exponent + n.exponent.getD 0⟩

/-- The nearest number with 53 significant bits, ties to even. -/
def round53 (n : Nat) : Nat :=
  let shift := Nat.log2 n - 52
  let unit := 1 <<< shift
  let low := n % unit
  let high := n / unit
  let up := unit < 2 * low || (unit = 2 * low && high % 2 = 1)
  (if up then high + 1 else high) * unit

/-- Whether the rounded product of the rounded factors stays below `2 ^ 1024`. -/
def isFinite (n : Number) : Bool :=
  let s := n.scaled
  s.significand = 0 || s.exponent < 0
    || (s.exponent ≤ 308
        && round53 (round53 s.significand * round53 (Nat.pow 10 s.exponent.toNat)) < 1 <<< 1024)

/-- The value of a number that is spelled as a natural number. -/
def natural? (n : Number) : Option Nat :=
  if n.negative || !n.fraction.isEmpty || n.exponent.isSome then none
  else Numeral.read? 10 n.whole

end Number

/-! ## Values -/

namespace Tree

mutual

/-- The number of lists and objects around the innermost value. -/
def depth : Tree → Nat
  | .array items => itemsDepth items + 1
  | .object members => membersDepth members + 1
  | _ => 0

def itemsDepth : List Tree → Nat
  | [] => 0
  | item :: more => max item.depth (itemsDepth more)

def membersDepth : List (Option Text × Tree) → Nat
  | [] => 0
  | (_, value) :: more => max value.depth (membersDepth more)

end

mutual

def value? : Tree → Option Json
  | .null => some .null
  | .bool b => some (.bool b)
  | .number n => if n.isFinite then some (.number n) else none
  | .string t => t.map .string
  | .array items => (itemValues? items).map .array
  | .object members => (memberValues? members).map .object

def itemValues? : List Tree → Option (List Json)
  | [] => some []
  | item :: more => do
    let v ← item.value?
    let vs ← itemValues? more
    pure (v :: vs)

def memberValues? : List (Option Text × Tree) → Option (List (Text × Json))
  | [] => some []
  | (key, item) :: more => do
    let k ← key
    let v ← item.value?
    let vs ← memberValues? more
    pure ((k, v) :: vs)

end

end Tree

def maxDepth : Nat := 127

def ofText? (t : Text) : Option Json := do
  let tree ← Tree.ofText? t
  if tree.depth ≤ maxDepth then tree.value? else none

end HeaderConstants.Json
