import HeaderConstants.Text.Basic

/-!
# JSON values

A value is null, a truth value, a number as it is spelled, a text, a list or a list of members in
order.
-/

namespace HeaderConstants
set_option autoImplicit false

/-- A number by its spelling: the digits before the point, those after it (none if there is no
point), and the exponent if there is one. -/
structure Json.Number where
  negative : Bool
  whole : Text
  fraction : Text
  exponent : Option Int
  deriving DecidableEq, Repr

inductive Json where
  | null
  | bool (value : Bool)
  | number (value : Json.Number)
  | string (value : Text)
  | array (items : List Json)
  | object (members : List (Text × Json))

namespace Json

def Number.ofNat (n : Nat) : Number := ⟨false, Text.decimal n, [], none⟩

def nat (n : Nat) : Json := .number (Number.ofNat n)

end Json

end HeaderConstants
