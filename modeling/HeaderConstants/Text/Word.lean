import HeaderConstants.Text.WordTable
import HeaderConstants.Text.Basic

/-!
# Word characters

A word character is a letter, mark, decimal digit, connector or joiner in the sense of Unicode; the
ASCII ones are the letters, the digits and the underscore. A word boundary lies between two
neighbours of which exactly one is a word character, the ends of the text counting as none.
-/

namespace HeaderConstants
set_option autoImplicit false

/-- An ASCII letter, digit or underscore. -/
def isNameChar (c : Char) : Bool := c.isAlphanum || c = '_'

/-- An ASCII letter or underscore. -/
def isNameStart (c : Char) : Bool := c.isAlpha || c = '_'

/-- Whether an ascending list of ranges holds the number. -/
def inRanges (n : Nat) : List (Nat × Nat) → Bool
  | [] => false
  | (low, high) :: more => if n < low then false else if n ≤ high then true else inRanges n more

def isWordChar (c : Char) : Bool :=
  if c.toNat < 0x80 then isNameChar c else inRanges c.toNat wordRanges

/-- Whether a boundary lies between the two neighbours. -/
def isWordBoundary (before after : Option Char) : Bool :=
  before.any isWordChar != after.any isWordChar

end HeaderConstants
