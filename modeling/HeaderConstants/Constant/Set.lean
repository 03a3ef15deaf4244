import HeaderConstants.Constant.Basic

/-!
# Sets of constants

An ordered set holds at most one constant of each name, in the order of their last definitions: a
later definition removes the earlier one and goes to the end.

* `ConstantSet.insert`: the set with a definition, and the one that it superseded;
* `ConstantSet.find?`: the constant of a name;
* `ConstantSet.index`: the places of the names.
-/

namespace HeaderConstants
set_option autoImplicit false

structure ConstantSet where
  constants : List Constant
  deriving DecidableEq, Repr

namespace ConstantSet

def empty : ConstantSet := ⟨[]⟩

def find? (s : ConstantSet) (name : Text) : Option Constant :=
  s.constants.find? (fun c => c.name = name)

def contains (s : ConstantSet) (name : Text) : Bool := (s.find? name).isSome

def size (s : ConstantSet) : Nat := s.constants.length

def isEmpty (s : ConstantSet) : Bool := s.constants.isEmpty

def names (s : ConstantSet) : List Text := s.constants.map Constant.name

def add (s : ConstantSet) (c : Constant) : ConstantSet :=
  ⟨s.constants.eraseP (fun d => d.name = c.name) ++ [c]⟩

def insert (s : ConstantSet) (c : Constant) : ConstantSet × Option Constant :=
  (s.add c, s.find? c.name)

def ofList (cs : List Constant) : ConstantSet := cs.foldl add empty

def extend (s : ConstantSet) (cs : List Constant) : ConstantSet := ofList (s.constants ++ cs)

/-! ## Places -/

/-- Puts a named place before the first one that it precedes, unless there is one of its name. -/
def placeInOrder (entry : Text × Nat) : List (Text × Nat) → List (Text × Nat)
  | [] => [entry]
  | other :: more =>
    if other.1 = entry.1 then other :: more
    else if other.1.precedes entry.1 then other :: placeInOrder entry more
    else entry :: other :: more

/-- Each name with its last place, ordered by name. -/
def index (s : ConstantSet) : List (Text × Nat) :=
  s.names.zipIdx.foldr placeInOrder []

end ConstantSet

end HeaderConstants
