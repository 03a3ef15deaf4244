import HeaderConstants.Json.Value

/-!
# Reading structures

A structure is read from an object or, by the order of its fields, from a list. In an object each
field may stand once, unknown members are passed over whatever they hold, and every key has to be a
text. A list holds no more items than there are fields.

* `Json.Fields.of?`: the fields of a tree;
* `Json.Fields.required`, `Json.Fields.optional`, `Json.Fields.orDefault`: one field.
-/

namespace HeaderConstants.Json
set_option autoImplicit false

abbrev Decoder (α : Type) := Tree → Option α

namespace Tree

def text? : Decoder Text
  | .string t => t
  | _ => none

def bool? : Decoder Bool
  | .bool b => some b
  | _ => none

/-- A natural number below `2 ^ 64`. -/
def size? : Decoder Nat
  | .number n => n.natural?.filter (· < UInt64.size)
  | _ => none

def list? {α : Type} (d : Decoder α) : Decoder (List α)
  | .array items => items.mapM d
  | _ => none

def isNull : Tree → Bool
  | .null => true
  | _ => false

end Tree

structure Fields where
  entries : List (Text × Tree)
  positional : Bool

namespace Fields

/-- The entries of an object for the given fields, none of which stands twice. -/
def ofMembers? (names : List Text) : List (Option Text × Tree) → Option (List (Text × Tree))
  | [] => some []
  | (key, value) :: more => do
    let key ← key
    let entries ← ofMembers? names more
    if key ∈ names then
      if entries.any (fun e => e.1 = key) then none else pure ((key, value) :: entries)
    else pure entries

def of? (names : List Text) : Decoder Fields
  | .object members => (ofMembers? names members).map (⟨·, false⟩)
  | .array items =>
    if items.length ≤ names.length then some ⟨names.zip items, true⟩ else none
  | _ => none

variable {α : Type}

def find? (f : Fields) (name : Text) : Option Tree :=
  (f.entries.find? (fun e => e.1 = name)).map Prod.snd

def required (f : Fields) (name : Text) (d : Decoder α) : Option α := do
  let tree ← f.find? name
  d tree

/-- A field that may be null, or missing from an object. -/
def optional (f : Fields) (name : Text) (d : Decoder α) : Option (Option α) :=
  match f.find? name with
  | none => if f.positional then none else some none
  | some tree => if tree.isNull then some none else (d tree).map some

def orDefault (f : Fields) (name : Text) (d : Decoder α) (default : α) : Option α :=
  match f.find? name with
  | none => some default
  | some tree => d tree

end Fields

end HeaderConstants.Json
