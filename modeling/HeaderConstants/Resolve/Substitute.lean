import HeaderConstants.Constant.Basic
import HeaderConstants.Resolve.Order

/-!
# Substitution

A table holds what stands for each name, in the order in which the names are tried. A pass over an
expression replaces every occurrence of each name in turn, also inside longer words, and passes are
repeated until one changes nothing.

* `Resolve.pass`: one pass and its steps;
* `Resolve.expand?`: passes up to the last one that changes something, within a limit.
-/

namespace HeaderConstants
set_option autoImplicit false

structure Substitution where
  name : Text
  replacement : Text
  deriving DecidableEq, Repr

namespace Resolve

abbrev Table := List Substitution

/-- The last constant of each name stands for it. -/
def replacementOf (constants : List Constant) (name : Text) : Text :=
  match constants.reverse.find? (fun c => c.name = name) with
  | some c => c.substitutionText
  | none => []

def table (constants : List Constant) : Table :=
  (order (constants.map Constant.name)).map fun name => ⟨name, replacementOf constants name⟩

/-- The text after a pass, and the steps of the pass. -/
def pass : Table → Text → Text × List ResolutionStep
  | [], value => (value, [])
  | s :: more, value =>
    if Text.occursIn s.name value then
      let (value', steps) := pass more (Text.replaceAll s.name s.replacement value)
      (value', ⟨value, s.name, s.replacement⟩ :: steps)
    else pass more value

structure Expansion where
  text : Text
  steps : List ResolutionStep
  passes : Nat
  deriving DecidableEq, Repr

/-- Passes until one changes nothing; nothing if more than `limit` of them change the text. -/
def expand? (t : Table) (limit : Nat) (value : Text) : Option Expansion :=
  match pass t value with
  | (_, []) => some ⟨value, [], 0⟩
  | (value', step :: steps) =>
    match limit with
    | 0 => none
    | limit + 1 =>
      (expand? t limit value').map fun e => ⟨e.text, step :: steps ++ e.steps, e.passes + 1⟩

end Resolve

end HeaderConstants
