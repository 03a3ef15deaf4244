import HeaderConstants.Text.Word

/-!
# Patterns

A pattern is matched at a place of a text from the left, the alternatives in the order in which they
are written and the longer repetitions before the shorter ones; the first way in which the rest of
the match succeeds is the match.

* `Text.Cursor`: a place in a text, with the character before it;
* `Text.Pattern.run`: matches a pattern and goes on from each end that it offers, in turn.
-/

namespace HeaderConstants.Text
set_option autoImplicit false

structure Cursor where
  before : Option Char
  rest : Text
  deriving DecidableEq, Repr

inductive Pattern where
  | nothing
  | one (p : Char → Bool)
  | many (p : Char → Bool)
  | boundary
  | either (first second : Pattern)
  | andThen (first second : Pattern)

namespace Pattern

def optional (q : Pattern) : Pattern := .either q .nothing

def char (c : Char) : Pattern := .one (· == c)

def many1 (p : Char → Bool) : Pattern := .andThen (.one p) (.many p)

variable {α : Type}

/-- The ends of a repetition, the longest first. -/
def runMany (p : Char → Bool) (k : Cursor → Option α) : Option Char → Text → Option α
  | before, [] => k ⟨before, []⟩
  | before, c :: rest =>
    if p c then
      match runMany p k (some c) rest with
      | some a => some a
      | none => k ⟨before, c :: rest⟩
    else k ⟨before, c :: rest⟩

def run : Pattern → (Cursor → Option α) → Cursor → Option α
  | .nothing, k, at_ => k at_
  | .one p, k, ⟨_, rest⟩ =>
    match rest with
    | [] => none
    | c :: rest => if p c then k ⟨some c, rest⟩ else none
  | .many p, k, ⟨before, rest⟩ => runMany p k before rest
  | .boundary, k, at_ => if isWordBoundary at_.before at_.rest.head? then k at_ else none
  | .either first second, k, at_ =>
    match run first k at_ with
    | some a => some a
    | none => run second k at_
  | .andThen first second, k, at_ => run first (run second k) at_

end Pattern

end HeaderConstants.Text
