import HeaderConstants.Text.Blank
import HeaderConstants.Text.Utf8

/-!
# Tokens of a definition line

A token is a run of characters that starts after blanks and ends at the next blank outside
parentheses, so that a parenthesised group is one token. Opening parentheses count up, closing ones
down; a token at whose end the count is not zero makes the line malformed.

* `Header.scan`: the run from a given count on;
* `Header.leadingToken?`: the first token of a text and what follows it;
* `Header.tokenAt`: the same by byte offsets;
* `Header.tokenize`: all tokens of a line.
-/

namespace HeaderConstants
set_option autoImplicit false

inductive LineError where
  | notADefinition (line : Text)
  | unbalanced (line : Text)
  deriving DecidableEq, Repr

def LineError.message : LineError → Text
  | notADefinition line => "line doesn't begin with #define: " ++ line
  | unbalanced line => "unbalanced parenthesis, definition spans multiple lines: " ++ line

namespace Header

/-- A run, what follows it, and the count of its parentheses. The count is an integer without bounds.
A count of 32 bits would overflow where 2 ^ 31 or more parentheses are unmatched; lines that have so
many are out of scope. -/
structure Scan where
  token : Text
  rest : Text
  depth : Int
  deriving DecidableEq, Repr

def nesting (c : Char) : Int := if c = '(' then 1 else if c = ')' then -1 else 0

def scan (depth : Int) : Text → Scan
  | [] => ⟨[], [], depth⟩
  | c :: rest =>
    if isBlank c ∧ depth = 0 then ⟨[], c :: rest, depth⟩
    else
      let s := scan (depth + nesting c) rest
      { s with token := c :: s.token }

theorem scan_append (depth : Int) (t : Text) : (scan depth t).token ++ (scan depth t).rest = t := by
  induction t generalizing depth with
  | nil => rfl
  | cons c rest ih =>
    simp only [scan]
    split
    · rfl
    · simp [ih]

/-- The first token of a text, empty where nothing but blanks is left. -/
def leadingToken? (t : Text) : Option (Text × Text) :=
  let s := scan 0 (Text.trimStart t)
  if s.depth = 0 then some (s.token, s.rest) else none

theorem length_of_leadingToken? {t token rest : Text} (h : leadingToken? t = some (token, rest)) :
    token.length + rest.length ≤ t.length := by
  have hs := congrArg List.length (scan_append 0 (Text.trimStart t))
  simp only [leadingToken?] at h
  split at h
  · simp only [Option.some.injEq, Prod.mk.injEq] at h
    rw [← h.1, ← h.2, ← List.length_append, scan_append]
    exact Text.length_trimStart_le t
  · simp at h

/-! ## Byte offsets -/

/-- The token that starts at or after a byte offset, and the offset of its end. An offset past the
end or inside a character has nothing after it. -/
def tokenAt (line : Text) (offset : Nat) : Except LineError (Text × Nat) :=
  match leadingToken? ((Text.dropBytes? offset line).getD []) with
  | some (token, rest) => .ok (token, Text.byteLength line - Text.byteLength rest)
  | none => .error (.unbalanced line)

/-! ## All tokens -/

/-- The tokens of a text up to the first empty one, nothing if one of them is unbalanced. -/
def tokens? (t : Text) : Option (List Text) :=
  match _h : leadingToken? t with
  | none => none
  | some ([], _) => some []
  | some (c :: token, rest) => (tokens? rest).map ((c :: token) :: ·)
termination_by t.length
decreasing_by
  have := length_of_leadingToken? _h
  simp only [List.length_cons] at this
  omega

def tokenize (line : Text) : Except LineError (List Text) :=
  match tokens? line with
  | some ts => .ok ts
  | none => .error (.unbalanced line)

end Header

end HeaderConstants
