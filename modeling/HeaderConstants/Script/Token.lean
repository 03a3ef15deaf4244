import HeaderConstants.Script.Word
import HeaderConstants.Text.Blank

/-!
# Tokens of a script

Words, operators, redirections and line ends, each with the line where it ends. Texts in place stand
right after their operators, though a script has them below the line. The tokens end with the end of
the text or with a fault.

* `Script.Lexeme.ofText`: the tokens of a script.
-/

namespace HeaderConstants.Script
set_option autoImplicit false

inductive Token where
  | word (w : Word)
  | operator (t : Text)
  | redirect (descriptor : Option Nat) (operator : Text)
  | document (body : Word)
  | lineEnd
  | textEnd
  | broken (fault : Fault)

structure Lexeme where
  token : Token
  line : Nat

namespace Lexeme

def operators : List Text := ["&&", "||", ";;", ";", "&", "|", "(", ")"]

def redirectOperators : List Text := [">>", ">&", ">|", "<<-", "<<", "<&", "<>", ">", "<"]

def firstOf (ts : List Text) (t : Text) : Option (Text × Text) :=
  (ts.find? fun start => t.startsWith start).map fun start => (start, t.drop start.length)

/-- The descriptor before a redirection, its operator, and what follows. -/
def redirection? (t : Text) : Option (Option Nat × Text × Text) :=
  match t with
  | c :: rest =>
    if c.isDigit then
      (firstOf redirectOperators rest).map fun (op, r) => (some (c.toNat - '0'.toNat), op, r)
    else (firstOf redirectOperators t).map fun (op, r) => (none, op, r)
  | [] => none

/-! ## Texts in place -/

/-- A text in place that is still to come: the line that ends it, and whether tabs that start its
lines are dropped and whether its text is taken literally. -/
structure Awaited where
  stop : Text
  isIndented : Bool
  isLiteral : Bool
  deriving DecidableEq, Repr

def Awaited.trimmed (a : Awaited) (line : Text) : Text :=
  if a.isIndented then line.dropWhile (· = '\t') else line

/-- The lines before the one that ends a text in place, and what follows that. -/
def Awaited.body (a : Awaited) : List Text → Text × List Text
  | [] => ([], [])
  | [line] =>
    let line := a.trimmed line
    if line = a.stop || line.isEmpty then ([], []) else (line, [])
  | line :: next :: more =>
    let line := a.trimmed line
    if line = a.stop then ([], next :: more)
    else
      let (t, rest) := a.body (next :: more)
      (line ++ '\n' :: t, rest)

/-- The texts that are awaited, at the start of a line, and what follows them. -/
def documents (last : Nat) : List Awaited → Text → List Lexeme × Text
  | [], t => ([], t)
  | a :: more, t =>
    let (content, rest) := a.body (Text.splitWhere (· == '\n') t)
    let after := Text.joined ['\n'] rest
    let line := Word.lineAt last after
    let token : Token :=
      if a.isLiteral then .document [.quoted content]
      else
        match Word.ofDocument (line - 1) content with
        | .ok w => .document w
        | .error fault => .broken fault
    let (found, after) := documents last more after
    (⟨token, line⟩ :: found, after)

/-- Puts the texts in place where their operators are. -/
def settle : List Word → List Lexeme → List Lexeme
  | bodies, ⟨.redirect descriptor op, line⟩ :: ⟨.word stop, line'⟩ :: more =>
    if op = "<<" then
      ⟨.redirect descriptor op, line⟩ :: ⟨.word (bodies.head?.getD []), line'⟩
        :: settle (bodies.drop 1) more
    else ⟨.redirect descriptor op, line⟩ :: ⟨.word stop, line'⟩ :: settle bodies more
  | bodies, ⟨.document _, _⟩ :: more => settle bodies more
  | bodies, lexeme :: more => lexeme :: settle bodies more
  | _, [] => []

/-! ## All tokens -/

def scan : Nat → Nat → List Awaited → Text → List Lexeme
  | 0, last, _, _ => [⟨.broken ⟨last, "Script too long"⟩, last⟩]
  | _ + 1, last, awaited, [] => (documents last awaited []).1 ++ [⟨.textEnd, last⟩]
  | fuel + 1, last, awaited, c :: rest =>
    if Word.isGap c then scan fuel last awaited rest
    else if c = '#' then scan fuel last awaited (rest.dropWhile (· ≠ '\n'))
    else if c = '\\' && rest.head? = some '\n' then scan fuel last awaited (rest.drop 1)
    else if c = '\n' then
      let (found, after) := documents last awaited rest
      ⟨.lineEnd, Word.lineAt last rest⟩ :: found ++ scan fuel last [] after
    else
      match redirection? (c :: rest) with
      | some (descriptor, op, after) =>
        let line := Word.lineAt last after
        if op = "<<" ∨ op = "<<-" then
          match Word.read last (after.dropWhile Word.isGap) with
          | .ok ([], after) => ⟨.redirect descriptor "<<", line⟩ :: scan fuel last awaited after
          | .ok (mark, after) =>
            let text : Awaited := ⟨Word.literalText mark, op = "<<-", !Word.isPlain mark⟩
            ⟨.redirect descriptor "<<", line⟩ :: ⟨.word mark, line⟩
              :: scan fuel last (awaited ++ [text]) after
          | .error fault => [⟨.broken fault, fault.line⟩]
        else ⟨.redirect descriptor op, line⟩ :: scan fuel last awaited after
      | none =>
        match firstOf operators (c :: rest) with
        | some (op, after) =>
          ⟨.operator op, Word.lineAt last after⟩ :: scan fuel last awaited after
        | none =>
          match Word.read last (c :: rest) with
          | .ok (w, after) =>
            ⟨.word w, Word.lineAt last after⟩ :: scan fuel last awaited after
          | .error fault => [⟨.broken fault, fault.line⟩]

/-- The tokens of a text whose first line has a number. -/
def ofText (line : Nat) (t : Text) : List Lexeme :=
  let lexemes := scan (t.length + 2) (line + t.count '\n') [] t
  let bodies := lexemes.filterMap fun lexeme =>
    match lexeme.token with
    | .document w => some w
    | _ => none
  settle bodies lexemes

end Lexeme

end HeaderConstants.Script
