import HeaderConstants.Script.Token

/-!
# Commands of a script

Simple commands with assignments and redirections, lists, pipelines, conditionals, loops, choices
and groups, read from tokens by recursive descent with a bound on its depth. A script is read one
complete command at a time.

* `Script.nextCommand`: the command at the start of a list of tokens, and the tokens after it.
-/

namespace HeaderConstants.Script
set_option autoImplicit false

inductive RedirectKind where
  | read
  | write
  | replace
  | append
  | both
  | duplicate
  | document
  deriving DecidableEq, Repr

structure Redirect where
  descriptor : Nat
  kind : RedirectKind
  target : Word

/-- Commands, with the lines that their messages tell. -/
inductive Code where
  | nothing
  | simple (line : Nat) (words : List Word) (assignments : List (Text × Word))
      (redirects : List Redirect)
  | define (name : Text) (body : Code)
  | sequence (first second : Code)
  | background (code : Code)
  | ifOk (first second : Code)
  | ifFailed (first second : Code)
  | negated (code : Code)
  | pipe (codes : List Code)
  | choose (condition yes no : Code)
  | loop (condition body : Code) (whileOk : Bool)
  | each (line : Nat) (name : Text) (words : List Word) (body : Code)
  | select (line : Nat) (subject : Word) (branches : List (List Word × Code))
  | subshell (line : Nat) (body : Code) (redirects : List Redirect)
  | redirected (line : Nat) (body : Code) (redirects : List Redirect)

namespace Command

def keywords : List Text :=
  ["!", "case", "do", "done", "elif", "else", "esac", "fi", "for", "if", "in", "then", "until",
    "while", "\x7b", "\x7d"]

/-- The commands whose names no function can take. -/
def specialNames : List Text :=
  [".", ":", "break", "continue", "eval", "exec", "exit", "export", "local", "readonly", "return",
    "set", "shift", "times", "trap", "unset"]

/-- The keyword that a token is, in a place where keywords are known. -/
def keyword? : Token → Option Text
  | .word [.plain t] => if keywords.contains t then some t else none
  | _ => none

def isKeyword (t : Text) (ts : List Lexeme) : Bool :=
  (ts.head?.bind fun lexeme => keyword? lexeme.token) = some t

def isOperator (t : Text) : List Lexeme → Bool
  | ⟨.operator u, _⟩ :: _ => u = t
  | _ => false

def quotedText (t : Text) : Text := '"' :: t ++ ['"']

/-- How a token is called in messages. -/
def label (token : Token) : Text :=
  match token with
  | .word _ =>
    match keyword? token with
    | some t => quotedText t
    | none => "word"
  | .operator t => quotedText t
  | .redirect .. => "redirection"
  | .document _ => "redirection"
  | .lineEnd => "newline"
  | .textEnd => "end of file"
  | .broken fault => fault.message

/-- The fault of tokens that go on in a way that they cannot. -/
def unexpected (expected : Text) : List Lexeme → Fault
  | ⟨.broken fault, _⟩ :: _ => fault
  | ⟨token, line⟩ :: _ =>
    ⟨line, label token ++ (" unexpected" : Text)
      ++ (if expected.isEmpty then [] else (" (expecting " : Text) ++ expected ++ [')'])⟩
  | [] => ⟨1, "end of file unexpected"⟩

/-- The tokens that are left. -/
abbrev Rest := List Lexeme

def expectKeyword (t : Text) (ts : List Lexeme) : Except Fault (List Lexeme) :=
  if isKeyword t ts then .ok (ts.drop 1) else .error (unexpected (quotedText t) ts)

def expectOperator (t : Text) (ts : List Lexeme) : Except Fault (List Lexeme) :=
  if isOperator t ts then .ok (ts.drop 1) else .error (unexpected (quotedText t) ts)

/-- The end of the brackets behind the name of a function, where keywords are plain words. -/
def closeNames : List Lexeme → Except Fault (List Lexeme)
  | ⟨.word _, line⟩ :: _ => .error ⟨line, "word unexpected (expecting \")\")"⟩
  | ts => expectOperator ")" ts

def skipLineEnds : List Lexeme → List Lexeme
  | ⟨.lineEnd, _⟩ :: ts => skipLineEnds ts
  | ts => ts

def lineOf (ts : List Lexeme) : Nat := (ts.head?.map Lexeme.line).getD 1

/-! ## Simple commands -/

def redirectKind (op : Text) : RedirectKind :=
  if op = ">>" then .append
  else if op = ">&" ∨ op = "<&" then .duplicate
  else if op = "<<" then .document
  else if op = "<>" then .both
  else if op = "<" then .read
  else if op = ">|" then .replace
  else .write

def redirectOf (descriptor : Option Nat) (op : Text) (target : Word) : Redirect :=
  ⟨descriptor.getD (if op.head? = some '<' then 0 else 1), redirectKind op, target⟩

/-- Redirections after a compound command. -/
def redirects : List Lexeme → Except Fault (List Redirect × Rest)
  | ⟨.redirect descriptor op, _⟩ :: ⟨.word w, _⟩ :: ts => do
    let (rs, rest) ← redirects ts
    pure (redirectOf descriptor op w :: rs, rest)
  | ⟨.redirect .., _⟩ :: ts => .error (unexpected [] ts)
  | ts => .ok ([], ts)

/-- The name and the value of a word that assigns. -/
def assignment? : Word → Option (Text × Word)
  | .plain t :: w =>
    let name := t.takeWhile (· ≠ '=')
    match t.dropWhile (· ≠ '=') with
    | '=' :: value =>
      if Word.isName name then some (name, if value.isEmpty then w else .plain value :: w) else none
    | _ => none
  | _ => none

structure Parts where
  words : List Word
  assignments : List (Text × Word)
  redirects : List Redirect

/-- The parts of a simple command; assignments come before its first word. -/
def parts (started : Bool) : List Lexeme → Except Fault (Parts × Rest)
  | ⟨.redirect descriptor op, _⟩ :: ⟨.word w, _⟩ :: ts => do
    let (p, rest) ← parts started ts
    pure ({ p with redirects := redirectOf descriptor op w :: p.redirects }, rest)
  | ⟨.redirect .., _⟩ :: ts => .error (unexpected [] ts)
  | ⟨.word w, _⟩ :: ts =>
    match if started then none else assignment? w with
    | some a => do
      let (p, rest) ← parts false ts
      pure ({ p with assignments := a :: p.assignments }, rest)
    | none => do
      let (p, rest) ← parts true ts
      pure ({ p with words := w :: p.words }, rest)
  | ts => .ok (⟨[], [], []⟩, ts)

/-- The words up to the end of the line. -/
def wordsToEnd : List Lexeme → List Word × List Lexeme
  | ⟨.word w, _⟩ :: ts =>
    let (ws, rest) := wordsToEnd ts
    (w :: ws, rest)
  | ts => ([], ts)

/-- The patterns of a branch of a choice, up to the closing parenthesis. -/
def branchPatterns : List Lexeme → Except Fault (List Word × Rest)
  | ⟨.word w, _⟩ :: ts =>
    match ts with
    | ⟨.operator ['|'], _⟩ :: ts => do
      let (ws, rest) ← branchPatterns ts
      pure (w :: ws, rest)
    | ts => do
      let ts ← expectOperator ")" ts
      pure ([w], ts)
  | ts => .error (unexpected (quotedText ")") ts)

/-! ## Commands -/

def closers : List Text := ["then", "else", "elif", "fi", "do", "done", "esac", "\x7d"]

def endsList (ts : List Lexeme) : Bool :=
  isOperator ")" ts || isOperator ";;" ts
    || (ts.head?.bind fun lexeme => keyword? lexeme.token).any closers.contains

def isTextEnd : List Lexeme → Bool
  | ⟨.textEnd, _⟩ :: _ => true
  | _ => false

def isLineEnd : List Lexeme → Bool
  | ⟨.lineEnd, _⟩ :: _ => true
  | _ => false

def withRedirects (line : Nat) (code : Code) (rs : List Redirect) : Code :=
  match code with
  | .subshell line' body _ => .subshell line' body rs
  | code => if rs.isEmpty then code else .redirected line code rs

mutual

/-- Commands up to a token that closes what surrounds them, or up to one that no command can start
with. A list that may be empty looks for its end at once. -/
def list : Nat → Bool → List Lexeme → Except Fault (Code × Rest)
  | 0, _, ts => .error (unexpected [] ts)
  | fuel + 1, mayEnd, ts =>
    let ts := skipLineEnds ts
    if isTextEnd ts || (mayEnd && endsList ts) then .ok (.nothing, ts)
    else do
      let (first, ts) ← chain fuel ts
      let first := if isOperator "&" ts then .background first else first
      if isOperator "&" ts || isOperator ";" ts then
        let (more, ts) ← list fuel true (ts.drop 1)
        pure (.sequence first more, ts)
      else if isLineEnd ts then
        let (more, ts) ← list fuel true ts
        pure (.sequence first more, ts)
      else pure (first, ts)

/-- Pipelines joined by the operators on success and failure. -/
def chain : Nat → List Lexeme → Except Fault (Code × Rest)
  | 0, ts => .error (unexpected [] ts)
  | fuel + 1, ts => do
    let (first, ts) ← pipeline fuel ts
    chainFrom fuel first ts

def chainFrom : Nat → Code → List Lexeme → Except Fault (Code × Rest)
  | 0, _, ts => .error (unexpected [] ts)
  | fuel + 1, first, ts =>
    if isOperator "&&" ts then do
      let (second, ts) ← pipeline fuel (skipLineEnds (ts.drop 1))
      chainFrom fuel (.ifOk first second) ts
    else if isOperator "||" ts then do
      let (second, ts) ← pipeline fuel (skipLineEnds (ts.drop 1))
      chainFrom fuel (.ifFailed first second) ts
    else .ok (first, ts)

def pipeline : Nat → List Lexeme → Except Fault (Code × Rest)
  | 0, ts => .error (unexpected [] ts)
  | fuel + 1, ts => do
    let isNegated := isKeyword ['!'] ts
    let (codes, ts) ← piped fuel (if isNegated then ts.drop 1 else ts)
    let code :=
      match codes with
      | [code] => code
      | codes => .pipe codes
    pure (if isNegated then .negated code else code, ts)

def piped : Nat → List Lexeme → Except Fault (List Code × Rest)
  | 0, ts => .error (unexpected [] ts)
  | fuel + 1, ts => do
    let (first, ts) ← command fuel ts
    if isOperator "|" ts then
      let (more, ts) ← piped fuel (skipLineEnds (ts.drop 1))
      pure (first :: more, ts)
    else pure ([first], ts)

def command : Nat → List Lexeme → Except Fault (Code × Rest)
  | 0, ts => .error (unexpected [] ts)
  | fuel + 1, ts => do
    let line := lineOf ts
    if isOperator "(" ts then
      let (body, ts) ← list fuel false (ts.drop 1)
      let ts ← expectOperator ")" ts
      let (rs, ts) ← redirects ts
      pure (.subshell line body rs, ts)
    else
      match ts.head?.bind fun lexeme => keyword? lexeme.token with
      | none => simple fuel line ts
      | some t =>
        let (code, rest) ← compound fuel line t ts (ts.drop 1)
        let (rs, rest) ← redirects rest
        pure (withRedirects line code rs, rest)

/-- A command that a keyword starts; `ts` are the tokens after it. -/
def compound : Nat → Nat → Text → List Lexeme → List Lexeme → Except Fault (Code × Rest)
  | 0, _, _, whole, _ => .error (unexpected [] whole)
  | fuel + 1, line, t, whole, ts => do
    if t = "\x7b" then
      let (body, ts) ← list fuel false ts
      let ts ← expectKeyword "\x7d" ts
      pure (body, ts)
    else if t = "if" then conditional fuel ts
    else if t = "while" ∨ t = "until" then
      let (condition, ts) ← list fuel false ts
      let (body, ts) ← loopBody fuel ts
      pure (.loop condition body (t = "while"), ts)
    else if t = "for" then
      match ts with
      | ⟨.word [.plain name], _⟩ :: ts =>
        if !Word.isName name then .error ⟨line, "Bad for loop variable"⟩
        else
          let ts := skipLineEnds ts
          if isKeyword "in" ts then
            let (ws, ts) := wordsToEnd (ts.drop 1)
            if isOperator ";" ts || isLineEnd ts then
              let (body, ts) ← loopBody fuel (skipLineEnds (ts.drop 1))
              pure (.each line name ws body, ts)
            else .error (unexpected [] ts)
          else
            let ts := if isOperator ";" ts then ts.drop 1 else ts
            let (body, ts) ← loopBody fuel (skipLineEnds ts)
            pure (.each line name [[.parameter ['@'] true]] body, ts)
      | ts => .error ⟨lineOf ts, "Bad for loop variable"⟩
    else if t = "case" then
      match ts with
      | ⟨.word subject, _⟩ :: ts =>
        let ts ← expectKeyword "in" (skipLineEnds ts)
        let (branches, ts) ← choices fuel ts
        pure (.select line subject branches, ts)
      | ts => .error (unexpected "word" ts)
    else .error (unexpected [] whole)

def loopBody : Nat → List Lexeme → Except Fault (Code × Rest)
  | 0, ts => .error (unexpected [] ts)
  | fuel + 1, ts => do
    let ts ← expectKeyword "do" ts
    let (body, ts) ← list fuel false ts
    let ts ← expectKeyword "done" ts
    pure (body, ts)

/-- What follows the word that starts a condition. -/
def conditional : Nat → List Lexeme → Except Fault (Code × Rest)
  | 0, ts => .error (unexpected [] ts)
  | fuel + 1, ts => do
    let (condition, ts) ← list fuel false ts
    let ts ← expectKeyword "then" ts
    let (yes, ts) ← list fuel false ts
    if isKeyword "elif" ts then
      let (no, ts) ← conditional fuel (ts.drop 1)
      pure (.choose condition yes no, ts)
    else if isKeyword "else" ts then
      let (no, ts) ← list fuel false (ts.drop 1)
      let ts ← expectKeyword "fi" ts
      pure (.choose condition yes no, ts)
    else
      let ts ← expectKeyword "fi" ts
      pure (.choose condition yes .nothing, ts)

def choices : Nat → List Lexeme → Except Fault (List (List Word × Code) × Rest)
  | 0, ts => .error (unexpected [] ts)
  | fuel + 1, ts => do
    let ts := skipLineEnds ts
    if isKeyword "esac" ts then .ok ([], ts.drop 1)
    else
      let ts := if isOperator "(" ts then ts.drop 1 else ts
      let (patterns, ts) ← branchPatterns ts
      let (body, ts) ← list fuel true ts
      let ts := skipLineEnds ts
      if isKeyword "esac" ts then pure ([(patterns, body)], ts.drop 1)
      else
        let ts ← expectOperator ";;" ts
        let (more, ts) ← choices fuel ts
        pure ((patterns, body) :: more, ts)

def simple : Nat → Nat → List Lexeme → Except Fault (Code × Rest)
  | 0, _, ts => .error (unexpected [] ts)
  | fuel + 1, line, ts =>
    match ts with
    | ⟨.word w, _⟩ :: ⟨.operator ['('], line'⟩ :: rest => do
      if (assignment? w).isSome then .error (unexpected [] (⟨.operator ['('], line'⟩ :: rest))
      else
        let rest ← closeNames rest
        let name := Word.literalText w
        if Word.isPlain w && Word.isName name && !specialNames.contains name then
          let (body, rest) ← command fuel (skipLineEnds rest)
          pure (.define name body, rest)
        else .error ⟨lineOf ts, "Bad function name"⟩
    | ts => do
      let (p, rest) ← parts false ts
      match p with
      | ⟨[], [], []⟩ => .error (unexpected [] ts)
      | p => pure (.simple line p.words p.assignments p.redirects, rest)

end

/-- Commands up to the end of a line, joined to those before them. -/
def lineFrom : Nat → Nat → Option Code → List Lexeme → Except Fault (Option Code × Rest)
  | _, 0, _, ts => .error (unexpected [] ts)
  | depth, fuel + 1, before, ts =>
    if isLineEnd ts then .ok (some (before.getD .nothing), ts.drop 1)
    else if isTextEnd ts then .ok (before, ts)
    else do
      let (code, ts) ← chain depth ts
      let code := if isOperator "&" ts then .background code else code
      let joined :=
        match before with
        | some first => .sequence first code
        | none => code
      if isOperator "&" ts || isOperator ";" ts then lineFrom depth fuel (some joined) (ts.drop 1)
      else if isLineEnd ts || isTextEnd ts then lineFrom depth fuel (some joined) ts
      else .error (unexpected [] ts)

end Command

/-- The complete command at the start of tokens, nothing at their end. -/
def nextCommand (ts : List Lexeme) : Except Fault (Option Code × Command.Rest) :=
  Command.lineFrom (8 * ts.length + 8) (ts.length + 2) none ts

end HeaderConstants.Script
