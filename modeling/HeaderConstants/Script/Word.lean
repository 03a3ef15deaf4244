import HeaderConstants.Script.Raw
import HeaderConstants.Text.Word

/-!
# Words of a script

A word is a list of pieces: plain and quoted text, parameters in their several uses, arithmetic, and
commands whose output is put in. What stands between double quotes is marked as quoted.

* `Script.Word.read`: the word at the start of a text, and what follows it;
* `Script.Word.ofDocument`: a text in place with its expansions.
-/

namespace HeaderConstants.Script
set_option autoImplicit false

/-- What stands in for a parameter that has no value, or for one that has. -/
inductive Substitute where
  | default
  | assign
  | complain
  | alternate
  deriving DecidableEq, Repr

/-- Pieces of a word. A substitute may also count an empty value as none; a cut takes the shortest
or longest match of a pattern off one end of a value. A command has the line that it starts on. -/
inductive Piece where
  | plain (t : Text)
  | quoted (t : Text)
  | parameter (name : Text) (isQuoted : Bool)
  | length (name : Text) (isQuoted : Bool)
  | instead (name : Text) (kind : Substitute) (emptyToo : Bool) (other : List Piece)
      (isQuoted : Bool)
  | cut (name : Text) (atEnd longest : Bool) (pattern : List Piece) (isQuoted : Bool)
  | command (source : Text) (line : Nat) (isQuoted : Bool)
  | arithmetic (expression : List Piece) (isQuoted : Bool)
  | malformed

abbrev Word := List Piece

/-- A fault of a script and the line where it is noticed. -/
structure Fault where
  line : Nat
  message : Text
  deriving DecidableEq, Repr

namespace Word

def backquote : Char := '\x60'

def isGap (c : Char) : Bool := c = ' ' || c = '\t'

def isMeta (c : Char) : Bool :=
  isGap c || c = '\n' || c = ';' || c = '&' || c = '|' || c = '<' || c = '>' || c = '(' || c = ')'

def isName (t : Text) : Bool := t.head?.any isNameStart && t.all isNameChar

def isSpecialParameter (c : Char) : Bool :=
  c.isDigit || c = '@' || c = '*' || c = '#' || c = '?' || c = '$' || c = '!' || c = '-'

/-- The line of the place before `rest`, in a text whose end is on line `last`. -/
def lineAt (last : Nat) (rest : Text) : Nat := last - rest.count '\n'

/-! ## Bracketed text -/

/-- What a closing parenthesis has to close: a bracket, or a choice with its bare patterns. -/
inductive Opening where
  | bracket
  | choice
  deriving DecidableEq, Repr

def startsWord (word t : Text) : Bool :=
  t.startsWith word && ((t.drop word.length).head?.all fun c => !isNameChar c)

/-- The text up to the parenthesis that closes the innermost bracket of a command. Quotes and
comments are passed over, and the patterns of a choice close nothing. -/
def closing? : Nat → List Opening → Option Char → Bool → Text → Option (Text × Text)
  | 0, _, _, _, _ => none
  | _ + 1, _, _, _, [] => none
  | fuel + 1, openings, quote, fresh, c :: rest =>
    let keep := fun openings quote fresh (t : Text) =>
      (closing? fuel openings quote fresh t).map fun (inner, r) => (c :: inner, r)
    match quote with
    | some q =>
      if c = '\\' && q ≠ '\'' then
        match rest with
        | d :: rest => (closing? fuel openings quote false rest).map fun (t, r) => (c :: d :: t, r)
        | [] => none
      else keep openings (if c = q then none else some q) false rest
    | none =>
      if c = '\\' then
        match rest with
        | d :: rest => (closing? fuel openings none false rest).map fun (t, r) => (c :: d :: t, r)
        | [] => none
      else if c = '\'' || c = '"' || c = backquote then keep openings (some c) false rest
      else if c = '#' && fresh then
        let comment := rest.takeWhile (· ≠ '\n')
        (closing? fuel openings none true (rest.drop comment.length)).map
          fun (t, r) => (c :: comment ++ t, r)
      else if c = '(' then keep (.bracket :: openings) none true rest
      else if c = ')' then
        match openings with
        | [] => some ([], rest)
        | .choice :: _ => keep openings none true rest
        | .bracket :: openings => keep openings none true rest
      else if fresh && startsWord "case" (c :: rest) then keep (.choice :: openings) none false rest
      else if fresh && startsWord "esac" (c :: rest) then keep (openings.drop 1) none false rest
      else keep openings none (isMeta c) rest

/-- The text up to the backquote that ends a command, with the backslashes taken off that protect
a character there. -/
def backquoted? (isQuoted : Bool) : Text → Option (Text × Text)
  | [] => none
  | [c] => if c = backquote then some ([], []) else none
  | c :: d :: rest =>
    if c = backquote then some ([], d :: rest)
    else if c = '\\' && (d = backquote || d = '$' || d = '\\' || (isQuoted && d = '"')) then
      (backquoted? isQuoted rest).map fun (t, r) => (d :: t, r)
    else (backquoted? isQuoted (d :: rest)).map fun (t, r) => (c :: t, r)

/-! ## Pieces -/

/-- Where pieces stand, which says what ends them and what quotes: on their own, between double
quotes, in the braces of a parameter, in a text in place, or in arithmetic with so many open
brackets. -/
inductive Place where
  | bare
  | double
  | braces (isQuoted : Bool)
  | document
  | arithmetic (depth : Nat)
  deriving DecidableEq, Repr

namespace Place

def isQuoted : Place → Bool
  | bare => false
  | braces isQuoted => isQuoted
  | _ => true

/-- The characters that a backslash protects; on their own all are. -/
def protects (place : Place) (c : Char) : Bool :=
  match place with
  | bare | braces false => true
  | double => c = '$' || c = '"' || c = '\\' || c = backquote
  | braces true => c = '$' || c = '"' || c = '\\' || c = backquote || c = '\x7d'
  | document => c = '$' || c = '\\' || c = backquote
  | arithmetic _ => c = '$' || c = '"' || c = '\\' || c = backquote

/-- Whether double quotes quote there, and do not stand for themselves. -/
def hasQuotes : Place → Bool
  | document => false
  | arithmetic _ => false
  | _ => true

def endsAt (place : Place) (c : Char) (rest : Text) : Bool :=
  match place with
  | bare => isMeta c
  | double => c = '"'
  | braces _ => c = '\x7d'
  | document => false
  | arithmetic depth => depth = 0 && c = ')' && rest.head? = some ')'

/-- The place after a character that stands for itself. -/
def next (place : Place) (c : Char) : Place :=
  match place with
  | arithmetic depth =>
    if c = '(' then arithmetic (depth + 1) else if c = ')' then arithmetic (depth - 1)
    else arithmetic depth
  | place => place

/-- The fault of a text that ends too early there. -/
def endFault? (last : Nat) : Place → Option Fault
  | bare => none
  | document => none
  | double => some ⟨last, "Unterminated quoted string"⟩
  | braces _ => some ⟨last, "Missing '\x7d'"⟩
  | arithmetic _ => some ⟨last, "Missing '))'"⟩

end Place

/-- Puts plain text before pieces. -/
def consPlain (c : Char) : Word → Word
  | .plain t :: w => .plain (c :: t) :: w
  | w => .plain [c] :: w

def consQuoted (t : Text) : Word → Word
  | .quoted u :: w => .quoted (t ++ u) :: w
  | w => .quoted t :: w

/-- The use of a parameter that the sign after its name stands for. -/
inductive Use where
  | instead (kind : Substitute) (emptyToo : Bool)
  | cut (atEnd longest : Bool)
  deriving DecidableEq, Repr

def substitute? : Char → Option Substitute
  | '-' => some .default
  | '=' => some .assign
  | '?' => some .complain
  | '+' => some .alternate
  | _ => none

def use? : Text → Option (Use × Text)
  | ':' :: c :: rest => (substitute? c).map fun kind => (.instead kind true, rest)
  | '%' :: '%' :: rest => some (.cut true true, rest)
  | '%' :: rest => some (.cut true false, rest)
  | '#' :: '#' :: rest => some (.cut false true, rest)
  | '#' :: rest => some (.cut false false, rest)
  | c :: rest => (substitute? c).map fun kind => (.instead kind false, rest)
  | [] => none

def Use.piece (name : Text) (isQuoted : Bool) (w : Word) : Use → Piece
  | instead kind emptyToo => .instead name kind emptyToo w isQuoted
  | cut atEnd longest => .cut name atEnd longest w isQuoted

/-- The name of a parameter at the start of a text. -/
def parameterName (t : Text) : Text × Text :=
  match t with
  | c :: rest =>
    if isNameStart c then (t.takeWhile isNameChar, t.dropWhile isNameChar)
    else if c.isDigit then (t.takeWhile Char.isDigit, t.dropWhile Char.isDigit)
    else if isSpecialParameter c then ([c], rest)
    else ([], t)
  | [] => ([], [])

mutual

/-- The pieces up to the character that ends their place, which is not taken. -/
def pieces : Nat → Nat → Place → Text → Except Fault (Word × Text)
  | 0, last, _, _ => .error ⟨last, "Word too long"⟩
  | _ + 1, last, place, [] =>
    match place.endFault? last with
    | some fault => .error fault
    | none => .ok ([], [])
  | fuel + 1, last, place, c :: rest =>
    if place.endsAt c rest then .ok ([], c :: rest)
    else if c = '\\' then
      match rest with
      | [] => .ok ([if place.isQuoted then .quoted [c] else .plain [c]], [])
      | '\n' :: rest => pieces fuel last place rest
      | d :: rest => do
        let (w, r) ← pieces fuel last place rest
        pure (consQuoted (if place.protects d then [d] else [c, d]) w, r)
    else if c = '\'' && (place = .bare || place = .braces false) then
      match upTo? '\'' rest with
      | none => .error ⟨last, "Unterminated quoted string"⟩
      | some (t, rest) => do
        let (w, r) ← pieces fuel last place rest
        pure (.quoted t :: w, r)
    else if c = '"' && place.hasQuotes then do
      let (inner, rest) ← pieces fuel last .double rest
      let (w, r) ← pieces fuel last place (rest.drop 1)
      pure ((if inner.isEmpty then [.quoted []] else inner) ++ w, r)
    else if c = '$' then do
      let (piece, rest) ← dollar fuel last place.isQuoted rest
      let (w, r) ← pieces fuel last place rest
      pure (piece :: w, r)
    else if c = backquote then
      match backquoted? place.isQuoted rest with
      | none => .error ⟨last, "EOF in backquote substitution"⟩
      | some (source, rest) => do
        let (w, r) ← pieces fuel last place rest
        pure (.command source 1 place.isQuoted :: w, r)
    else do
      let (w, r) ← pieces fuel last (place.next c) rest
      pure (if place.isQuoted then consQuoted [c] w else consPlain c w, r)

/-- The piece after a dollar sign; a sign that starts nothing stands for itself. -/
def dollar : Nat → Nat → Bool → Text → Except Fault (Piece × Text)
  | 0, last, _, _ => .error ⟨last, "Word too long"⟩
  | fuel + 1, last, isQuoted, t =>
    match t with
    | '(' :: '(' :: rest => do
      let (w, r) ← pieces fuel last (.arithmetic 0) rest
      pure (.arithmetic w isQuoted, r.drop 2)
    | '(' :: rest =>
      match closing? (rest.length + 1) [] none true rest with
      | some (source, r) => .ok (.command source (lineAt last rest) isQuoted, r)
      | none => .error ⟨last, "end of file unexpected (expecting \")\")"⟩
    | '{' :: rest => braced fuel last isQuoted rest
    | c :: rest =>
      if isSpecialParameter c then .ok (.parameter [c] isQuoted, rest)
      else if isNameStart c then
        .ok (.parameter (t.takeWhile isNameChar) isQuoted, t.dropWhile isNameChar)
      else .ok (if isQuoted then .quoted ['$'] else .plain ['$'], t)
    | [] => .ok (if isQuoted then .quoted ['$'] else .plain ['$'], [])

/-- The piece after an opening brace. -/
def braced : Nat → Nat → Bool → Text → Except Fault (Piece × Text)
  | 0, last, _, _ => .error ⟨last, "Word too long"⟩
  | fuel + 1, last, isQuoted, t =>
    let isLength := t.head? = some '#' && (t.drop 1).head? ≠ some '\x7d'
      && !(parameterName (t.drop 1)).1.isEmpty
    let (name, rest) := parameterName (if isLength then t.drop 1 else t)
    let skip := do
      let last := if rest.head? = some '\n' then last - 1 else last
      let (_, r) ← pieces fuel last (.braces isQuoted) t
      pure (Piece.malformed, r.drop 1)
    if name.isEmpty then skip
    else if rest.head? = some '\x7d' then
      .ok (if isLength then .length name isQuoted else .parameter name isQuoted, rest.drop 1)
    else if isLength then skip
    else
      match use? rest with
      | none => skip
      | some (use, rest) => do
        let inner := match use with
          | .cut _ _ => false
          | .instead _ _ => isQuoted
        let (w, r) ← pieces fuel last (.braces inner) rest
        pure (use.piece name isQuoted w, r.drop 1)

end

/-- The word at the start of a text that ends on line `last`. -/
def read (last : Nat) (t : Text) : Except Fault (Word × Text) :=
  pieces (2 * t.length + 8) last .bare t

/-- A text in place. -/
def ofDocument (last : Nat) (t : Text) : Except Fault Word :=
  (pieces (2 * t.length + 8) last .document t).map Prod.fst

def literalText (w : Word) : Text :=
  w.flatMap fun
    | .plain t => t
    | .quoted t => t
    | _ => []

def isPlain (w : Word) : Bool :=
  w.all fun
    | .plain _ => true
    | _ => false

end Word

end HeaderConstants.Script
