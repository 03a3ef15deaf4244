import HeaderConstants.Text.Search

/-!
# Patterns for whole texts

Patterns of choices and of file names: any text, any character, and one character out of a class. A
character of a pattern that is quoted stands for itself.

* `Script.Glob.compile`: the marks of a pattern;
* `Script.Glob.accepts`: a pattern matches a whole text.
-/

namespace HeaderConstants.Script
set_option autoImplicit false

def suffixes : Text → List Text
  | [] => [[]]
  | c :: rest => (c :: rest) :: suffixes rest

namespace Glob

/-- The characters of a class: a range, or those of a named kind. -/
inductive Member where
  | range (low high : Char)
  | kind (name : Text)
  deriving DecidableEq, Repr

inductive Mark where
  | exact (c : Char)
  | any
  | many
  | oneOf (members : List Member)
  | noneOf (members : List Member)
  deriving DecidableEq, Repr

def isPunctuation (c : Char) : Bool := 0x21 ≤ c.toNat && c.toNat ≤ 0x7E && !c.isAlphanum

def isSpace (c : Char) : Bool := c = ' ' || (9 ≤ c.toNat && c.toNat ≤ 13)

def isOfKind (name : Text) (c : Char) : Bool :=
  if name = "alpha" then c.isAlpha
  else if name = "digit" then c.isDigit
  else if name = "alnum" then c.isAlphanum
  else if name = "upper" then c.isUpper
  else if name = "lower" then c.isLower
  else if name = "space" then isSpace c
  else if name = "blank" then c = ' ' || c = '\t'
  else if name = "punct" then isPunctuation c
  else if name = "print" then isPunctuation c || c.isAlphanum || c = ' '
  else if name = "graph" then isPunctuation c || c.isAlphanum
  else if name = "cntrl" then c.toNat < 0x20 || c.toNat = 0x7F
  else if name = "xdigit" then c.isDigit || ('a' ≤ c && c ≤ 'f') || ('A' ≤ c && c ≤ 'F')
  else false

def Member.accepts (c : Char) : Member → Bool
  | range low high => low.toNat ≤ c.toNat && c.toNat ≤ high.toNat
  | kind name => isOfKind name c

/-- A character of a pattern, and whether it is quoted. -/
abbrev Sign := Char × Bool

def signText (s : List Sign) : Text := s.map Prod.fst

/-- The name between the colons of a kind of characters, and what follows its bracket. -/
def kindName? (s : List Sign) : Option (Text × List Sign) :=
  let name := s.takeWhile fun sign => sign.1.isAlpha
  match s.drop name.length with
  | (':', false) :: (']', false) :: rest => some (signText name, rest)
  | _ => none

/-- The members of a class up to its closing bracket, which is one of them at the start. -/
def members? : Nat → Bool → List Sign → Option (List Member × List Sign)
  | 0, _, _ => none
  | _ + 1, _, [] => none
  | fuel + 1, isFirst, (c, isQuoted) :: rest =>
    if c = ']' && !isQuoted && !isFirst then some ([], rest)
    else
      match (if c = '[' && !isQuoted && rest.head? = some (':', false) then kindName? (rest.drop 1)
        else none) with
      | some (name, rest) =>
        (members? fuel false rest).map fun (ms, r) => (.kind name :: ms, r)
      | none =>
        match rest with
        | ('-', false) :: (high, highQuoted) :: rest =>
          if high = ']' && !highQuoted then
            (members? fuel false (('-', true) :: (high, highQuoted) :: rest)).map
              fun (ms, r) => (.range c c :: ms, r)
          else (members? fuel false rest).map fun (ms, r) => (.range c high :: ms, r)
        | rest => (members? fuel false rest).map fun (ms, r) => (.range c c :: ms, r)

def compileFrom : Nat → List Sign → List Mark
  | 0, _ => []
  | _ + 1, [] => []
  | fuel + 1, (c, isQuoted) :: rest =>
    if isQuoted then .exact c :: compileFrom fuel rest
    else if c = '*' then .many :: compileFrom fuel rest
    else if c = '?' then .any :: compileFrom fuel rest
    else if c = '\\' then
      match rest with
      | (d, _) :: rest => .exact d :: compileFrom fuel rest
      | [] => [.exact c]
    else if c = '[' then
      let isNegated := rest.head? = some ('!', false)
      match members? (rest.length + 1) true (if isNegated then rest.drop 1 else rest) with
      | some (ms, after) =>
        (if isNegated then .noneOf ms else .oneOf ms) :: compileFrom fuel after
      | none => .exact c :: compileFrom fuel rest
    else .exact c :: compileFrom fuel rest

def compile (s : List Sign) : List Mark := compileFrom (s.length + 1) s

def accepts : List Mark → Text → Bool
  | [], t => t.isEmpty
  | .many :: marks, t => (suffixes t).any (accepts marks)
  | .any :: marks, _ :: t => accepts marks t
  | .exact d :: marks, c :: t => c = d && accepts marks t
  | .oneOf ms :: marks, c :: t => ms.any (Member.accepts c) && accepts marks t
  | .noneOf ms :: marks, c :: t => !ms.any (Member.accepts c) && accepts marks t
  | _, [] => false

/-- Whether a pattern has a sign that stands for more than itself. -/
def isActive (s : List Sign) : Bool :=
  s.any fun (c, isQuoted) => !isQuoted && (c = '*' || c = '?' || c = '[')

/-- What is left of a text after a match at its start is taken off, or at its end: the shortest
match, or the longest. -/
def cut (atEnd longest : Bool) (marks : List Mark) (t : Text) : Text :=
  let sizes := List.range (t.length + 1)
  let matched := fun n =>
    if atEnd then accepts marks (t.drop (t.length - n)) else accepts marks (t.take n)
  match (if longest then sizes.reverse else sizes).find? matched with
  | some n => if atEnd then t.take (t.length - n) else t.drop n
  | none => t

end Glob

end HeaderConstants.Script
