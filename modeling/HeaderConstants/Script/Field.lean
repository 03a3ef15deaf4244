import HeaderConstants.Script.FileTool
import HeaderConstants.Script.Glob

/-!
# Fields

An expanded word is a row of characters, each with its origin: the word itself, where a pattern can
name files; an expansion, which is also cut at separators; or quoted text. Fields are cut from it,
and a field that is a pattern becomes the names of the files that it matches.

* `Script.Field.cut`: the fields of an expanded word;
* `Script.Field.names`: the texts of a field.
-/

namespace HeaderConstants.Script
set_option autoImplicit false

inductive Origin where
  | literal
  | loose
  | firm
  deriving DecidableEq, Repr

/-- A character; a mark of quotes, which make a field even of nothing; or the border between two
arguments. -/
inductive Atom where
  | glyph (c : Char) (origin : Origin)
  | quotes
  | border
  deriving DecidableEq, Repr

namespace Field

def ofText (origin : Origin) (t : Text) : List Atom := t.map (Atom.glyph · origin)

/-- The text that an expansion gives. -/
def ofExpansion (isQuoted : Bool) (t : Text) : List Atom :=
  if isQuoted then .quotes :: ofText .firm t else ofText .loose t

/-- What stands in the word of an expansion counts as expanded. -/
def loosened (isQuoted : Bool) : Atom → Atom
  | .glyph c .literal => .glyph c (if isQuoted then .firm else .loose)
  | a => a

/-- The text of a word that is not cut. -/
def wholeText (atoms : List Atom) : Text :=
  atoms.flatMap fun
    | .glyph c _ => [c]
    | .quotes => []
    | .border => [' ']

/-- A word as a pattern: what is quoted stands for itself. -/
def pattern (atoms : List Atom) : List Glob.Sign :=
  atoms.flatMap fun
    | .glyph c origin => [(c, origin = .firm)]
    | .quotes => []
    | .border => [(' ', true)]

/-- The fields that are complete, the one that is open, and whether a blank has just ended a field,
so that the separator after it ends none. -/
structure State where
  complete : List (List Glob.Sign)
  current : Option (List Glob.Sign)
  isEnded : Bool
  deriving DecidableEq, Repr

namespace State

def put (s : State) (sign : Option Glob.Sign) : State :=
  { s with current := some (s.current.getD [] ++ sign.toList), isEnded := false }

def close (s : State) (isEnded : Bool) : State :=
  ⟨s.complete ++ s.current.toList, none, isEnded⟩

def isBlankSeparator (c : Char) : Bool := c = ' ' || c = '\t' || c = '\n'

def separate (s : State) (c : Char) : State :=
  if isBlankSeparator c then (if s.current.isSome then s.close true else s)
  else
    match s.current with
    | some _ => s.close false
    | none =>
      if s.isEnded then { s with isEnded := false }
      else { s with complete := s.complete ++ [[]] }

def feed (separators : Text) (s : State) (a : Atom) : State :=
  match a with
  | .quotes => s.put none
  | .border => s.close false
  | .glyph c .loose => if separators.contains c then s.separate c else s.put (some (c, false))
  | .glyph c origin => s.put (some (c, origin = .firm))

end State

def cut (separators : Text) (atoms : List Atom) : List (List Glob.Sign) :=
  ((atoms.foldl (State.feed separators) ⟨[], none, false⟩).close false).complete

/-! ## Names of files -/

/-- The parts of a pattern at its slashes. -/
def splitSigns : List Glob.Sign → List (List Glob.Sign)
  | [] => [[]]
  | sign :: rest =>
    if sign.1 = '/' then [] :: splitSigns rest
    else
      match splitSigns rest with
      | [] => [[sign]]
      | part :: more => (sign :: part) :: more

/-- The names in a directory that a part matches; a leading dot has to be written. -/
def matchingNames (d : Disk) (directory : Text) (part : List Glob.Sign) : List Text :=
  match d.locate (ofRaw (if directory.isEmpty then ['.'] else directory)) with
  | .error _ => []
  | .ok (p, _) =>
    let marks := Glob.compile part
    let names := FileTool.entryNames d p
    if (part.head?.map Prod.fst) = some '.' then
      (['.'] :: ['.', '.'] :: names).filter (Glob.accepts marks)
    else names.filter fun name => name.head? ≠ some '.' && Glob.accepts marks name

/-- The paths that parts match, each after the start of a path. -/
def expandParts (d : Disk) : List (List Glob.Sign) → Text → List Text
  | [], path => [path]
  | [part], path =>
    if Glob.isActive part then (matchingNames d path part).map (path ++ ·)
    else
      let whole := path ++ Glob.signText part
      if (nodeAt? d whole).isSome then [whole] else []
  | part :: more, path =>
    if Glob.isActive part then
      (matchingNames d path part).flatMap fun name =>
        let inner := path ++ name
        if nodeAt? d inner = some .directory then expandParts d more (inner ++ ['/']) else []
    else expandParts d more (path ++ Glob.signText part ++ ['/'])

/-- The texts of a field: the paths that it matches, or itself if it is no pattern or matches
none. -/
def names (d : Disk) (expands : Bool) (field : List Glob.Sign) : List Text :=
  let found :=
    if expands && Glob.isActive field then expandParts d (splitSigns field) [] else []
  if found.isEmpty then [Glob.signText field] else found

end Field

end HeaderConstants.Script
