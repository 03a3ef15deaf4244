import HeaderConstants.Script.Printf
import HeaderConstants.Script.Tool

/-!
# Tools for files

Copying, moving, linking and removing files and directories, their modes, and their names.

* `Script.FileTool.run?`: the tool of a name.
-/

namespace HeaderConstants.Script
set_option autoImplicit false

namespace FileTool

/-! ## Names -/

def nameParts (path : Text) : List Text :=
  (Text.splitWhere (· == '/') path).filter fun part => !part.isEmpty

def baseName (path : Text) : Text :=
  if path.isEmpty then [] else (nameParts path).getLast?.getD ['/']

def withoutSlashes (t : Text) : Text := (t.reverse.dropWhile (· = '/')).reverse

def dirName (path : Text) : Text :=
  let trimmed := withoutSlashes path
  if trimmed.isEmpty then (if path.isEmpty then ['.'] else ['/'])
  else if !trimmed.contains '/' then ['.']
  else
    let above := withoutSlashes (trimmed.reverse.dropWhile (· ≠ '/')).reverse
    if above.isEmpty then ['/'] else above

/-- A name without a suffix, unless it is nothing else. -/
def withoutSuffix (suffix name : Text) : Text :=
  if Text.endsWith name suffix && name ≠ suffix then name.take (name.length - suffix.length)
  else name

def runBaseName (r : Tool) (arguments : List Text) : Tool :=
  r.withOptions "az" "s" arguments fun o =>
    match o.operands, o.value? 's' with
    | [], _ => r.misuse 1 "missing operand"
    | paths, some suffix =>
      r.say (Emit.unlines (paths.map fun path => withoutSuffix suffix (baseName path)))
    | paths, none =>
      if o.has 'a' then r.say (Emit.unlines (paths.map baseName))
      else
        match paths with
        | [path] => r.say (baseName path ++ ['\n'])
        | [path, suffix] => r.say (withoutSuffix suffix (baseName path) ++ ['\n'])
        | paths => r.misuse 1 ("extra operand " ++ quoted ((paths[2]?).getD []))

def runDirName (r : Tool) (arguments : List Text) : Tool :=
  r.withOptions "z" [] arguments fun o =>
    if o.operands.isEmpty then r.misuse 1 "missing operand"
    else r.say (Emit.unlines (o.operands.map dirName))

/-! ## Modes -/

def setExecutable (d : Disk) (path : Text) (executable : Bool) : Except IoError Disk := do
  let (p, onlyDirectory) ← d.locate (ofRaw path)
  match d.node? p with
  | none => throw .notFound
  | some (.file content _) =>
    if onlyDirectory then throw .notDirectory else pure (d.put p (.file content executable))
  | some _ => pure d

/-- Whether a symbolic clause of a mode makes a file executable; none if it says nothing of that. -/
def clause? (clause : Text) : Option (Option Bool) :=
  let isWho := fun c => c = 'u' || c = 'g' || c = 'o' || c = 'a'
  let isPermission := fun c =>
    c = 'r' || c = 'w' || c = 'x' || c = 'X' || c = 's' || c = 't' || isWho c
  match clause.dropWhile isWho with
  | sign :: what =>
    if !what.all isPermission then none
    else if sign = '+' then some (if what.contains 'x' then some true else none)
    else if sign = '-' then some (if what.contains 'x' then some false else none)
    else if sign = '=' then some (some (what.contains 'x'))
    else none
  | [] => none

/-- Whether a mode makes a file executable; nothing if it is no mode. -/
def mode? (mode : Text) : Option (Option Bool) :=
  if !mode.isEmpty && mode.all isOctalDigit then
    if 4096 ≤ (Numeral.read? 8 mode).getD 0 then none
    else some (some (mode.any fun c => (c.toNat - '0'.toNat) % 2 = 1))
  else
    (Text.splitWhere (· == ',') mode).foldl
      (fun acc clause => acc.bind fun before => (clause? clause).map fun now => now.or before)
      (some none)

def isModeWord (t : Text) : Bool :=
  t.head? = some '-' && 1 < t.length && (t.drop 1).all fun c => c = 'r' || c = 'w' || c = 'x'

def chmod (r : Tool) (arguments : List Text) : Tool :=
  let arguments :=
    match arguments with
    | t :: more => if isModeWord t then "--" :: t :: more else t :: more
    | [] => []
  r.withOptions "cfvR" [] arguments fun o =>
    match o.operands with
    | [] => r.misuse 1 "missing operand"
    | [mode] => r.misuse 1 ("missing operand after " ++ quoted mode)
    | mode :: paths =>
      match mode? mode with
      | none => r.misuse 1 ("invalid mode: " ++ quoted mode)
      | some change =>
        paths.foldl
          (fun r path =>
            match nodeAt? r.disk path, change with
            | some _, some executable =>
              r.change (pathAndReason path) (setExecutable r.disk path executable)
            | some _, none => r
            | none, _ =>
              r.complain ("cannot access " ++ quoted path ++ ": " ++ reason .notFound))
          r

/-! ## Making and removing -/

def touch (r : Tool) (arguments : List Text) : Tool :=
  r.withOptions "acmhf" "dtr" arguments fun o =>
    if o.operands.isEmpty then r.misuse 1 "missing file operand"
    else
      o.operands.foldl
        (fun r path =>
          if (nodeAt? r.disk path).isSome || o.has 'c' then r
          else if path.getLast? = some '/' then
            r.complain ("setting times of " ++ pathAndReason (quoted path) .notFound)
          else
            r.change (fun e => "cannot touch " ++ pathAndReason (quoted path) e)
              (writeRaw r.disk path []))
        r

def refusedDirectory (path why : Text) : Text :=
  "cannot create directory " ++ quoted path ++ ": " ++ why

def makeDirectory (r : Tool) (path : Text) : Tool :=
  let what := fun e => refusedDirectory path (reason e)
  match r.disk.locate (ofRaw path) with
  | .error e => r.complain (what e)
  | .ok (p, _) =>
    if (r.disk.node? p).isSome then r.complain (refusedDirectory path "File exists")
    else if r.disk.node? p.dropLast = some .directory then
      { r with disk := r.disk.put p .directory }
    else r.complain (what .notFound)

/-- The starts of a path at its slashes, and the path. -/
def pathStarts (path : Text) : List Text :=
  let parts := Text.splitWhere (· == '/') path
  ((List.range parts.length).map fun n => Text.joined ['/'] (parts.take (n + 1))).filter
    fun start => !start.isEmpty

/-- Makes the directories of some paths, each in the one before it, as far as they are missing. -/
def makeDirectories (make : Tool → Text → Tool) : List Text → Tool → Tool
  | [], r => r
  | start :: more, r =>
    match nodeAt? r.disk start with
    | some .directory => makeDirectories make more r
    | some _ =>
      let why : Text := if more.isEmpty then "File exists" else reason .notDirectory
      r.complain (refusedDirectory start why)
    | none => makeDirectories make more (make r start)

def mkdir (r : Tool) (arguments : List Text) : Tool :=
  r.withOptions "pv" "m" arguments fun o =>
    let make := fun (r : Tool) (path : Text) =>
      let made := makeDirectory r path
      if o.has 'v' && made.disk ≠ r.disk then
        made.say (r.name ++ ": created directory " ++ quoted path ++ ['\n'])
      else made
    if o.operands.isEmpty then r.misuse 1 "missing operand"
    else
      o.operands.foldl
        (fun r path =>
          if o.has 'p' then makeDirectories make (pathStarts path) r else make r path)
        r

def isEmptyDirectory (d : Disk) (path : Text) : Bool :=
  match d.locate (ofRaw path) with
  | .ok (p, _) => !d.nodes.any fun entry => entry.1 ≠ p && p.isPrefixOf entry.1
  | .error _ => false

def rmdir (r : Tool) (arguments : List Text) : Tool :=
  r.withOptions "pv" [] arguments fun o =>
    if o.operands.isEmpty then r.misuse 1 "missing operand"
    else
      o.operands.foldl
        (fun r path =>
          let refuse := fun (why : Text) =>
            r.complain ("failed to remove " ++ quoted path ++ ": " ++ why)
          match nodeAt? r.disk path with
          | none => refuse (reason .notFound)
          | some .directory =>
            if isEmptyDirectory r.disk path then
              { r with disk := r.disk.removeTree (ofRaw path) }
            else refuse "Directory not empty"
          | some _ => refuse (reason .notDirectory))
        r

/-- Removes what is at a path, a directory only if the options say so. -/
def removeOne (o : Options) (r : Tool) (path : Text) : Tool :=
  let refuse := fun (why : Text) => r.complain ("cannot remove " ++ quoted path ++ ": " ++ why)
  let removed := fun (what : Text) =>
    let r := { r with disk := r.disk.removeTree (ofRaw path) }
    if o.has 'v' then r.say (what ++ quoted path ++ ['\n']) else r
  let isWhole := o.has 'r' || o.has 'R'
  let base := baseName path
  match nodeAt? r.disk path with
  | none => if o.has 'f' then r else refuse (reason .notFound)
  | some .directory =>
    if isWhole && base = ['/'] then
      (r.complain "it is dangerous to operate recursively on '/'").complain
        "use --no-preserve-root to override this failsafe"
    else if isWhole && (base = ['.'] || base = ['.', '.']) then
      r.complain ("refusing to remove '.' or '..' directory: skipping " ++ quoted path)
    else if isWhole then removed "removed directory "
    else if !o.has 'd' then refuse (reason .isDirectory)
    else if isEmptyDirectory r.disk path then removed "removed directory "
    else refuse "Directory not empty"
  | some _ => removed "removed "

def remove (r : Tool) (arguments : List Text) : Tool :=
  r.withOptions "firRvId" [] arguments fun o =>
    if o.operands.isEmpty && !o.has 'f' then r.misuse 1 "missing operand"
    else o.operands.foldl (removeOne o) r

/-! ## Copying -/

/-- Where a copy goes: into a directory it keeps its name. -/
def destination (d : Disk) (source target : Text) : Text :=
  if d.isDirectory (ofRaw target) then
    (if target.getLast? = some '/' then target else target ++ ['/']) ++ baseName source
  else target

def copyFile (d : Disk) (source target : Text) : Except IoError Disk := do
  let content ← readRaw d source
  if target.getLast? = some '/' then throw .notDirectory
  let d' ← writeRaw d target content
  match nodeAt? d source with
  | some (.file _ true) =>
    if (nodeAt? d target).isSome then pure d' else setExecutable d' target true
  | _ => pure d'

/-- The nodes at and below one place, put at another one. -/
def transplanted (d : Disk) (p q : Path) : List (Path × Node) :=
  d.nodes.filterMap fun entry =>
    if p.isPrefixOf entry.1 then some (q ++ entry.1.drop p.length, entry.2) else none

/-- Copies a directory with all that is in it. -/
def copyTree (d : Disk) (source target : Text) : Except IoError Disk := do
  let (p, _) ← d.locate (ofRaw source)
  let (q, _) ← d.locate (ofRaw target)
  if (d.node? q.dropLast) ≠ some .directory then throw .notFound
  let copies := transplanted d p q
  let kept := d.nodes.filter fun entry => !copies.any fun copy => copy.1 = entry.1
  pure { d with nodes := copies ++ kept }

/-- Moves whatever is at a path. -/
def moveTree (d : Disk) (source target : Text) : Except IoError Disk := do
  let (p, _) ← d.locate (ofRaw source)
  let (q, _) ← d.locate (ofRaw target)
  if (d.node? q.dropLast) ≠ some .directory then throw .notFound
  let kept := d.nodes.filter fun entry => !p.isPrefixOf entry.1 && entry.1 ≠ q
  pure { d with nodes := transplanted d p q ++ kept }

/-- How two paths lie to each other that something is copied or moved between. -/
inductive Relation where
  | apart
  | same
  | inside
  deriving DecidableEq, Repr

def relation (d : Disk) (source target : Text) : Relation :=
  match d.locate (ofRaw source), d.locate (ofRaw target) with
  | .ok (p, _), .ok (q, _) =>
    if p = q then .same else if p.isPrefixOf q then .inside else .apart
  | _, _ => .apart

/-- Copies or moves one operand. -/
def transferOne (o : Options) (isMove : Bool) (target : Text) (r : Tool) (source : Text) : Tool :=
  let place := destination r.disk source target
  let isTree := o.has 'r' || o.has 'R' || o.has 'a'
  let told := fun (sign : Text) (after : Tool) =>
    if o.has 'v' && after.errors = r.errors then
      after.say (sign ++ quoted source ++ " -> " ++ quoted place ++ ['\n'])
    else after
  let itself := quoted source ++ " to a subdirectory of itself, " ++ quoted place
  match nodeAt? r.disk source, relation r.disk source place with
  | none, _ => r.complain ("cannot stat " ++ pathAndReason (quoted source) .notFound)
  | some _, .same =>
    r.complain (quoted source ++ " and " ++ quoted place ++ " are the same file")
  | some .directory, .inside =>
    if isMove then r.complain ("cannot move " ++ itself)
    else if isTree then
      r.complain ("cannot copy a directory, " ++ quoted source ++ ", into itself, " ++ quoted place)
    else r.complain ("-r not specified; omitting directory " ++ quoted source)
  | some node, _ =>
    if o.has 'n' && (nodeAt? r.disk place).isSome then
      if isMove then r.complain ("not replacing " ++ quoted place) else r
    else if isMove then
      told "renamed " (r.change (fun e => "cannot move " ++ quoted source ++ " to "
        ++ pathAndReason (quoted place) e) (moveTree r.disk source place))
    else
      match node with
      | .directory =>
        if isTree then
          told [] (r.change (fun e => "cannot create directory " ++ pathAndReason (quoted place) e)
            (copyTree r.disk source place))
        else r.complain ("-r not specified; omitting directory " ++ quoted source)
      | _ =>
        told [] (r.change (fun e => "cannot create regular file " ++ pathAndReason (quoted place) e)
          (copyFile r.disk source place))

/-- Copies or moves the operands but the last one to the last one. -/
def transfer (r : Tool) (o : Options) (isMove : Bool) : Tool :=
  let o :=
    match o.value? 't' with
    | some target => { o with operands := o.operands ++ [target] }
    | none => o
  match o.operands.reverse with
  | [] => r.misuse 1 "missing file operand"
  | [path] => r.misuse 1 ("missing destination file operand after " ++ quoted path)
  | target :: sources =>
    if 1 < sources.length && !r.disk.isDirectory (ofRaw target) then
      r.complain ("target " ++ quoted target ++ ": "
        ++ reason (if (nodeAt? r.disk target).isSome then .notDirectory else .notFound))
    else sources.reverse.foldl (transferOne o isMove target) r

def copy (r : Tool) (arguments : List Text) : Tool :=
  r.withOptions "abdfHilLnpPrRsTuvxZ" "tS" arguments fun o => transfer r o false

def move (r : Tool) (arguments : List Text) : Tool :=
  r.withOptions "bfinTuvZ" "tS" arguments fun o => transfer r o true

/-- A link is a copy: nothing tells them apart as long as the file is not written again. -/
def link (r : Tool) (arguments : List Text) : Tool :=
  r.withOptions "bdfFiLnPrsTv" "tS" arguments fun o =>
    match o.operands with
    | [source] => transfer r { o with operands := [source, ['.']] } false
    | [source, target] =>
      let place := destination r.disk source target
      if (nodeAt? r.disk place).isSome && !o.has 'f' then
        r.complain ("failed to create " ++ (if o.has 's' then "symbolic " else "hard ") ++ "link "
          ++ quoted place ++ ": File exists")
      else
        let origin :=
          if o.has 's' && source.head? ≠ some '/' then dirName place ++ '/' :: source else source
        if (nodeAt? r.disk origin).isSome then
          { r with disk := (copyFile r.disk origin place).toOption.getD r.disk }
        else if o.has 's' then r
        else r.complain ("failed to access " ++ pathAndReason (quoted source) .notFound)
    | _ => transfer r o false

/-! ## Listing -/

def nameLessEqual (a b : Text) : Bool := !Text.precedes b a

/-- The names in a directory, in order. -/
def entryNames (d : Disk) (p : Path) : List Text :=
  let names := d.nodes.filterMap fun entry =>
    if entry.1.dropLast = p && !entry.1.isEmpty then entry.1.getLast?.map toRaw else none
  names.mergeSort nameLessEqual

/-- What a listing adds to the name of something at a place. -/
def classMark (o : Options) (d : Disk) (p : Path) : Text :=
  match d.node? p with
  | some .directory => if o.has 'F' || o.has 'p' then ['/'] else []
  | some (.file _ true) => if o.has 'F' then ['*'] else []
  | _ => []

/-- The names in a directory that a listing shows. -/
def shownNames (d : Disk) (o : Options) (p : Path) : List Text :=
  let names := (entryNames d p).filter fun name =>
    o.has 'a' || o.has 'A' || name.head? ≠ some '.'
  let names := if o.has 'a' then ['.'] :: ['.', '.'] :: names else names
  if o.has 'r' then names.reverse else names

def listed (d : Disk) (o : Options) (p : Path) : Text :=
  Emit.unlines ((shownNames d o p).map fun name => name ++ classMark o d (p ++ [ofRaw name]))

/-- A directory and, if asked for, those in it at any depth, with their paths. -/
def directoriesFrom (d : Disk) (o : Options) : Nat → Text → Path → List (Text × Path)
  | 0, path, p => [(path, p)]
  | fuel + 1, path, p =>
    let inner := (shownNames d { o with flags := o.flags.filter (·.1 ≠ 'a') } p).filter
      fun name => d.node? (p ++ [ofRaw name]) = some .directory
    (path, p) :: if o.has 'R' then
      inner.flatMap fun name =>
        directoriesFrom d o fuel (path ++ '/' :: name) (p ++ [ofRaw name])
    else []

def list (r : Tool) (arguments : List Text) : Tool :=
  r.withOptions "1aACdFlhRrStopnxU" [] arguments fun o =>
    let paths := if o.operands.isEmpty then [['.']] else o.operands.mergeSort nameLessEqual
    let paths := if o.has 'r' then paths.reverse else paths
    let missing := paths.filter fun path => (nodeAt? r.disk path).isNone
    let isListed := fun path => nodeAt? r.disk path = some .directory && !o.has 'd'
    let files := paths.filter fun path => (nodeAt? r.disk path).isSome && !isListed path
    let placeOf := fun path => ((r.disk.locate (ofRaw path)).toOption.map Prod.fst).getD []
    let directories := (paths.filter isListed).flatMap fun path =>
      directoriesFrom r.disk o r.disk.nodes.length path (placeOf path)
    let r := missing.foldl
      (fun r path => r.report 2 ("cannot access " ++ pathAndReason (quoted path) .notFound)) r
    let r := r.say (Emit.unlines (files.map fun path => path ++ classMark o r.disk (placeOf path)))
    let named := 1 < paths.length || o.has 'R'
    let parts := directories.map fun (path, p) =>
      (if named then path ++ [':', '\n'] else []) ++ listed r.disk o p
    r.say ((if files.isEmpty || parts.isEmpty then [] else ['\n']) ++ Text.joined ['\n'] parts)

def workingPath (d : Disk) : Text := '/' :: Text.joined ['/'] (d.workingDirectory.map toRaw)

def run? (name : Text) (r : Tool) (arguments : List Text) : Option Tool :=
  if name = "chmod" then some (chmod r arguments)
  else if name = "touch" then some (touch r arguments)
  else if name = "cp" then some (copy r arguments)
  else if name = "mv" then some (move r arguments)
  else if name = "ln" then some (link r arguments)
  else if name = "rm" then some (remove r arguments)
  else if name = "mkdir" then some (mkdir r arguments)
  else if name = "rmdir" then some (rmdir r arguments)
  else if name = "ls" then some (list r arguments)
  else if name = "pwd" then some (r.say (workingPath r.disk ++ ['\n']))
  else if name = "basename" then some (runBaseName r arguments)
  else if name = "dirname" then some (runDirName r arguments)
  else none

def names : List Text :=
  ["chmod", "touch", "cp", "mv", "ln", "rm", "mkdir", "rmdir", "ls", "pwd", "basename", "dirname"]

end FileTool

end HeaderConstants.Script
