import HeaderConstants.Script.Regex
import HeaderConstants.Script.Tool

/-!
# Filters

Tools that pass on lines of their operands or of their input: whole, some of them, in another order,
cut, counted, or with characters exchanged.

* `Script.Filter.run?`: the filter of a name.
-/

namespace HeaderConstants.Script
set_option autoImplicit false

namespace Filter

/-- A number at the right end of a field of some width. -/
def rightAligned (width n : Nat) : Text :=
  let t := Text.decimal n
  List.replicate (width - t.length) ' ' ++ t

/-- A character as it is shown to a reader who wants to see the unprintable ones. -/
def visible (c : Char) : Text :=
  let low := fun n : Nat =>
    if n < 32 then ['^', Char.ofNat (n + 64)]
    else if n = 127 then ['^', '?']
    else [Char.ofNat n]
  if c = '\t' then ['\t']
  else if c.toNat < 128 then low c.toNat
  else 'M' :: '-' :: low (c.toNat - 128)

/-- The lines of a text with numbers, of all lines or only of those that are not empty. -/
def numbered (onlyFilled : Bool) : Nat → List Text → List Text
  | _, [] => []
  | n, line :: more =>
    if onlyFilled && line.isEmpty then line :: numbered onlyFilled n more
    else (rightAligned 6 n ++ '\t' :: line) :: numbered onlyFilled (n + 1) more

/-- Drops empty lines that follow an empty one. -/
def withoutRepeatedGaps : List Text → List Text
  | [] :: [] :: more => withoutRepeatedGaps ([] :: more)
  | line :: more => line :: withoutRepeatedGaps more
  | [] => []

def cat (r : Tool) (arguments : List Text) : Tool :=
  r.withOptions "AbeEnstTuv" [] arguments fun o =>
    let (sources, r) := r.sources pathAndReason o.operands
    let content := sources.flatMap Prod.snd
    let showsEnds := o.has 'E' || o.has 'e' || o.has 'A'
    let showsTabs := o.has 'T' || o.has 't' || o.has 'A'
    let showsAll := o.has 'v' || o.has 'e' || o.has 't' || o.has 'A'
    let shown := fun c : Char =>
      if c = '\t' && showsTabs then ['^', 'I'] else if showsAll then visible c else [c]
    let isEnded := content.getLast? = some '\n'
    let lines := if o.has 's' then withoutRepeatedGaps (linesOf content) else linesOf content
    let lines := lines.map (List.flatMap shown)
    let lines := if o.has 'n' || o.has 'b' then numbered (o.has 'b') 1 lines else lines
    let stop : Text := if showsEnds then ['$', '\n'] else ['\n']
    r.say (Text.joined stop lines ++ if isEnded then stop else [])

/-! ## Searching -/

def lowerIf (flag : Bool) (t : Text) : Text := if flag then t.asciiLower else t

/-- The expressions that a search looks for. -/
def expressions (o : Options) (patterns : List Text) : Regex.Expression :=
  (patterns.flatMap (Text.splitWhere (· == '\n'))).flatMap fun pattern =>
    let pattern := lowerIf (o.has 'i') pattern
    if o.has 'F' then Regex.literal pattern else Regex.read (o.has 'E' || o.has 'P') pattern

def isWordEdge (p q : Regex.Place) : Bool :=
  !Regex.Place.isInWord p.before && !Regex.Place.isInWord q.after

def lineMatches (o : Options) (e : Regex.Expression) (line : Text) : Bool :=
  let line := lowerIf (o.has 'i') line
  let found :=
    if o.has 'x' then e.any fun nodes => Regex.occursIn [.lineStart :: nodes ++ [.lineEnd]] line
    else if o.has 'w' then
      ((List.range (line.length + 1)).any fun n =>
        let p := (Regex.start line).advance n
        match Regex.matchAt? e p with
        | some q => isWordEdge p q
        | none => false)
    else Regex.occursIn e line
  found != o.has 'v'

/-- The parts of a line that match, from a place on. -/
def matchesFrom (e : Regex.Expression) : Nat → Regex.Place → List Text
  | 0, _ => []
  | fuel + 1, p =>
    match Regex.find? e (p.after.length + 1) p with
    | none => []
    | some (start, stop) =>
      let t := stop.since start
      if t.isEmpty then
        if stop.after.isEmpty then [] else matchesFrom e fuel (stop.advance 1)
      else t :: matchesFrom e fuel stop

def grepLines (o : Options) (e : Regex.Expression) (mark content : Text) : List Text :=
  let lines := linesOf content
  ((List.range lines.length).zip lines).flatMap fun (i, line) =>
    if lineMatches o e line then
      let mark := if o.has 'n' then mark ++ Text.decimal (i + 1) ++ [':'] else mark
      if o.has 'o' then (matchesFrom e (line.length + 1) (Regex.start line)).map (mark ++ ·)
      else [mark ++ line]
    else []

def firstCount (n : Option Text) (lines : List Text) : List Text :=
  match n.bind (Numeral.read? 10) with
  | some n => lines.take n
  | none => lines

def grepUsage : Text :=
  "Usage: grep [OPTION]... PATTERNS [FILE]...\nTry 'grep --help' for more information.\n"

def grep (r : Tool) (arguments : List Text) : Tool :=
  match Options.read "EFGPivwxcqshHnolLra" "emABCf" arguments with
  | .error message => { r with status := 2, errors := "grep: " ++ message ++ ['\n'] ++ grepUsage }
  | .ok o =>
    match o.values 'e', o.operands with
    | [], [] => { r with status := 2, errors := grepUsage }
    | given, operands =>
      let (patterns, paths) :=
        if given.isEmpty then (operands.take 1, operands.drop 1) else (given, operands)
      let e := expressions o patterns
      let (sources, after) := r.sources pathAndReason paths
      let failed := !after.errors.isEmpty
      let named := (1 < paths.length || o.has 'H') && !o.has 'h'
      let found := sources.map fun (path, content) =>
        let path := if path = ['-'] then ("(standard input)" : Text) else path
        let mark := if named then path ++ [':'] else []
        (path, mark, firstCount (o.value? 'm') (grepLines o e mark content))
      let any := found.any fun entry => !entry.2.2.isEmpty
      let output :=
        if o.has 'q' then []
        else if o.has 'c' then
          found.flatMap fun (_, mark, lines) => mark ++ Text.decimal lines.length ++ ['\n']
        else if o.has 'l' then
          found.flatMap fun (path, _, lines) => if lines.isEmpty then [] else path ++ ['\n']
        else if o.has 'L' then
          found.flatMap fun (path, _, lines) => if lines.isEmpty then path ++ ['\n'] else []
        else found.flatMap fun (_, _, lines) => Emit.unlines lines
      let status := if failed && !(any && o.has 'q') then 2 else if any then 0 else 1
      { after with
        output := output
        status := status
        errors := if o.has 's' then [] else after.errors }

/-! ## Starts, ends and counts -/

/-- A count option in its short form becomes one in the long form. -/
def longCount : List Text → List Text
  | ('-' :: digits) :: more =>
    if !digits.isEmpty && digits.all Char.isDigit then "-n" :: digits :: more
    else ('-' :: digits) :: more
  | arguments => arguments

def headings (o : Options) (parts : List (Text × Text)) : Text :=
  if 1 < o.operands.length && !o.has 'q' then
    Text.joined ['\n'] (parts.map fun (path, t) =>
      let path : Text := if path = ['-'] then "standard input" else path
      "==> " ++ path ++ " <==\n" ++ t)
  else parts.flatMap Prod.snd

/-- The lines of a text with their ends. -/
def endedLines (t : Text) : List Text :=
  match (Text.splitWhere (· == '\n') t).reverse with
  | [] :: more => more.reverse.map (· ++ ['\n'])
  | last :: more => more.reverse.map (· ++ ['\n']) ++ [last]
  | [] => []

def unreadable (path : Text) (e : IoError) : Text :=
  if e = .isDirectory then "error reading " ++ pathAndReason (quoted path) e
  else "cannot open " ++ quoted path ++ " for reading: " ++ reason e

def part (fromEnd : Bool) (o : Options) (content : Text) : Text :=
  let isBytes := o.has 'c'
  let given := ((if isBytes then o.value? 'c' else o.value? 'n').getD "10")
  let sign := given.head?
  let n := (Numeral.read? 10 (given.dropWhile fun c => c = '+' || c = '-')).getD 0
  let units := if isBytes then content.map fun c => [c] else endedLines content
  let size := units.length
  let kept :=
    if fromEnd then
      if sign = some '+' then units.drop (n - 1) else units.drop (size - n)
    else if sign = some '-' then units.take (size - n)
    else units.take n
  kept.flatMap id

def ends (fromEnd : Bool) (r : Tool) (arguments : List Text) : Tool :=
  r.withOptions "qvfz" "nc" (longCount arguments) fun o =>
    let (sources, r) := r.sources unreadable o.operands
    r.say (headings o (sources.map fun (path, content) => (path, part fromEnd o content)))

def counts (r : Tool) (arguments : List Text) : Tool :=
  r.withOptions "lwcmL" [] arguments fun o =>
    let (sources, r) := r.sources pathAndReason o.operands
    let all := !(o.has 'l' || o.has 'w' || o.has 'c' || o.has 'm')
    let numbers := fun content : Text =>
      (if o.has 'l' || all then [content.count '\n'] else [])
        ++ (if o.has 'w' || all then [content.words.length] else [])
        ++ (if o.has 'm' then [content.length] else [])
        ++ (if o.has 'c' || all then [content.length] else [])
    let rows := sources.map fun (path, content) => (path, numbers content)
    let columns := (rows.head?.map fun row => row.2.length).getD 0
    let total := (List.range columns).map fun i =>
      rows.foldl (fun n row => n + ((row.2[i]?).getD 0)) 0
    let rows := if 1 < o.operands.length then rows ++ [("total".toList, total)] else rows
    let bytes := sources.foldl (fun n source => n + source.2.length) 0
    let width :=
      if columns = 1 && o.operands.length < 2 then 1
      else if o.operands.isEmpty || o.operands.contains ['-'] then 7
      else (Text.decimal bytes).length
    r.say (rows.flatMap fun (path, ns) =>
      Text.joined [' '] (ns.map (rightAligned width))
        ++ (if path = ['-'] && o.operands.isEmpty then [] else ' ' :: path) ++ ['\n'])

/-! ## Order -/

/-- The number at the start of a text, in hundredths of a hundredth. -/
def leadingNumber (t : Text) : Int :=
  let t := t.dropWhile isBlank
  let isNegative := t.head? = some '-'
  let t := if isNegative then t.drop 1 else t
  let whole := (Numeral.readFrom? 10 0 (t.takeWhile Char.isDigit)).getD 0
  let fraction :=
    match t.dropWhile Char.isDigit with
    | '.' :: rest => ((rest.takeWhile Char.isDigit) ++ ['0', '0', '0', '0']).take 4
    | _ => ['0', '0', '0', '0']
  let n : Int := whole * 10000 + (Numeral.readFrom? 10 0 fraction).getD 0
  if isNegative then -n else n

/-- The fields of a line: at a separator, or each with the blanks before it. -/
def sortFields (separator : Option Char) (line : Text) : List Text :=
  match separator with
  | some c => Text.splitWhere (· == c) line
  | none =>
    let step := fun (acc : List Text) (c : Char) =>
      match acc with
      | [] => [[c]]
      | field :: more =>
        if isBlank c && field.head?.any (fun d => !isBlank d) then [c] :: field :: more
        else (c :: field) :: more
    ((line.foldl step []).map List.reverse).reverse

/-- A sort key: its first and last fields and the letters after them. -/
structure SortKey where
  first : Nat
  last : Option Nat
  letters : Text
  deriving DecidableEq, Repr

def sortKey (t : Text) : SortKey :=
  let number := fun t : Text => (Numeral.read? 10 (t.takeWhile Char.isDigit)).getD 1
  let isPosition := fun c : Char => c.isDigit || c = '.'
  match Text.splitWhere (· == ',') t with
  | [start] => ⟨number start, none, start.dropWhile isPosition⟩
  | start :: stop :: _ =>
    ⟨number start, some (number stop), start.dropWhile isPosition ++ stop.dropWhile isPosition⟩
  | [] => ⟨1, none, []⟩

def SortKey.text (separator : Option Char) (k : SortKey) (line : Text) : Text :=
  let fields := (sortFields separator line).drop (k.first - 1)
  let fields :=
    match k.last with
    | some n => fields.take (n + 1 - k.first)
    | none => fields
  Text.joined separator.toList fields

/-- Whether a line comes before another one, by one key; nothing if they are alike. -/
def keyBefore? (letters : Text) (a b : Text) : Option Bool :=
  let a := if letters.contains 'b' then a.dropWhile isBlank else a
  let b := if letters.contains 'b' then b.dropWhile isBlank else b
  let a := lowerIf (letters.contains 'f') a
  let b := lowerIf (letters.contains 'f') b
  let before? : Option Bool :=
    if letters.contains 'n' || letters.contains 'g' then
      if leadingNumber a = leadingNumber b then none else some (leadingNumber a < leadingNumber b)
    else if a = b then none
    else some (Text.precedes a b)
  before?.map (· != letters.contains 'r')

def sort (r : Tool) (arguments : List Text) : Tool :=
  r.withOptions "rnufbdgiMhcsz" "kto" arguments fun o =>
    let what := fun path e => "cannot read: " ++ pathAndReason path e
    let (sources, r) := r.sources what o.operands
    if !r.errors.isEmpty then r.ended 2
    else
      let separator := (o.value? 't').bind List.head?
      let letters := o.flags.map Prod.fst
      let keys := (o.values 'k').map sortKey
      let before? := fun a b : Text =>
        if keys.isEmpty then keyBefore? letters a b
        else
          keys.findSome? fun k =>
            keyBefore? (if k.letters.isEmpty then letters else k.letters) (k.text separator a)
              (k.text separator b)
      let lessEqual := fun a b : Text =>
        match before? a b with
        | some t => t
        | none => o.has 'u' || o.has 's' || (if o.has 'r' then !Text.precedes a b
          else !Text.precedes b a)
      let lines := (sources.flatMap fun source => linesOf source.2).mergeSort lessEqual
      let alike := fun a b : Text => (before? a b).isNone
      let lines :=
        if o.has 'u' then
          lines.foldl
            (fun (acc : List Text) line =>
              if acc.head?.any (alike · line) then acc else line :: acc)
            [] |>.reverse
        else lines
      match o.value? 'o' with
      | some path => r.change (pathAndReason path) (writeRaw r.disk path (Emit.unlines lines))
      | none => r.say (Emit.unlines lines)

/-- Runs of equal lines, each with its length. -/
def runs (lines : List Text) : List (Nat × Text) :=
  (lines.foldl
    (fun (acc : List (Nat × Text)) line =>
      match acc with
      | (n, last) :: more => if last = line then (n + 1, last) :: more else (1, line) :: acc
      | [] => [(1, line)])
    []).reverse

def uniq (r : Tool) (arguments : List Text) : Tool :=
  r.withOptions "cdui" [] arguments fun o =>
    let (sources, r) := r.sources pathAndReason (o.operands.take 1)
    let found := runs (sources.flatMap fun source => linesOf source.2)
    let found := found.filter fun (n, _) =>
      (!o.has 'd' || 1 < n) && (!o.has 'u' || n = 1)
    r.say (Emit.unlines (found.map fun (n, line) =>
      if o.has 'c' then rightAligned 7 n ++ ' ' :: line else line))

/-! ## Characters and fields -/

def range (low high : Nat) : Text := (List.range (high + 1 - low)).map fun i => Char.ofNat (low + i)

def allBytes : Text := range 0 255

/-- The characters of a set as `tr` takes it: escapes, ranges and kinds of characters. -/
def characterSet : Nat → Text → Text
  | 0, _ => []
  | _ + 1, [] => []
  | fuel + 1, t =>
    match t with
    | '[' :: ':' :: rest =>
      let name := rest.takeWhile (· ≠ ':')
      allBytes.filter (Glob.isOfKind name) ++ characterSet fuel (rest.drop (name.length + 2))
    | _ =>
      let one : Text → Option (Char × Text) := fun t =>
        match t with
        | '\\' :: c :: rest =>
          if '0' ≤ c && c ≤ '7' then
            let digits := ((c :: rest).takeWhile fun d => '0' ≤ d && d ≤ '7').take 3
            some (Char.ofNat ((Numeral.read? 8 digits).getD 0 % 256),
              (c :: rest).drop digits.length)
          else
            let d := if c = 'n' then '\n' else if c = 't' then '\t' else if c = 'r' then '\r' else c
            some (d, rest)
        | c :: rest => some (c, rest)
        | [] => none
      match one t with
      | none => []
      | some (c, '-' :: rest) =>
        match one rest with
        | some (d, rest) => range c.toNat d.toNat ++ characterSet fuel rest
        | none => [c, '-']
      | some (c, rest) => c :: characterSet fuel rest

/-- A text with runs of one character of a set made single. -/
def squeezed (set : Text) : Text → Text
  | [] => []
  | [c] => [c]
  | c :: d :: rest =>
    if c = d && set.contains c then squeezed set (d :: rest) else c :: squeezed set (d :: rest)

def exchanged (source target : Text) (c : Char) : Char :=
  match source.idxOf? c with
  | some i => (target[min i (target.length - 1)]?).getD c
  | none => c

def translate (r : Tool) (arguments : List Text) : Tool :=
  r.withOptions "cCdst" [] arguments fun o =>
    let sets := o.operands.map fun t => characterSet (t.length + 1) t
    let complement := fun s : Text =>
      if o.has 'c' || o.has 'C' then allBytes.filter fun c => !s.contains c else s
    let (input, r) := r.takeInput
    match sets with
    | [] => r.misuse 1 "missing operand"
    | [first] =>
      let set := complement first
      if o.has 'd' then r.say (input.filter fun c => !set.contains c)
      else if o.has 's' then r.say (squeezed set input)
      else
        r.misuse 1 ("missing operand after " ++ quoted (o.operands.head?.getD [])
          ++ "\nTwo strings must be given when translating.")
    | first :: second :: _ =>
      let set := complement first
      if o.has 'd' then r.say (squeezed second (input.filter fun c => !set.contains c))
      else
        let t := input.map (exchanged set second)
        r.say (if o.has 's' then squeezed second t else t)

/-- Whether a list of numbers and ranges holds a number. -/
def listHolds (list : Text) (n : Nat) : Bool :=
  (Text.splitWhere (· == ',') list).any fun entry =>
    match Text.splitWhere (· == '-') entry with
    | [a] => Numeral.read? 10 a = some n
    | [a, b] =>
      (Numeral.read? 10 a).getD 1 ≤ n && ((Numeral.read? 10 b).all fun high => n ≤ high)
    | _ => false

def chosen {α : Type} (list : Text) (items : List α) : List α :=
  (((List.range items.length).zip items).filter fun entry => listHolds list (entry.1 + 1)).map
    Prod.snd

def cut (r : Tool) (arguments : List Text) : Tool :=
  r.withOptions "sn" "dfcb" arguments fun o =>
    match o.value? 'f', (o.value? 'c').or (o.value? 'b') with
    | none, none => r.misuse 1 "you must specify a list of bytes, characters, or fields"
    | some fields, _ =>
      let separator := ((o.value? 'd').bind List.head?).getD '\t'
      let (sources, r) := r.sources pathAndReason o.operands
      r.say (Emit.unlines ((sources.flatMap fun source => linesOf source.2).filterMap fun line =>
        if line.contains separator then
          some (Text.joined [separator] (chosen fields (Text.splitWhere (· == separator) line)))
        else if o.has 's' then none
        else some line))
    | none, some bytes =>
      let (sources, r) := r.sources pathAndReason o.operands
      r.say (Emit.unlines ((sources.flatMap fun source => linesOf source.2).map (chosen bytes)))

def tee (r : Tool) (arguments : List Text) : Tool :=
  r.withOptions "aip" [] arguments fun o =>
    let (input, r) := r.takeInput
    o.operands.foldl
      (fun r path =>
        match r.disk.stream? (ofRaw path) with
        | some 1 => r.say input
        | some 2 => { r with errors := r.errors ++ input }
        | _ =>
          let before := if o.has 'a' then (readRaw r.disk path).toOption.getD [] else []
          r.change (pathAndReason path) (writeRaw r.disk path (before ++ input)))
      (r.say input)

def run? (name : Text) (r : Tool) (arguments : List Text) : Option Tool :=
  if name = "cat" then some (cat r arguments)
  else if name = "grep" then some (grep r arguments)
  else if name = "egrep" then some (grep { r with name := "grep" } ("-E" :: arguments))
  else if name = "fgrep" then some (grep { r with name := "grep" } ("-F" :: arguments))
  else if name = "head" then some (ends false r arguments)
  else if name = "tail" then some (ends true r arguments)
  else if name = "wc" then some (counts r arguments)
  else if name = "sort" then some (sort r arguments)
  else if name = "uniq" then some (uniq r arguments)
  else if name = "tr" then some (translate r arguments)
  else if name = "cut" then some (cut r arguments)
  else if name = "tee" then some (tee r arguments)
  else none

def names : List Text :=
  ["cat", "grep", "egrep", "fgrep", "head", "tail", "wc", "sort", "uniq", "tr", "cut", "tee"]

end Filter

end HeaderConstants.Script
