import HeaderConstants.Proofs.Header.Definition

/-!
# The lines of a header

A header has one constant for each of its definition lines, in their order and with their numbers.
A header is read if all of these lines are; if not, the first one that is not is the error.

* `Header.definitionLines`: the definition lines of a text with their numbers;
* `Header.parse_eq_mapM`: a header is read definition line by definition line;
* `Header.parse_takes_definition_lines`: what is read, and what is reported.
-/

namespace HeaderConstants.Header
set_option autoImplicit false

open Text

variable {file contents : Text} {number : Nat} {lines : List Text} {line : Text × Nat}
  {c : Constant} {e : LocatedError}

/-! ## Definition lines -/

/-- The lines that start with the directive when they are trimmed, each with its number. -/
def definitionLinesFrom (number : Nat) (lines : List Text) : List (Text × Nat) :=
  (lines.zipIdx number).filter fun line => isDefinition line.1.trim

def definitionLines (contents : Text) : List (Text × Nat) := definitionLinesFrom 1 contents.lines

theorem definitionLinesFrom_cons (number : Nat) (line : Text) (more : List Text) :
    definitionLinesFrom number (line :: more) =
      if isDefinition line.trim then (line, number) :: definitionLinesFrom (number + 1) more
      else definitionLinesFrom (number + 1) more := by
  rw [definitionLinesFrom, List.zipIdx_cons, List.filter_cons]
  rfl

theorem isDefinition_of_mem (h : line ∈ definitionLinesFrom number lines) :
    isDefinition line.1.trim = true :=
  (List.mem_filter.1 h).2

theorem mem_definitionLines_iff :
    line ∈ definitionLines contents ↔ ∃ i, line.2 = i + 1 ∧ contents.lines[i]? = some line.1 ∧
      directive <+: line.1.trim := by
  rw [definitionLines, definitionLinesFrom, List.mem_filter,
    List.mem_zipIdx_iff_le_and_getElem?_sub, isDefinition, startsWith, List.isPrefixOf_iff_prefix]
  constructor
  · rintro ⟨⟨hnumber, hline⟩, hdirective⟩
    exact ⟨line.2 - 1, by omega, hline, hdirective⟩
  · rintro ⟨i, hi, hline, hdirective⟩
    rw [hi, Nat.add_sub_cancel]
    exact ⟨⟨Nat.succ_le_succ (Nat.zero_le i), hline⟩, hdirective⟩

/-- The numbers increase from line to line. -/
theorem pairwise_definitionLinesFrom (number : Nat) (lines : List Text) :
    (definitionLinesFrom number lines).Pairwise fun line later => line.2 < later.2 := by
  refine List.Pairwise.filter _ ?_
  induction lines generalizing number with
  | nil => exact .nil
  | cons line more ih =>
    refine List.pairwise_cons.2 ⟨fun later hlater => ?_, ih (number + 1)⟩
    exact List.le_snd_of_mem_zipIdx hlater

theorem parseDefinition_trim (line : Text) : parseDefinition line.trim = parseDefinition line := by
  rw [parseDefinition, parseDefinition, trim_trim]

/-- A line that starts with the directive is read, unless its parentheses are left open. -/
theorem parseDefinition_cases {line : Text} (h : isDefinition line.trim = true) :
    (∃ d, parseDefinition line = .ok d) ∨
      parseDefinition line = .error (.unbalanced line.trim) := by
  rw [parseDefinition, if_pos h]
  cases definition? (line.trim.drop directive.length) with
  | none => exact .inr rfl
  | some d => exact .inl ⟨d, rfl⟩

/-! ## Constants of the lines -/

/-- The constant of a definition line. -/
def constantAt (file : Text) (line : Text × Nat) : Except LocatedError Constant :=
  match parseDefinition line.1 with
  | .ok d => .ok (.define d.name d.value file line.2 line.1.trim)
  | .error cause => .error ⟨file, line.2, cause⟩

theorem constantAt_eq_ok_iff :
    constantAt file line = .ok c ↔ ∃ d, parseDefinition line.1 = .ok d ∧
      c = .define d.name d.value file line.2 line.1.trim := by
  rw [constantAt]
  cases parseDefinition line.1 with
  | error cause => simp
  | ok d => simp [eq_comm]

theorem constantAt_eq_error_iff (h : isDefinition line.1.trim = true) :
    constantAt file line = .error e ↔ parseDefinition line.1 = .error (.unbalanced line.1.trim) ∧
      e = ⟨file, line.2, .unbalanced line.1.trim⟩ := by
  rw [constantAt]
  rcases parseDefinition_cases h with ⟨d, hd⟩ | hd
  · simp [hd]
  · simp [hd, eq_comm]

theorem constantsFrom_eq_mapM (file : Text) (number : Nat) (lines : List Text) :
    constantsFrom file number (lines.map trimEnd) =
      (definitionLinesFrom number lines).mapM (constantAt file) := by
  induction lines generalizing number with
  | nil => rfl
  | cons line more ih =>
    rw [List.map_cons, constantsFrom, trimStart_trimEnd, parseDefinition_trim, ih (number + 1),
      definitionLinesFrom_cons]
    split
    · rw [List.mapM_cons, constantAt]
      cases parseDefinition line with
      | error cause => rfl
      | ok d => rfl
    · rfl

theorem parse_eq_mapM (file contents : Text) :
    parse file contents = ((definitionLines contents).mapM (constantAt file)).map fun cs =>
      ⟨file, cs, copyrightOf (contents.lines.map trimEnd)⟩ := by
  rw [parse, constantsFrom_eq_mapM, definitionLines]
  rfl

/-! ## Headers -/

theorem exists_constantAt_iff :
    (∃ c, constantAt file line = .ok c) ↔ ∃ d, parseDefinition line.1 = .ok d := by
  constructor
  · rintro ⟨c, hc⟩
    obtain ⟨d, hd, -⟩ := constantAt_eq_ok_iff.1 hc
    exact ⟨d, hd⟩
  · rintro ⟨d, hd⟩
    exact ⟨_, constantAt_eq_ok_iff.2 ⟨d, hd, rfl⟩⟩

theorem exists_parse_iff :
    (∃ header, parse file contents = .ok header) ↔
      ∀ line ∈ definitionLines contents, ∃ d, parseDefinition line.1 = .ok d := by
  simp only [parse_eq_mapM, map_eq_ok_iff]
  constructor
  · rintro ⟨header, cs, hcs, -⟩ line hline
    exact exists_constantAt_iff.1 (exists_of_mapM hcs hline)
  · intro hread
    obtain ⟨cs, hcs⟩ := exists_mapM_eq_ok fun line hline =>
      exists_constantAt_iff.2 (hread line hline)
    exact ⟨_, cs, hcs, rfl⟩

/-- The constant is what the definition of the numbered line says, and has no value yet. -/
def IsDefinedAt (file : Text) (line : Text × Nat) (c : Constant) : Prop :=
  ∃ d, parseDefinition line.1 = .ok d ∧
    c = ⟨d.name, d.value, file, line.2, Constant.defuse line.1.trim, none, []⟩

theorem forall₂_of_parse {header : Header} (h : parse file contents = .ok header) :
    header.fileName = file ∧
      List.Forall₂ (IsDefinedAt file) (definitionLines contents) header.constants := by
  rw [parse_eq_mapM, map_eq_ok_iff] at h
  obtain ⟨cs, hcs, rfl⟩ := h
  refine ⟨rfl, (mapM_eq_ok_iff.1 hcs).imp fun line c hc => ?_⟩
  exact constantAt_eq_ok_iff.1 hc

/-- The constants have the numbers of the definition lines. -/
theorem map_sourceLine_of_isDefinedAt {lines : List (Text × Nat)} {cs : List Constant}
    (h : List.Forall₂ (IsDefinedAt file) lines cs) :
    cs.map Constant.sourceLine = lines.map Prod.snd := by
  induction h with
  | nil => rfl
  | cons hc hmore ih =>
    obtain ⟨d, -, rfl⟩ := hc
    rw [List.map_cons, List.map_cons, ih]

theorem pairwise_sourceLine_of_parse {header : Header} (h : parse file contents = .ok header) :
    (header.constants.map Constant.sourceLine).Pairwise (· < ·) := by
  rw [map_sourceLine_of_isDefinedAt (forall₂_of_parse h).2, List.pairwise_map]
  exact pairwise_definitionLinesFrom 1 contents.lines

theorem parse_eq_error_iff :
    parse file contents = .error e ↔ ∃ before line after,
      definitionLines contents = before ++ line :: after ∧
      (∀ earlier ∈ before, ∃ d, parseDefinition earlier.1 = .ok d) ∧
      parseDefinition line.1 = .error (.unbalanced line.1.trim) ∧
      e = ⟨file, line.2, .unbalanced line.1.trim⟩ := by
  rw [parse_eq_mapM, map_eq_error_iff, mapM_eq_error_iff]
  refine exists_congr fun before => exists_congr fun line => exists_congr fun after => ?_
  refine and_congr_right fun hsplit => ?_
  have hline : isDefinition line.1.trim = true :=
    isDefinition_of_mem (hsplit ▸ List.mem_append_right before (List.mem_cons_self ..))
  rw [constantAt_eq_error_iff hline]
  simp only [exists_constantAt_iff]

/-- The definition lines of a text are those that start with the directive when they are trimmed;
their numbers, counted from one, increase. A header is read exactly if each of them is, and then has
one constant for each. If not, the error is at the first one that is not read, whose parentheses
are left open. -/
theorem parse_takes_definition_lines (file contents : Text) :
    ((∀ line, line ∈ definitionLines contents ↔ ∃ i, line.2 = i + 1 ∧
        contents.lines[i]? = some line.1 ∧ directive <+: line.1.trim) ∧
      (definitionLines contents).Pairwise fun line later => line.2 < later.2) ∧
    ((∃ header, parse file contents = .ok header) ↔
      ∀ line ∈ definitionLines contents, ∃ d, parseDefinition line.1 = .ok d) ∧
    (∀ header, parse file contents = .ok header → header.fileName = file ∧
      List.Forall₂ (IsDefinedAt file) (definitionLines contents) header.constants ∧
      (header.constants.map Constant.sourceLine).Pairwise (· < ·)) ∧
    ∀ e, parse file contents = .error e ↔ ∃ before line after,
      definitionLines contents = before ++ line :: after ∧
      (∀ earlier ∈ before, ∃ d, parseDefinition earlier.1 = .ok d) ∧
      parseDefinition line.1 = .error (.unbalanced line.1.trim) ∧
      e = ⟨file, line.2, .unbalanced line.1.trim⟩ := by
  refine ⟨⟨fun line => mem_definitionLines_iff, pairwise_definitionLinesFrom 1 contents.lines⟩,
    exists_parse_iff, fun header h => ?_, fun e => parse_eq_error_iff⟩
  obtain ⟨hfile, hconstants⟩ := forall₂_of_parse h
  exact ⟨hfile, hconstants, pairwise_sourceLine_of_parse h⟩

example : parse "t.h" "\r\n\t#define CKA_A (1 +\t2)\r\n#define\n  #define CKA_B (2" =
    .error ⟨"t.h", 4, .unbalanced "#define CKA_B (2"⟩ := by
  rfl

end HeaderConstants.Header
