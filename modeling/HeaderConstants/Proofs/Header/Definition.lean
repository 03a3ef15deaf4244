import Mathlib.Data.List.Basic
import HeaderConstants.Header.Parse
import HeaderConstants.Proofs.Numeral.Hex
import HeaderConstants.Proofs.Result
import HeaderConstants.Proofs.Text.Line

/-!
# Definition lines written and read

A token that was read is read again where it is followed by a blank or by nothing. A name and a
value that are tokens, with the directive before them on a line of its own, are therefore read as
the definition of the name by the value.

* `Header.Closes`, `Header.scan_token`: the texts that a scan takes as one token;
* `Header.parseDefinition_definitionLine`: a definition line;
* `Header.defines_parse`: a header that is all definition lines;
* `Header.definedBy_of_mem_constants`: the lines that the constants of a header come from.
-/

namespace HeaderConstants.Header
set_option autoImplicit false

open Text

variable {b c : Char} {depth : Int} {t token rest name value file : Text} {number : Nat}

/-! ## Tokens -/

/-- A scan from the depth on takes the whole text and leaves all parentheses. -/
def Closes (depth : Int) (t : Text) : Prop := scan depth t = ⟨t, [], 0⟩

/-- The text is read as one token. -/
structure IsToken (t : Text) : Prop where
  ne_nil : t ≠ []
  closes : Closes 0 t

instance (t : Text) : Decidable (IsToken t) :=
  decidable_of_iff (t ≠ [] ∧ scan 0 t = ⟨t, [], 0⟩) ⟨fun h => ⟨h.1, h.2⟩, fun h => ⟨h.1, h.2⟩⟩

theorem scan_of_stop (hb : isBlank b = true) : scan 0 (b :: rest) = ⟨[], b :: rest, 0⟩ := by
  simp [scan, hb]

theorem scan_of_go (hc : ¬ (isBlank c = true ∧ depth = 0)) :
    scan depth (c :: rest) = ⟨c :: (scan (depth + nesting c) rest).token,
      (scan (depth + nesting c) rest).rest, (scan (depth + nesting c) rest).depth⟩ := by
  rw [scan, if_neg hc]

/-- A token that was scanned is scanned again. -/
theorem scan_token (depth : Int) (t : Text) :
    scan depth (scan depth t).token = ⟨(scan depth t).token, [], (scan depth t).depth⟩ := by
  induction t generalizing depth with
  | nil => rfl
  | cons c rest ih =>
    by_cases hstop : isBlank c = true ∧ depth = 0
    · obtain ⟨hc, rfl⟩ := hstop
      rw [scan_of_stop hc]
      rfl
    · rw [scan_of_go hstop, scan_of_go hstop, ih]

theorem closes_cons_iff :
    Closes depth (c :: t) ↔ ¬ (isBlank c = true ∧ depth = 0) ∧ Closes (depth + nesting c) t := by
  by_cases hstop : isBlank c = true ∧ depth = 0
  · obtain ⟨hc, rfl⟩ := hstop
    rw [Closes, scan_of_stop hc]
    simp [hc]
  · obtain ⟨token, rest, depth', hscan⟩ : ∃ token rest depth',
        scan (depth + nesting c) t = ⟨token, rest, depth'⟩ := ⟨_, _, _, rfl⟩
    rw [Closes, Closes, scan_of_go hstop, hscan]
    simp [hstop]

/-- A token ends at a blank. -/
theorem Closes.append_cons (h : Closes depth t) (hb : isBlank b = true) :
    scan depth (t ++ b :: rest) = ⟨t, b :: rest, 0⟩ := by
  induction t generalizing depth with
  | nil =>
    have hdepth : depth = 0 := congrArg Scan.depth h
    rw [hdepth, List.nil_append, scan_of_stop hb]
  | cons c t ih =>
    obtain ⟨hgo, hrest⟩ := closes_cons_iff.1 h
    rw [List.cons_append, scan_of_go hgo, ih hrest]

theorem nesting_of_isBlank (hb : isBlank b = true) : nesting b = 0 := by
  rw [nesting, if_neg, if_neg]
  · rintro rfl
    exact absurd hb (by decide)
  · rintro rfl
    exact absurd hb (by decide)

theorem Closes.getLast?_not_isBlank (h : Closes depth t) : ∀ c ∈ t.getLast?, isBlank c = false := by
  -- a blank at the end does not change the depth, so the scan would have stopped before it
  induction t generalizing depth with
  | nil => simp
  | cons c t ih =>
    obtain ⟨hgo, hrest⟩ := closes_cons_iff.1 h
    cases t with
    | nil =>
      intro d hd
      obtain rfl : c = d := by simpa using hd
      rw [← Bool.not_eq_true]
      intro hblank
      have hdepth : depth + nesting c = 0 := congrArg Scan.depth hrest
      rw [nesting_of_isBlank hblank, Int.add_zero] at hdepth
      exact hgo ⟨hblank, hdepth⟩
    | cons next more =>
      rw [List.getLast?_cons_cons]
      exact ih hrest

theorem closes_of_plain (h : ∀ c ∈ t, isBlank c = false ∧ nesting c = 0) : Closes 0 t := by
  induction t with
  | nil => rfl
  | cons c t ih =>
    obtain ⟨⟨hblank, hnesting⟩, hmore⟩ := List.forall_mem_cons.1 h
    rw [closes_cons_iff, hnesting, Int.add_zero]
    exact ⟨by simp [hblank], ih hmore⟩

theorem isToken_hexLiteral (v : UInt64) : IsToken (HexLiteral.text v) := by
  refine ⟨List.cons_ne_nil _ _, closes_of_plain fun c hc => ?_⟩
  exact HexLiteral.of_mem_text (p := fun c => isBlank c = false ∧ nesting c = 0) (by decide)
    (by decide) hc

theorem IsToken.trimStart_append (h : IsToken t) (rest : Text) :
    trimStart (t ++ rest) = t ++ rest := by
  obtain ⟨hne, hcloses⟩ := h
  cases t with
  | nil => exact absurd rfl hne
  | cons c t =>
    have hgo := (closes_cons_iff.1 hcloses).1
    refine trimStart_of_head fun d hd => ?_
    obtain rfl : c = d := by simpa using hd
    simpa using hgo

theorem leadingToken?_cons_append (ht : IsToken t) (hb : isBlank b = true) (hc : isBlank c = true) :
    leadingToken? (b :: (t ++ c :: rest)) = some (t, c :: rest) := by
  rw [leadingToken?, trimStart_cons_of_isBlank hb, ht.trimStart_append, ht.closes.append_cons hc]
  rfl

theorem leadingToken?_cons (ht : IsToken t) (hb : isBlank b = true) :
    leadingToken? (b :: t) = some (t, []) := by
  have htrim : trimStart t = t := by simpa using ht.trimStart_append []
  have hscan : scan 0 t = ⟨t, [], 0⟩ := ht.closes
  rw [leadingToken?, trimStart_cons_of_isBlank hb, htrim, hscan]
  rfl

/-- Nothing but blanks stands before a token and what follows it. -/
theorem append_of_leadingToken? (h : leadingToken? t = some (token, rest)) :
    token ++ rest = trimStart t := by
  have happend := scan_append 0 (trimStart t)
  rw [leadingToken?] at h
  split at h
  · obtain ⟨rfl, rfl⟩ := Prod.mk.inj (Option.some.inj h)
    exact happend
  · exact absurd h (by simp)

theorem subset_of_leadingToken? (h : leadingToken? t = some (token, rest)) :
    token ⊆ t ∧ rest ⊆ t := by
  have hsubset := trimStart_subset t
  rw [← append_of_leadingToken? h] at hsubset
  exact List.append_subset.1 hsubset

theorem closes_of_leadingToken? (h : leadingToken? t = some (token, rest)) : Closes 0 token := by
  have hscan := scan_token 0 (trimStart t)
  rw [leadingToken?] at h
  split at h
  · next hdepth =>
    obtain ⟨rfl, rfl⟩ := Prod.mk.inj (Option.some.inj h)
    rw [hdepth] at hscan
    exact hscan
  · exact absurd h (by simp)

/-! ## Definition lines -/

/-- The line that defines the name by the value. -/
def definitionLine (name value : Text) : Text := directive ++ ' ' :: (name ++ ' ' :: value)

theorem definitionLine_eq (name value : Text) :
    definitionLine name value = "#define " ++ name ++ " " ++ value := by
  rw [List.append_assoc, List.append_assoc]
  rfl

theorem getLast?_definitionLine (hvalue : value ≠ []) :
    (definitionLine name value).getLast? = value.getLast? := by
  have hsplit : definitionLine name value = (directive ++ ' ' :: name ++ [' ']) ++ value := by
    simp [definitionLine]
  rw [hsplit, List.getLast?_append_of_ne_nil _ hvalue]

theorem trimStart_definitionLine (name value : Text) :
    trimStart (definitionLine name value) = definitionLine name value := by
  refine trimStart_of_head fun c hc => ?_
  have hhead : (definitionLine name value).head? = some '#' := rfl
  rw [hhead] at hc
  obtain rfl := Option.mem_some_iff.1 hc
  rfl

theorem trimEnd_definitionLine (hvalue : IsToken value) :
    trimEnd (definitionLine name value) = definitionLine name value := by
  refine trimEnd_of_getLast ?_
  rw [getLast?_definitionLine hvalue.ne_nil]
  exact hvalue.closes.getLast?_not_isBlank

theorem isLine_definitionLine (hname : '\n' ∉ name) (v : UInt64) :
    IsLine (definitionLine name (HexLiteral.text v)) := by
  have hvalue := isToken_hexLiteral v
  refine ⟨fun hfeed => ?_, fun hreturn => ?_⟩
  · rw [definitionLine, List.mem_append, List.mem_cons, List.mem_append, List.mem_cons] at hfeed
    rcases hfeed with hfeed | hfeed | hfeed | hfeed | hfeed
    · exact absurd hfeed (by decide)
    · exact absurd hfeed (by decide)
    · exact hname hfeed
    · exact absurd hfeed (by decide)
    · exact HexLiteral.of_mem_text (p := fun c => c ≠ '\n') (by decide) (by decide) hfeed rfl
  · rw [getLast?_definitionLine hvalue.ne_nil] at hreturn
    have hblank := hvalue.closes.getLast?_not_isBlank '\r' hreturn
    exact Bool.noConfusion hblank

theorem isDefinition_definitionLine (name value : Text) :
    isDefinition (definitionLine name value) = true :=
  List.isPrefixOf_iff_prefix.2 (List.prefix_append directive _)

theorem parseDefinition_definitionLine (hname : IsToken name) (hvalue : IsToken value) :
    parseDefinition (definitionLine name value) = .ok ⟨name, value⟩ := by
  have htrim : (definitionLine name value).trim = definitionLine name value := by
    rw [trim, trimStart_definitionLine, trimEnd_definitionLine hvalue]
  have hdrop : (definitionLine name value).drop directive.length = ' ' :: (name ++ ' ' :: value) :=
    List.drop_left
  have hfirst : leadingToken? (' ' :: (name ++ ' ' :: value)) = some (name, ' ' :: value) :=
    leadingToken?_cons_append hname rfl rfl
  have hsecond : leadingToken? (' ' :: value) = some (value, []) := leadingToken?_cons hvalue rfl
  have hdefinition : definition? (' ' :: (name ++ ' ' :: value)) = some ⟨name, value⟩ := by
    simp [definition?, hfirst, hsecond]
  simp only [parseDefinition, htrim, hdrop, hdefinition, isDefinition_definitionLine, if_pos]

/-! ## Headers -/

/-- The constant has the definition, and no value yet. -/
structure Defines (d : Definition) (c : Constant) : Prop where
  name_eq : c.name = d.name
  rawValue_eq : c.rawValue = d.value
  isOpen : c.isResolved = false

theorem constantsFrom_definitionLine {lines : List Text} (hname : IsToken name)
    (hvalue : IsToken value) :
    constantsFrom file number (definitionLine name value :: lines) =
      (constantsFrom file (number + 1) lines).map
        (Constant.define name value file number (definitionLine name value) :: ·) := by
  simp only [constantsFrom, trimStart_definitionLine, isDefinition_definitionLine, if_pos,
    parseDefinition_definitionLine hname hvalue]
  rfl

/-- A header that is all definition lines has a constant for each. -/
theorem defines_constantsFrom {ds : List Definition}
    (hds : ∀ d ∈ ds, IsToken d.name ∧ IsToken d.value) (file : Text) (number : Nat) :
    ∃ cs, constantsFrom file number (ds.map fun d => definitionLine d.name d.value) = .ok cs ∧
      List.Forall₂ Defines ds cs := by
  induction ds generalizing number with
  | nil => exact ⟨[], rfl, .nil⟩
  | cons d ds ih =>
    obtain ⟨⟨hname, hvalue⟩, hmore⟩ := List.forall_mem_cons.1 hds
    obtain ⟨cs, hcs, hdefines⟩ := ih hmore (number + 1)
    let c := Constant.define d.name d.value file number (definitionLine d.name d.value)
    have hc : Defines d c := ⟨rfl, rfl, rfl⟩
    refine ⟨c :: cs, ?_, .cons hc hdefines⟩
    rw [List.map_cons, constantsFrom_definitionLine hname hvalue, hcs]
    rfl

theorem defines_parse {ds : List Definition} (hds : ∀ d ∈ ds, IsToken d.name ∧ IsToken d.value)
    {contents : Text} (hlines : contents.lines = ds.map fun d => definitionLine d.name d.value) :
    ∃ header, parse file contents = .ok header ∧ List.Forall₂ Defines ds header.constants := by
  obtain ⟨cs, hcs, hdefines⟩ := defines_constantsFrom hds file 1
  have htrim : contents.lines.map trimEnd = ds.map fun d => definitionLine d.name d.value := by
    rw [hlines, List.map_map]
    exact List.map_congr_left fun d hd => trimEnd_definitionLine (hds d hd).2
  rw [parse, htrim, hcs]
  exact ⟨_, rfl, hdefines⟩

/-! ## The constants of a header -/

theorem texts_of_parseDefinition {line : Text} {d : Definition}
    (h : parseDefinition line = .ok d) :
    Closes 0 d.name ∧ d.name ⊆ line ∧ d.value ⊆ line := by
  rw [parseDefinition] at h
  split at h
  · split at h
    · next d' hd =>
      obtain rfl := Except.ok.inj h
      rw [definition?, Option.bind_eq_bind, Option.bind_eq_some_iff] at hd
      obtain ⟨⟨name, rest⟩, hname, hrest⟩ := hd
      obtain ⟨⟨value, more⟩, hvalue, hdef⟩ := Option.bind_eq_some_iff.1 hrest
      obtain rfl := Option.some.inj hdef
      have hline : line.trim.drop directive.length ⊆ line :=
        fun c hc => trim_subset line (List.mem_of_mem_drop hc)
      obtain ⟨hnames, hrests⟩ := subset_of_leadingToken? hname
      obtain ⟨hvalues, -⟩ := subset_of_leadingToken? hvalue
      exact ⟨closes_of_leadingToken? hname, List.Subset.trans hnames hline,
        List.Subset.trans hvalues (List.Subset.trans hrests hline)⟩
    · exact absurd h (by simp)
  · exact absurd h (by simp)

/-- The constant is defined in the file by the line, which has the number. -/
structure DefinedBy (file : Text) (number : Nat) (line : Text) (c : Constant) : Prop where
  closes : Closes 0 c.name
  name_subset : c.name ⊆ line
  value_subset : c.rawValue ⊆ line
  eq_define : c = .define c.name c.rawValue file number line.trimStart

theorem definedBy_of_mem_constantsFrom {lines : List Text} {cs : List Constant}
    (h : constantsFrom file number lines = .ok cs) :
    ∀ c ∈ cs, ∃ i line, lines[i]? = some line ∧ DefinedBy file (number + i) line c := by
  induction lines generalizing number cs with
  | nil =>
    obtain rfl := Except.ok.inj h
    simp
  | cons line more ih =>
    have hmore : ∀ {cs}, constantsFrom file (number + 1) more = .ok cs → ∀ c ∈ cs,
        ∃ i line', (line :: more)[i]? = some line' ∧ DefinedBy file (number + i) line' c := by
      intro cs hcs c hc
      obtain ⟨i, line', hline', hdefined⟩ := ih hcs c hc
      rw [Nat.add_assoc, Nat.add_comm 1 i] at hdefined
      exact ⟨i + 1, line', hline', hdefined⟩
    rw [constantsFrom] at h
    split at h
    · split at h
      · exact absurd h (by simp)
      · next d hd =>
        obtain ⟨cs', hcs', hcs⟩ := bind_eq_ok_iff.1 h
        obtain rfl := Except.ok.inj hcs
        intro c hc
        rcases List.mem_cons.1 hc with rfl | hc
        · obtain ⟨hcloses, hname, hvalue⟩ := texts_of_parseDefinition hd
          have htrim := trimStart_subset line
          exact ⟨0, line, rfl, hcloses, List.Subset.trans hname htrim,
            List.Subset.trans hvalue htrim, rfl⟩
        · exact hmore hcs' c hc
    · exact hmore h

/-- Every constant of a header is defined by one of its lines. -/
theorem definedBy_of_mem_constants {contents : Text} {header : Header}
    (h : parse file contents = .ok header) :
    ∀ c ∈ header.constants, ∃ i line, contents.lines[i]? = some line ∧
      DefinedBy file (i + 1) line.trimEnd c := by
  rw [parse] at h
  obtain ⟨cs, hcs, hheader⟩ := bind_eq_ok_iff.1 h
  obtain rfl := Except.ok.inj hheader
  intro c hc
  obtain ⟨i, line, hline, hdefined⟩ := definedBy_of_mem_constantsFrom hcs c hc
  rw [List.getElem?_map, Option.map_eq_some_iff] at hline
  obtain ⟨line, hline, rfl⟩ := hline
  rw [Nat.add_comm] at hdefined
  exact ⟨i, line, hline, hdefined⟩

/-- A name that was read closes its parentheses and stands in a line. -/
theorem name_of_mem_constants {contents : Text} {header : Header}
    (h : parse file contents = .ok header) :
    ∀ c ∈ header.constants, Closes 0 c.name ∧ '\n' ∉ c.name := by
  intro c hc
  obtain ⟨i, line, hline, hdefined⟩ := definedBy_of_mem_constants h c hc
  refine ⟨hdefined.closes, fun hfeed => ?_⟩
  exact not_mem_of_mem_lines (List.mem_of_getElem? hline)
    (trimEnd_subset line (hdefined.name_subset hfeed))

/-- A header has constants without values, of its own file. -/
theorem exists_define_of_mem_constants {contents : Text} {header : Header}
    (h : parse file contents = .ok header) :
    ∀ c ∈ header.constants, ∃ name value number line,
      c = .define name value file number line := by
  intro c hc
  obtain ⟨i, line, -, hdefined⟩ := definedBy_of_mem_constants h c hc
  exact ⟨_, _, _, _, hdefined.eq_define⟩

end HeaderConstants.Header
