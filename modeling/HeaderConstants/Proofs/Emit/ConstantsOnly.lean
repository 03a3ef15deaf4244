import HeaderConstants.Proofs.Emit.DocComment
import HeaderConstants.Proofs.Generate.OneLine

/-!
# Only constants in the module

Whatever the license texts, the source lines and the outputs of the compiler are, each of their
lines stands behind a comment mark in the Rust form. So the module holds the line that allows its
names, one declaration for each constant, comments and blank lines.

* `Emit.Comment`: a single line behind a comment mark;
* `Emit.Rust.exists_lines_of_emit`: the lines of the module;
* `Emit.Rust.only_constants`: what these lines are, after a resolution.
-/

namespace HeaderConstants.Emit
set_option autoImplicit false

open Text

variable {mark line t u w : Text}

/-! ## Comments -/

/-- A single line that opens with a comment mark. -/
structure Comment (line : Text) : Prop where
  feed : '\n' ∉ line
  mark : ['/', '/'] <+: line

instance (line : Text) : Decidable (Comment line) :=
  decidable_of_iff ('\n' ∉ line ∧ ['/', '/'] <+: line) ⟨fun h => ⟨h.1, h.2⟩, fun h => ⟨h.1, h.2⟩⟩

/-- A comment or a line with nothing on it. -/
def Remark (line : Text) : Prop := line = [] ∨ Comment line

theorem Comment.append (h : Comment u) (hw : '\n' ∉ w) : Comment (u ++ w) where
  feed := List.not_mem_append h.feed hw
  mark := h.mark.trans (List.prefix_append u w)

theorem Comment.trimEnd (h : Comment line) : Comment line.trimEnd where
  feed := fun hin => h.feed (trimEnd_subset line hin)
  mark := by
    obtain ⟨t, rfl⟩ := h.mark
    have hlast : ∀ c ∈ ['/', '/'].getLast?, isBlank c = false := by
      intro c hc
      rw [← Option.some.inj hc]
      rfl
    exact prefix_trimEnd_append hlast t

/-- The line of a text that is written behind a mark never opens with anything else. -/
theorem comment_of_mem_commentLines (hmark : Comment mark) :
    ∀ line ∈ commentLines mark t, Comment line := by
  intro line hline
  obtain ⟨piece, hpiece, rfl⟩ := List.mem_map.1 hline
  exact (hmark.append fun hin => not_mem_of_mem_splitAtFeeds hpiece (trim_subset piece hin)).trimEnd

theorem Remark.feed_not_mem (h : Remark line) : '\n' ∉ line := by
  rcases h with rfl | h
  · exact List.not_mem_nil
  · exact h.feed

namespace Rust

variable {d : Document} {c : Constant} {v : UInt64} {header : HeaderCopyright}

theorem remark_of_mem_copyrightLines (hfile : '\n' ∉ header.fileName) :
    ∀ line ∈ copyrightLines header, Remark line := by
  have htitle : Comment ("// Copyright statements from " : Text) := by decide
  have hmark : Comment ("// " : Text) := by decide
  rw [copyrightLines]
  refine List.forall_mem_append.2 ⟨List.forall_mem_cons.2 ⟨.inr (htitle.append hfile), ?_⟩, ?_⟩
  · exact fun line hline => .inr (comment_of_mem_commentLines hmark line hline)
  · exact List.forall_mem_singleton.2 (.inl rfl)

theorem feed_not_mem_code (h : '\n' ∉ t) : '\n' ∉ code t :=
  List.not_mem_append (List.not_mem_append (by decide) h) (by decide)

theorem comment_stepLine {st : ResolutionStep} (h : st.OneLine) : Comment (stepLine st) := by
  have hin : Comment (docMark ++ "Resolution step: in ") := by decide
  have hreplaced := (hin.append (feed_not_mem_code h.expression)).append
    (show '\n' ∉ (" replaced " : Text) by decide)
  have hwith := (hreplaced.append (feed_not_mem_code h.symbol)).append
    (show '\n' ∉ (" with " : Text) by decide)
  exact hwith.append (feed_not_mem_code h.replacement)

theorem comment_of_mem_definitionLines (h : c.OneLine) :
    ∀ line ∈ definitionLines c, Comment line := by
  have hnumber : Comment (docMark ++ "Line number: ") := by decide
  have hline : Comment (docMark ++ "Line: ") := by decide
  have hvalue : Comment (docMark ++ "Parsed value: ") := by decide
  rw [definitionLines]
  refine List.forall_mem_append.2 ⟨?_, ?_⟩
  · simp only [List.forall_mem_cons]
    exact ⟨by decide, hnumber.append (not_mem_decimal (by decide) c.sourceLine),
      hline.append (feed_not_mem_code h.line), hvalue.append (feed_not_mem_code h.rawValue),
      List.forall_mem_nil _⟩
  · intro line hstep
    obtain ⟨st, hst, rfl⟩ := List.mem_map.1 hstep
    exact comment_stepLine (h.trace st hst)

theorem comment_of_mem_streamLines {title output : Text} (htitle : Comment (docMark ++ title)) :
    ∀ line ∈ streamLines title output, Comment line := by
  have hmark : Comment docMark := by decide
  rw [streamLines]
  split
  · exact List.forall_mem_nil _
  · refine List.forall_mem_cons.2 ⟨by decide, List.forall_mem_cons.2 ⟨htitle, ?_⟩⟩
    exact comment_of_mem_commentLines hmark

theorem comment_of_mem_probeLines (o : ProbeOutput) : ∀ line ∈ probeLines o, Comment line :=
  List.forall_mem_append.2
    ⟨comment_of_mem_streamLines (by decide), comment_of_mem_streamLines (by decide)⟩

/-! ## Lines of the module -/

/-- What stands above the line that allows the names. -/
def frontLines (d : Document) : List Text := banner ++ d.headers.flatMap copyrightLines

/-- The documentation of a constant. -/
def docLines (d : Document) (c : Constant) : List Text :=
  sourceLines c ++ (if d.verbose then definitionLines c else [])
    ++ ((d.probeOutput? c.name).map probeLines).getD []

theorem remark_of_mem_frontLines (h : ∀ header ∈ d.headers, '\n' ∉ header.fileName) :
    ∀ line ∈ frontLines d, Remark line := by
  have hbanner : ∀ line ∈ banner, line = [] ∨ Comment line := by decide
  refine List.forall_mem_append.2 ⟨hbanner, fun line hline => ?_⟩
  obtain ⟨header, hheader, hline⟩ := List.mem_flatMap.1 hline
  exact remark_of_mem_copyrightLines (h header hheader) line hline

theorem remark_of_mem_docLines (h : c.OneLine) : ∀ line ∈ docLines d c, Remark line := by
  have hfile : Comment (docMark ++ "Source file: ") := by decide
  rw [docLines]
  refine List.forall_mem_append.2 ⟨List.forall_mem_append.2 ⟨?_, ?_⟩, ?_⟩
  · exact List.forall_mem_cons.2
      ⟨.inl rfl, List.forall_mem_singleton.2 (.inr (hfile.append h.sourceFile))⟩
  · split
    · exact fun line hline => .inr (comment_of_mem_definitionLines h line hline)
    · exact List.forall_mem_nil _
  · cases d.probeOutput? c.name with
    | none => exact List.forall_mem_nil _
    | some o => exact fun line hline => .inr (comment_of_mem_probeLines o line hline)

theorem feed_not_mem_declaration (h : '\n' ∉ c.name) (v : UInt64) : '\n' ∉ declaration c v := by
  have hconst : '\n' ∉ ("pub const " : Text) := by decide
  have htype : '\n' ∉ (": u64 = " : Text) := by decide
  have hend : '\n' ∉ (";" : Text) := by decide
  exact List.not_mem_append (List.not_mem_append (List.not_mem_append
    (List.not_mem_append hconst h) htype) (feed_not_mem_hexLiteral v)) hend

/-- The lines of the constants with their values. -/
def bodyLines (d : Document) (cs : List (Constant × UInt64)) : List Text :=
  cs.flatMap fun p => docLines d p.1 ++ [declaration p.1 p.2]

theorem exists_lines_of_emit (h : AllResolved d.constants) :
    ∃ pairs : List (Constant × UInt64), pairs.map Prod.fst = d.constants ∧
      (∀ p ∈ pairs, p.1.resolvedValue = some p.2) ∧
      emit d = .ok (unlines (frontLines d ++ allowLine :: bodyLines d pairs)) := by
  obtain ⟨pairs, hpairs, hvalues⟩ := h.exists_values
  have hlines : d.constants.mapM (constantLines d) =
      .ok (pairs.map fun p => docLines d p.1 ++ [declaration p.1 p.2]) := by
    rw [← hpairs]
    refine mapM_map_eq_ok fun p hp => ?_
    rw [constantLines, Constant.requireValue, hvalues p hp]
    rfl
  have hbody : bodyLines d pairs =
      (pairs.map fun p => docLines d p.1 ++ [declaration p.1 p.2]).flatten := List.flatMap_def
  refine ⟨pairs, hpairs, hvalues, ?_⟩
  rw [emit, hlines, hbody]
  simp [frontLines, bind, Except.bind, pure, Except.pure]

/-! ## Declarations among the lines -/

def declares (line : Text) : Bool := ("pub const" : Text).isPrefixOf line

theorem Remark.declares_eq_false (h : Remark line) : declares line = false := by
  rcases h with rfl | ⟨-, t, rfl⟩
  · rfl
  · rfl

theorem declares_declaration (c : Constant) (v : UInt64) : declares (declaration c v) = true := by
  have hconst : ("pub const" : Text) <+: "pub const " := by decide
  rw [declares, List.isPrefixOf_iff_prefix]
  unfold declaration
  simp only [List.append_assoc]
  exact hconst.trans (List.prefix_append _ _)

theorem filter_declares_bodyLines {pairs : List (Constant × UInt64)}
    (h : ∀ p ∈ pairs, p.1.OneLine) :
    (bodyLines d pairs).filter declares = pairs.map fun p => declaration p.1 p.2 := by
  induction pairs with
  | nil => rfl
  | cons p more ih =>
    obtain ⟨hp, hmore⟩ := List.forall_mem_cons.1 h
    have hdoc : (docLines d p.1).filter declares = [] :=
      List.filter_eq_nil_iff.2 fun line hline => by
        simp [Remark.declares_eq_false (remark_of_mem_docLines hp line hline)]
    rw [bodyLines, List.flatMap_cons, List.filter_append, List.filter_append, hdoc,
      List.nil_append, List.filter_cons_of_pos (declares_declaration p.1 p.2), List.filter_nil,
      List.map_cons]
    exact congrArg _ (ih hmore)

/-! ## After a resolution -/

theorem remark_or_declares_of_mem_bodyLines {pairs : List (Constant × UInt64)}
    (h : ∀ p ∈ pairs, p.1.OneLine) :
    ∀ line ∈ bodyLines d pairs, '\n' ∉ line ∧ (Remark line ∨ declares line = true) := by
  intro line hline
  obtain ⟨p, hp, hline⟩ := List.mem_flatMap.1 hline
  rcases List.mem_append.1 hline with hline | hline
  · have hremark := remark_of_mem_docLines (h p hp) line hline
    exact ⟨hremark.feed_not_mem, .inl hremark⟩
  · obtain rfl := List.mem_singleton.1 hline
    exact ⟨feed_not_mem_declaration (h p hp).name p.2, .inr (declares_declaration p.1 p.2)⟩

/-- Whatever the license texts, the lines of the headers and the outputs of the compiler are, the
lines of the module are blank or comments, but for the one line that allows the names and, below it,
one declaration for each constant. -/
theorem only_constants (config : GeneratorConfig) (sources : List HeaderSource)
    (resolved : ResolvedConstants) (hfiles : ∀ source ∈ sources, '\n' ∉ source.fileName)
    (h : config.resolve sources = .ok resolved) (report : Option Report) (verbose : Bool) :
    ∃ text before after,
      emit ⟨resolved.constants.constants, resolved.headers, report, verbose⟩ = .ok text ∧
      splitAtFeeds text = before ++ ("#![allow(non_upper_case_globals)]" : Text) :: after ∧
      (∀ line ∈ before, line = [] ∨ ['/', '/'] <+: line) ∧
      (∀ line ∈ after, line = [] ∨ ['/', '/'] <+: line ∨ ("pub const" : Text) <+: line) ∧
      List.Forall₂ (fun c line => ∃ v, c.resolvedValue = some v ∧
          line = ("pub const " : Text) ++ c.name ++ ": u64 = " ++ HexLiteral.text v ++ ";")
        resolved.constants.constants
        (after.filter fun line => ("pub const" : Text).isPrefixOf line) := by
  let d : Document := ⟨resolved.constants.constants, resolved.headers, report, verbose⟩
  have hone := GeneratorConfig.oneLine_of_resolve hfiles h
  have hfront := remark_of_mem_frontLines (d := d)
    (GeneratorConfig.feed_not_mem_fileName_of_resolve hfiles h)
  obtain ⟨pairs, hpairs, hvalues, hemit⟩ :=
    exists_lines_of_emit (d := d) (GeneratorConfig.allResolved_of_resolve h)
  have hpair : ∀ p ∈ pairs, p.1.OneLine := fun p hp => by
    have hmem : p.1 ∈ d.constants := hpairs ▸ List.mem_map_of_mem hp
    exact hone p.1 hmem
  have hbody := remark_or_declares_of_mem_bodyLines (d := d) hpair
  have hallow : '\n' ∉ allowLine := by decide
  have hfeeds : ∀ line ∈ frontLines d ++ allowLine :: bodyLines d pairs, '\n' ∉ line :=
    List.forall_mem_append.2 ⟨fun line hline => (hfront line hline).feed_not_mem,
      List.forall_mem_cons.2 ⟨hallow, fun line hline => (hbody line hline).1⟩⟩
  refine ⟨_, frontLines d, bodyLines d pairs ++ [[]], hemit, ?_, ?_, ?_, ?_⟩
  · rw [splitAtFeeds_unlines hfeeds, List.append_assoc, List.cons_append]
    rfl
  · exact fun line hline => (hfront line hline).imp_right Comment.mark
  · refine List.forall_mem_append.2 ⟨fun line hline => ?_, List.forall_mem_singleton.2 (.inl rfl)⟩
    rcases (hbody line hline).2 with hremark | hdeclares
    · exact hremark.imp_right fun hcomment => .inl hcomment.mark
    · exact .inr (.inr (List.isPrefixOf_iff_prefix.1 hdeclares))
  · have hfilter : (bodyLines d pairs ++ [[]]).filter declares =
        pairs.map fun p => declaration p.1 p.2 := by
      rw [List.filter_append, filter_declares_bodyLines hpair]
      exact List.append_nil _
    have hconstants : resolved.constants.constants = pairs.map Prod.fst := hpairs.symm
    change List.Forall₂ _ _ ((bodyLines d pairs ++ [[]]).filter declares)
    rw [hfilter, hconstants, List.forall₂_map_left_iff, List.forall₂_map_right_iff,
      List.forall₂_same]
    exact fun p hp => ⟨p.2, hvalues p hp, rfl⟩

/-- The license text and the output of the compiler have lines that would declare a constant. -/
theorem forged_declarations_stay_comments :
    let license : Text := "/* License\npub const FORGED: u64 = 1;\n */"
    let warning : Text := "warning:\n#![allow(dead_code)]\npub const FORGED: u64 = 2;"
    let a : Text := "CKA_A"
    let b : Text := "CKA_B"
    let sources : List HeaderSource :=
      [⟨"a.h", license ++ "\n#define CKA_A 6 // six\n#define CKA_B CKA_A+1"⟩]
    let config := GeneratorConfig.standard
    (∀ source ∈ sources, '\n' ∉ source.fileName) ∧
    ∃ resolved, config.resolve sources = .ok resolved ∧
      resolved.headers.map HeaderCopyright.text = [license ++ ['\n', '\n']] ∧
      resolved.constants.constants.map (fun c => (c.name, c.resolvedValue)) =
        [(a, some 6), (b, some 7)] ∧
      ∃ text before after,
        emit ⟨resolved.constants.constants, resolved.headers,
          some ⟨2, [(b, ⟨[], warning⟩)]⟩, true⟩ = .ok text ∧
        splitAtFeeds text = before ++ ("#![allow(non_upper_case_globals)]" : Text) :: after ∧
        (∀ line ∈ before, line = [] ∨ ['/', '/'] <+: line) ∧
        (∀ line ∈ after, line = [] ∨ ['/', '/'] <+: line ∨ ("pub const" : Text) <+: line) ∧
        List.Forall₂ (fun c line => ∃ v, c.resolvedValue = some v ∧
            line = ("pub const " : Text) ++ c.name ++ ": u64 = " ++ HexLiteral.text v ++ ";")
          resolved.constants.constants
          (after.filter fun line => ("pub const" : Text).isPrefixOf line) := by
  intro license warning a b sources config
  have hfiles : ∀ source ∈ sources, '\n' ∉ source.fileName := by decide +kernel
  have hrun : (config.resolve sources).toOption.map (fun resolved =>
      (resolved.headers.map HeaderCopyright.text,
        resolved.constants.constants.map fun c => (c.name, c.resolvedValue))) =
      some ([license ++ ['\n', '\n']], [(a, some 6), (b, some 7)]) := by decide +kernel
  obtain ⟨resolved, hok, hresult⟩ := Option.map_eq_some_iff.1 hrun
  obtain ⟨htexts, hvalues⟩ := Prod.mk.inj hresult
  have h : config.resolve sources = .ok resolved := toOption_eq_some_iff.1 hok
  exact ⟨hfiles, resolved, h, htexts, hvalues,
    only_constants config sources resolved hfiles h (some ⟨2, [(b, ⟨[], warning⟩)]⟩) true⟩

end Rust

end HeaderConstants.Emit
