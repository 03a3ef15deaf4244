import HeaderConstants.Proofs.Constant.Selection
import HeaderConstants.Proofs.Generate.Resolved
import HeaderConstants.Proofs.Header.Definition
import HeaderConstants.Proofs.Numeral.Decimal
import HeaderConstants.Proofs.Resolve.Closer
import HeaderConstants.Proofs.Resolve.Soundness

/-!
# Documentation stays inside its comment

In the verbose Java form the documentation of a constant has its file and its line, with the markers
taken apart, its raw text and the steps of its resolution, which stand there as they are. A raw text
with a closing marker gives no value, so that after a resolution that succeeds no documentation ends
before its closing line.

* `Constant.CommentSafe`: none of the texts of a constant has a closing marker;
* `GeneratorConfig.commentSafe_of_resolve`: the constants of a resolution;
* `Emit.Java.emit_eq`: the text in blocks, one for each constant;
* `Emit.Java.doc_stays_inside`: the documentation in these blocks.
-/

namespace HeaderConstants
set_option autoImplicit false

open Text Header

variable {c : Constant} {u w : Text}

/-! ## Constants -/

/-- None of the texts of the constant has a closing marker. -/
structure Constant.CommentSafe (c : Constant) : Prop where
  name : NoCloser c.name
  rawValue : NoCloser c.rawValue
  sourceFile : NoCloser c.sourceFile
  line : NoCloser c.line
  trace : ∀ st ∈ c.trace, st.HasNoCloser

theorem Resolve.Identifier.unmarked {name : Text} (h : Resolve.Identifier name) :
    Unmarked name := by
  have hword := h.properName.1
  exact ⟨hword.1, hword.mark_not_mem (by decide), hword.mark_not_mem (by decide)⟩

/-- A constant that a run resolves has a safe name, raw text and trace, where all names are
identifiers. -/
theorem Resolver.exists_commentSafe_of_run (r : Resolver) {cs : List Constant}
    (hopen : ∀ d ∈ cs, d.isResolved = false)
    (hnames : ∀ d ∈ (r.run cs).constants, Resolve.Identifier d.name)
    (hc : c ∈ (r.run cs).constants) (hdone : c.isResolved = true) :
    NoCloser c.rawValue ∧ (∀ st ∈ c.trace, st.HasNoCloser) ∧
      ∃ d ∈ cs, Constant.SameDefinition d c := by
  rcases turn_of_mem_constants hc with hold | ⟨turn, hturn, found, hfound, rfl⟩
  · exact absurd hdone (by simp [hopen c hold])
  · have htable : ∀ s ∈ turn.table, Unmarked s.name := by
      intro s hs
      have hname : s.name ∈ (Resolve.table cs).map Substitution.name :=
        table_of_mem_turns (r := r) hturn ▸ List.mem_map_of_mem hs
      rw [Resolve.table_map_name, Resolve.mem_order, ← map_name_run r cs] at hname
      obtain ⟨d, hd, hsame⟩ := List.mem_map.1 hname
      exact hsame ▸ (hnames d hd).unmarked
    obtain ⟨hraw, htrace⟩ := Resolve.noCloser_of_resolveConstant htable hfound
    exact ⟨hraw, htrace, turn.constant, constant_mem_of_mem_turnsFrom hturn,
      rfl, rfl, rfl, rfl, rfl⟩

namespace GeneratorConfig

variable {config : GeneratorConfig} {sources : List HeaderSource} {headers : List Header}
  {resolved : ResolvedConstants}

theorem commentSafe_of_resolve (hfiles : ∀ source ∈ sources, NoCloser source.fileName)
    (h : config.resolve sources = .ok resolved)
    (hnames : ∀ c ∈ resolved.constants.constants, Resolve.Identifier c.name) :
    ∀ c ∈ resolved.constants.constants, c.CommentSafe := by
  have hall := allResolved_of_resolve h
  obtain ⟨headers, hparse, hresolved⟩ := resolve_eq_ok_iff.1 h
  obtain ⟨-, rfl⟩ := resolveHeaders_eq_ok_iff.1 hresolved
  have hdefine : ∀ d ∈ (config.select headers).2.constants, ∃ source ∈ sources,
      ∃ name value number line, d = .define name value source.fileName number line := by
    intro d hd
    obtain ⟨source, hsource, header, hread, hd⟩ := exists_source_of_mem_select hparse hd
    exact ⟨source, hsource, Header.exists_define_of_mem_constants hread d hd⟩
  -- no constant of a header has a value at first, so each of them has had its turn
  have hopen : ∀ d ∈ (config.select headers).2.constants, d.isResolved = false := by
    intro d hd
    obtain ⟨source, -, name, value, number, line, rfl⟩ := hdefine d hd
    rfl
  intro c hc
  obtain ⟨hraw, htrace, d, hd, -, -, hfile, -, hline⟩ :=
    Resolver.exists_commentSafe_of_run _ hopen hnames hc (hall c hc)
  obtain ⟨source, hsource, name, value, number, line, rfl⟩ := hdefine d hd
  refine ⟨(hnames c hc).unmarked.noCloser, hraw, ?_, ?_, htrace⟩
  · exact hfile ▸ hfiles source hsource
  · exact hline ▸ noCloser_defuse line

end GeneratorConfig

/-! ## Documentation -/

theorem noCloser_decimal (n : Nat) : NoCloser (decimal n) := fun hin =>
  not_mem_decimal (c := '*') (by decide) n (hin.subset (List.mem_cons_self ..))

/-- No marker comes about between two texts unless it is cut there. -/
theorem NoCloser.append (hu : NoCloser u) (hw : NoCloser w)
    (hcut : u.getLast? ≠ some '*' ∨ w.head? ≠ some '/') : NoCloser (u ++ w) := by
  induction u with
  | nil => exact hw
  | cons c u ih =>
    have hu' : NoCloser u := hu.of_infix (List.suffix_cons c u).isInfix
    rw [NoCloser, List.cons_append, List.infix_cons_iff, not_or]
    cases u with
    | nil =>
      refine ⟨fun hpre => ?_, hw⟩
      obtain ⟨rfl, t, rfl⟩ := List.cons_prefix_cons.1 hpre
      simp at hcut
    | cons d u =>
      refine ⟨fun hpre => hu ?_, ih hu' (by rwa [List.getLast?_cons_cons] at hcut)⟩
      obtain ⟨rfl, hslash⟩ := List.cons_prefix_cons.1 hpre
      obtain ⟨rfl, -⟩ := List.cons_prefix_cons.1 hslash
      exact ⟨[], u, rfl⟩

namespace Emit.Java

variable {d : Document}

/-- A label has no half of a marker at its ends. -/
structure IsLabel (label : Text) : Prop where
  ne_nil : label ≠ []
  noCloser : NoCloser label
  head : label.head? ≠ some '/'
  last : label.getLast? ≠ some '*'

instance (label : Text) : Decidable (IsLabel label) :=
  decidable_of_iff
    (label ≠ [] ∧ NoCloser label ∧ label.head? ≠ some '/' ∧ label.getLast? ≠ some '*')
    ⟨fun h => ⟨h.1, h.2.1, h.2.2.1, h.2.2.2⟩, fun h => ⟨h.ne_nil, h.noCloser, h.head, h.last⟩⟩

theorem IsLabel.append {label t : Text} (h : IsLabel label) (ht : NoCloser t) :
    NoCloser (label ++ t) :=
  h.noCloser.append ht (.inl h.last)

theorem IsLabel.around {label ending t : Text} (h : IsLabel label) (ht : NoCloser t)
    (h' : IsLabel ending) : IsLabel (label ++ t ++ ending) where
  ne_nil := List.append_ne_nil_of_right_ne_nil _ h'.ne_nil
  noCloser := (h.append ht).append h'.noCloser (.inr h'.head)
  head := by
    rw [List.append_assoc, List.head?_append_of_ne_nil _ h.ne_nil]
    exact h.head
  last := by
    rw [List.getLast?_append_of_ne_nil _ h'.ne_nil]
    exact h'.last

theorem noCloser_stepLines {st : ResolutionStep} (h : st.HasNoCloser) :
    ∀ line ∈ stepLines st, NoCloser line := by
  have hin : IsLabel (commentMark ++ "Resolution step: in [") := by decide +kernel
  have hreplaced : IsLabel (commentMark ++ "  replaced [") := by decide +kernel
  have hwith : IsLabel "] with [" := by decide +kernel
  have hclose : IsLabel "]" := by decide +kernel
  have hexpression := hin.around h.expression hclose
  have hreplacement := (hreplaced.around h.symbol hwith).around h.replacement hclose
  rw [stepLines, List.forall_mem_cons, List.forall_mem_cons]
  exact ⟨hexpression.noCloser, hreplacement.noCloser, List.forall_mem_nil _⟩

theorem noCloser_traceLines {trace : List ResolutionStep} (h : ∀ st ∈ trace, st.HasNoCloser) :
    ∀ line ∈ traceLines trace, NoCloser line := by
  rw [traceLines]
  split
  · exact List.forall_mem_nil _
  · refine List.forall_mem_cons.2 ⟨by decide +kernel, fun line hline => ?_⟩
    obtain ⟨st, hst, hline⟩ := List.mem_flatMap.1 hline
    exact noCloser_stepLines (h st hst) line hline

theorem noCloser_definitionLines (h : c.CommentSafe) :
    ∀ line ∈ definitionLines c, NoCloser line := by
  have hnumber : IsLabel (commentMark ++ "Line number: ") := by decide +kernel
  have hline : IsLabel (commentMark ++ "Line: ") := by decide +kernel
  have hname : IsLabel (commentMark ++ "Parsed name: ") := by decide +kernel
  have hvalue : IsLabel (commentMark ++ "Parsed value: ") := by decide +kernel
  rw [definitionLines]
  refine List.forall_mem_append.2 ⟨?_, noCloser_traceLines h.trace⟩
  simp only [List.forall_mem_cons]
  exact ⟨hnumber.append (noCloser_decimal c.sourceLine), hline.append h.line, hname.append h.name,
    hvalue.append h.rawValue, List.forall_mem_nil _⟩

theorem noCloser_docLines (h : c.CommentSafe) (hreport : d.report = none) :
    ∀ line ∈ docLines d c, NoCloser line := by
  have hprobe : d.probeOutput? c.name = none := by
    rw [Document.probeOutput?, hreport]
    split <;> rfl
  have hfile : IsLabel (commentMark ++ "Source file: ") := by decide +kernel
  rw [docLines, hprobe]
  refine List.forall_mem_append.2 ⟨List.forall_mem_append.2 ⟨?_, ?_⟩, List.forall_mem_nil _⟩
  · simp only [List.forall_mem_cons]
    exact ⟨by decide +kernel, by decide +kernel, hfile.append h.sourceFile, List.forall_mem_nil _⟩
  · split
    · exact noCloser_definitionLines h
    · exact List.forall_mem_nil _

/-! ## Blocks -/

/-- What comes before the constants. -/
def front (package typeName : Text) (d : Document) : Text :=
  unlines (banner typeName) ++ d.headers.flatMap copyrightText
    ++ unlines ["package " ++ package ++ ";", "", "public interface " ++ typeName ++ " \x7b"]

/-- The documentation of a constant between its opening and its closing line, and the declaration
behind them. -/
def block (d : Document) (c : Constant) (v : UInt64) : Text :=
  unlines docOpening ++ unlines (docLines d c) ++ unlines [docClosing, declaration c v]

theorem unlines_append (ls more : List Text) : unlines (ls ++ more) = unlines ls ++ unlines more :=
  List.flatMap_append

theorem constantLines_of_value {v : UInt64} (hv : c.resolvedValue = some v) :
    ∃ ls, constantLines d c = .ok ls ∧ unlines ls = block d c v := by
  refine ⟨docOpening ++ docLines d c ++ [docClosing, declaration c v], ?_, ?_⟩
  · rw [constantLines, Constant.requireValue, hv]
    rfl
  · rw [unlines_append, unlines_append, block]

theorem mapM_constantLines {cs : List Constant} (h : AllResolved cs) :
    ∃ ls, cs.mapM (constantLines d) = .ok ls ∧
      unlines ls.flatten = cs.flatMap fun c => block d c (c.resolvedValue.getD 0) := by
  induction cs with
  | nil => exact ⟨[], rfl, rfl⟩
  | cons c more ih =>
    obtain ⟨hc, hmore⟩ := List.forall_mem_cons.1 h
    obtain ⟨v, hv⟩ := Option.isSome_iff_exists.1 hc
    obtain ⟨first, hfirst, hblock⟩ := constantLines_of_value (d := d) hv
    obtain ⟨ls, hls, hblocks⟩ := ih hmore
    refine ⟨first :: ls, ?_, ?_⟩
    · rw [List.mapM_cons, hfirst, hls]
      rfl
    · rw [List.flatten_cons, unlines_append, hblock, hblocks, List.flatMap_cons, hv]
      rfl

/-- The text is the front, the blocks of the constants and the closing brace. -/
theorem emit_eq (package typeName : Text) (h : AllResolved d.constants) :
    emit package typeName d = .ok (front package typeName d
      ++ d.constants.flatMap (fun c => block d c (c.resolvedValue.getD 0)) ++ "\x7d\n") := by
  obtain ⟨ls, hls, hblocks⟩ := mapM_constantLines (d := d) h
  rw [emit, hls, ← hblocks]
  rfl

/-- Whatever the lines, the raw texts and the resolution steps are, no documentation of the verbose
form ends before its closing line. -/
theorem doc_stays_inside (config : GeneratorConfig) (sources : List HeaderSource)
    (resolved : ResolvedConstants)
    (hfiles : ∀ source ∈ sources, ¬ ['*', '/'] <:+: source.fileName)
    (h : config.resolve sources = .ok resolved)
    (hnames : ∀ c ∈ resolved.constants.constants, Resolve.Identifier c.name)
    (package typeName : Text) :
    let d : Document := ⟨resolved.constants.constants, resolved.headers, none, true⟩
    AllResolved d.constants ∧
    emit package typeName d = .ok (front package typeName d
      ++ d.constants.flatMap (fun c => block d c (c.resolvedValue.getD 0)) ++ "\x7d\n") ∧
    ∀ c ∈ d.constants, ¬ ['*', '/'] <:+: unlines (docLines d c) := by
  intro d
  have hall : AllResolved d.constants := GeneratorConfig.allResolved_of_resolve h
  refine ⟨hall, emit_eq package typeName hall, fun c hc => ?_⟩
  exact noCloser_unlines
    (noCloser_docLines (GeneratorConfig.commentSafe_of_resolve hfiles h hnames c hc) rfl)

/-- A line has a comment in it, and a resolution step comes from a raw text of the form `a*b`. -/
theorem doc_stays_inside_comment :
    let sources : List HeaderSource :=
      [⟨"dir/a*b.h", "#define CKA_A 6 /* six */ */\n#define CKA_B (CKA_A)*7/2 /* 21 */"⟩]
    let config := GeneratorConfig.standard
    let line : Text := "#define CKA_B (CKA_A)*7/2 / * 21 * /"
    ∃ resolved, config.resolve sources = .ok resolved ∧
      (resolved.constants.constants.map Constant.line).getLast? = some line ∧
      let d : Document := ⟨resolved.constants.constants, resolved.headers, none, true⟩
      emit "p" "T" d = .ok (front "p" "T" d
        ++ d.constants.flatMap (fun c => block d c (c.resolvedValue.getD 0)) ++ "\x7d\n") ∧
      ∀ c ∈ d.constants, ¬ ['*', '/'] <:+: unlines (docLines d c) := by
  intro sources config line
  have hrun : (config.resolve sources).toOption.map (fun resolved =>
      ((resolved.constants.constants.map Constant.line).getLast?,
        decide (∀ c ∈ resolved.constants.constants, Resolve.Identifier c.name))) =
      some (some line, true) := by decide +kernel
  obtain ⟨resolved, hok, hresult⟩ := Option.map_eq_some_iff.1 hrun
  obtain ⟨hline, hnames⟩ := Prod.mk.inj hresult
  have h : config.resolve sources = .ok resolved := toOption_eq_some_iff.1 hok
  have hfiles : ∀ source ∈ sources, ¬ ['*', '/'] <:+: source.fileName := by decide +kernel
  obtain ⟨-, hemit, hdoc⟩ :=
    doc_stays_inside config sources resolved hfiles h (of_decide_eq_true hnames) "p" "T"
  exact ⟨resolved, h, hline, hemit, hdoc⟩

end Emit.Java

end HeaderConstants
