import HeaderConstants.Proofs.Generate.Resolved
import HeaderConstants.Proofs.Header.Definition
import HeaderConstants.Proofs.Resolve.Trace

/-!
# Texts that stay on one line

A header is cut into lines before anything else is done with it, so no text of its constants has a
line feed, and a resolution brings none in: what it substitutes are values and the texts of other
constants.

* `Constant.OneLine`: none of the texts of a constant has a line feed;
* `Header.oneLine_of_mem_constants`: the constants of a header;
* `Resolver.oneLine_of_run`: what a run leaves;
* `GeneratorConfig.oneLine_of_resolve`: the constants of a resolution;
* `GeneratorConfig.feed_not_mem_fileName_of_resolve`: the headers of a resolution.
-/

namespace HeaderConstants
set_option autoImplicit false

open Text

/-- No text of the step has a line feed. -/
structure ResolutionStep.OneLine (st : ResolutionStep) : Prop where
  expression : '\n' ∉ st.expression
  symbol : '\n' ∉ st.symbol
  replacement : '\n' ∉ st.replacement

/-- None of the texts of the constant has a line feed. -/
structure Constant.OneLine (c : Constant) : Prop where
  name : '\n' ∉ c.name
  rawValue : '\n' ∉ c.rawValue
  sourceFile : '\n' ∉ c.sourceFile
  line : '\n' ∉ c.line
  trace : ∀ st ∈ c.trace, st.OneLine

variable {c : Constant} {cs : List Constant}

theorem feed_not_mem_hexLiteral (v : UInt64) : '\n' ∉ HexLiteral.text v := fun h =>
  HexLiteral.of_mem_text (p := fun c => c ≠ '\n') (by decide) (by decide) h rfl

/-! ## Headers -/

theorem feed_not_mem_defuse {line : Text} (h : '\n' ∉ line) : '\n' ∉ Constant.defuse line :=
  not_mem_replaceAll (by decide) (not_mem_replaceAll (by decide) h)

theorem Header.fileName_of_parse {file contents : Text} {header : Header}
    (h : Header.parse file contents = .ok header) : header.fileName = file := by
  obtain ⟨constants, -, hheader⟩ := bind_eq_ok_iff.1 h
  exact Except.ok.inj hheader ▸ rfl

theorem Header.oneLine_of_mem_constants {file contents : Text} {header : Header}
    (hfile : '\n' ∉ file) (h : Header.parse file contents = .ok header) :
    ∀ c ∈ header.constants, c.OneLine := by
  intro c hc
  obtain ⟨i, line, hline, hdefined⟩ := definedBy_of_mem_constants h c hc
  have hfeed : '\n' ∉ line.trimEnd := fun hin =>
    not_mem_of_mem_lines (List.mem_of_getElem? hline) (trimEnd_subset line hin)
  have htext : '\n' ∉ Constant.defuse line.trimEnd.trimStart :=
    feed_not_mem_defuse fun hin => hfeed (trimStart_subset _ hin)
  refine ⟨fun hin => hfeed (hdefined.name_subset hin), fun hin => hfeed (hdefined.value_subset hin),
    ?_, ?_, ?_⟩
  · rw [hdefined.eq_define]
    exact hfile
  · rw [hdefined.eq_define]
    exact htext
  · rw [hdefined.eq_define]
    exact List.forall_mem_nil _

/-! ## Resolution -/

namespace Resolve

variable {t : Table} {limit : Nat} {v w : Text} {steps : List ResolutionStep}

/-- No entry of the table has a line feed in its replacement. -/
def OneLine (t : Table) : Prop := ∀ s ∈ t, '\n' ∉ s.replacement

theorem feed_not_mem_substitutionText (h : '\n' ∉ c.rawValue) : '\n' ∉ c.substitutionText := by
  have hbody : '\n' ∉ c.body := by
    rw [Constant.body]
    split
    · exact feed_not_mem_hexLiteral _
    · exact h
  simp [Constant.substitutionText, hbody]

theorem oneLine_table (h : ∀ c ∈ cs, '\n' ∉ c.rawValue) : OneLine (table cs) := by
  intro s hs
  obtain ⟨c, hc, -, hreplacement⟩ := exists_constant_of_mem_table hs
  rw [hreplacement]
  exact feed_not_mem_substitutionText (h c hc)

theorem OneLine.tableAfter (h : OneLine t) (hc : '\n' ∉ c.rawValue) (keepUp : Bool)
    (more : List Constant) : OneLine (tableAfter keepUp t c more) := by
  intro s hs
  rcases mem_tableAfter hs with hs | ⟨rfl, -⟩
  · exact h s hs
  · exact feed_not_mem_substitutionText hc

theorem Derivation.feed_not_mem (h : Derivation v steps w) (hv : '\n' ∉ v)
    (hsteps : ∀ st ∈ steps, '\n' ∉ st.replacement) : ∀ st ∈ steps, '\n' ∉ st.expression := by
  induction h with
  | done v => exact List.forall_mem_nil _
  | step st h ih =>
    obtain ⟨hst, hmore⟩ := List.forall_mem_cons.1 hsteps
    exact List.forall_mem_cons.2 ⟨hv, ih (not_mem_replaceAll hst hv) hmore⟩

theorem oneLine_of_resolveConstant {found : Resolution} (ht : OneLine t) (hc : '\n' ∉ c.rawValue)
    (h : resolveConstant t limit c = .ok found) : ∀ st ∈ found.trace, st.OneLine := by
  obtain ⟨e, he, -, htrace, -⟩ := resolveConstant_eq_ok_iff.1 h
  obtain ⟨-, -, hsteps⟩ := rewrites_of_expand? he
  have hderivation := derivation_of_expand? he
  rw [htrace] at hsteps hderivation
  have hreplacement : ∀ st ∈ found.trace, '\n' ∉ st.replacement := by
    intro st hst
    obtain ⟨s, hs, -, hrep, -, -⟩ := hsteps st hst
    exact hrep ▸ ht s hs
  intro st hst
  obtain ⟨s, -, hname, -, hin, -⟩ := hsteps st hst
  have hexpression := hderivation.feed_not_mem hc hreplacement st hst
  exact ⟨hexpression, fun hfeed => hexpression (hin.subset (hname ▸ hfeed)), hreplacement st hst⟩

end Resolve

theorem Resolver.oneLine_of_run (r : Resolver) (hcs : ∀ d ∈ cs, d.OneLine) :
    ∀ c ∈ (r.run cs).constants, c.OneLine := by
  intro c hc
  rcases turn_of_mem_constants hc with hold | ⟨turn, hturn, found, hfound, rfl⟩
  · exact hcs c hold
  · have hconstant := hcs _ (constant_mem_of_mem_turnsFrom hturn)
    have htable : Resolve.OneLine turn.table :=
      invariant_of_mem_turnsFrom (Resolve.oneLine_table fun d hd => (hcs d hd).rawValue)
        (fun _ d hd v trace more ht =>
          ht.tableAfter (c := d.resolve v trace) (hcs d hd).rawValue _ more) hturn
    exact ⟨hconstant.name, hconstant.rawValue, hconstant.sourceFile, hconstant.line,
      Resolve.oneLine_of_resolveConstant htable hconstant.rawValue hfound⟩

namespace GeneratorConfig

variable {config : GeneratorConfig} {sources : List HeaderSource} {resolved : ResolvedConstants}

theorem oneLine_of_resolve (hfiles : ∀ source ∈ sources, '\n' ∉ source.fileName)
    (h : config.resolve sources = .ok resolved) :
    ∀ c ∈ resolved.constants.constants, c.OneLine := by
  obtain ⟨headers, hparse, hresolved⟩ := resolve_eq_ok_iff.1 h
  obtain ⟨-, rfl⟩ := resolveHeaders_eq_ok_iff.1 hresolved
  refine Resolver.oneLine_of_run _ fun d hd => ?_
  obtain ⟨source, hsource, header, hread, hmem⟩ := exists_source_of_mem_select hparse hd
  exact Header.oneLine_of_mem_constants (hfiles source hsource) hread d hmem

theorem feed_not_mem_fileName_of_resolve (hfiles : ∀ source ∈ sources, '\n' ∉ source.fileName)
    (h : config.resolve sources = .ok resolved) :
    ∀ header ∈ resolved.headers, '\n' ∉ header.fileName := by
  obtain ⟨headers, hparse, hresolved⟩ := resolve_eq_ok_iff.1 h
  obtain ⟨-, rfl⟩ := resolveHeaders_eq_ok_iff.1 hresolved
  refine List.forall_mem_map.2 fun header hheader => ?_
  obtain ⟨source, hsource, hread⟩ := exists_of_mem_mapM hparse hheader
  exact Header.fileName_of_parse hread ▸ hfiles source hsource

end GeneratorConfig

end HeaderConstants
