import HeaderConstants.Generate.Run
import HeaderConstants.Proofs.Constant.Stored
import HeaderConstants.Proofs.Generate.Resolved
import HeaderConstants.Proofs.Header.Definition

/-!
# The listing of a document

The JSON form of a document lists the copyright texts and one entry for each constant. It is read
back to the same listing, whatever the texts are, so that the check of a generated JSON text never
fails.

* `Emit.Entry`, `Emit.Listing`: what the JSON form tells, and how it is read;
* `Emit.Entry.ofTree?_entryJson`: one entry read back;
* `Emit.JsonDocument.exists_listing`: a document read back;
* `Emit.listing_read_back`: documents and generations.
-/

namespace HeaderConstants
set_option autoImplicit false

open Json

namespace Emit

/-! ## Listings -/

/-- What is told of a constant: the last three only in the verbose form. -/
structure Entry where
  name : Text
  value : Text
  rawValue : Text
  sourceFile : Text
  sourceLine : Nat
  line : Option Text
  resolution : Option (List ResolutionStep)
  check : Option ProbeOutput
  deriving DecidableEq, Repr

structure Listing where
  headers : List HeaderCopyright
  entries : List Entry
  deriving DecidableEq, Repr

def copyrightOf? (t : Tree) : Option HeaderCopyright := do
  let f ← Fields.of? ["file_name", "text"] t
  let fileName ← f.required "file_name" Tree.text?
  let text ← f.required "text" Tree.text?
  pure ⟨fileName, text⟩

def probeOutputOf? (t : Tree) : Option ProbeOutput := do
  let f ← Fields.of? ["stdout", "stderr"] t
  let stdout ← f.required "stdout" Tree.text?
  let stderr ← f.required "stderr" Tree.text?
  pure ⟨stdout, stderr⟩

namespace Entry

def fieldNames : List Text :=
  ["name", "value", "raw_value", "source_file", "source_line", "line", "resolution", "check"]

def ofTree? (t : Tree) : Option Entry := do
  let f ← Fields.of? fieldNames t
  let name ← f.required "name" Tree.text?
  let value ← f.required "value" Tree.text?
  let rawValue ← f.required "raw_value" Tree.text?
  let sourceFile ← f.required "source_file" Tree.text?
  let sourceLine ← f.required "source_line" Tree.size?
  let line ← f.optional "line" Tree.text?
  let resolution ← f.optional "resolution" (Tree.list? ResolutionStep.ofTree?)
  let check ← f.optional "check" probeOutputOf?
  pure ⟨name, value, rawValue, sourceFile, sourceLine, line, resolution, check⟩

end Entry

namespace Listing

def ofTree? (t : Tree) : Option Listing := do
  let f ← Fields.of? ["headers", "constants"] t
  let headers ← f.required "headers" (Tree.list? copyrightOf?)
  let entries ← f.required "constants" (Tree.list? Entry.ofTree?)
  pure ⟨headers, entries⟩

def read? (t : Text) : Option Listing := do
  let tree ← Tree.ofText? t
  ofTree? tree

end Listing

/-! ## Entries -/

variable {c : Constant} {d : Document}

/-- A constant as it is written, with the output of the compiler if there is one to show. -/
def entryJson (verbose : Bool) (check : Option ProbeOutput) (c : Constant) (v : UInt64) : Json :=
  .object (JsonDocument.plainMembers c v
    ++ (if verbose then JsonDocument.verboseMembers c else [])
    ++ (check.map JsonDocument.probeMembers).getD [])

/-- A constant as it is read. -/
def Entry.of (verbose : Bool) (check : Option ProbeOutput) (c : Constant) (v : UInt64) : Entry :=
  ⟨c.name, HexLiteral.text v, c.rawValue, c.sourceFile, c.sourceLine,
    if verbose then some c.line else none, if verbose then some c.trace else none, check⟩

namespace Entry

theorem ofTree?_of_fields {t : Tree} {f : Fields} {e : Entry} (hf : Fields.of? fieldNames t = some f)
    (hname : f.required "name" Tree.text? = some e.name)
    (hvalue : f.required "value" Tree.text? = some e.value)
    (hraw : f.required "raw_value" Tree.text? = some e.rawValue)
    (hfile : f.required "source_file" Tree.text? = some e.sourceFile)
    (hnumber : f.required "source_line" Tree.size? = some e.sourceLine)
    (hline : f.optional "line" Tree.text? = some e.line)
    (hresolution : f.optional "resolution" (Tree.list? ResolutionStep.ofTree?) = some e.resolution)
    (hcheck : f.optional "check" probeOutputOf? = some e.check) : ofTree? t = some e := by
  simp only [ofTree?, hf, hname, hvalue, hraw, hfile, hnumber, hline, hresolution, hcheck,
    Option.bind_eq_bind, Option.bind_some]
  rfl

theorem ofTree?_entryJson (h : c.sourceLine < UInt64.size) (verbose : Bool)
    (check : Option ProbeOutput) (v : UInt64) :
    ofTree? (entryJson verbose check c v).tree = some (Entry.of verbose check c v) := by
  have hnumber := size?_tree h
  have htrace : Tree.list? ResolutionStep.ofTree?
      (Json.array (c.trace.map ResolutionStep.toJson)).tree = some c.trace :=
    list?_tree fun st _ => st.ofTree?_toJson
  have hresolution := congrArg (Option.map some) htrace
  cases verbose with
  | false =>
    cases check with
    | none => exact ofTree?_of_fields rfl rfl rfl rfl rfl hnumber rfl rfl rfl
    | some o => exact ofTree?_of_fields rfl rfl rfl rfl rfl hnumber rfl rfl rfl
  | true =>
    cases check with
    | none => exact ofTree?_of_fields rfl rfl rfl rfl rfl hnumber rfl hresolution rfl
    | some o => exact ofTree?_of_fields rfl rfl rfl rfl rfl hnumber rfl hresolution rfl

end Entry

theorem written_entryJson (h : c.sourceLine < UInt64.size) (verbose : Bool)
    (check : Option ProbeOutput) (v : UInt64) : Written 3 (entryJson verbose check c v) := by
  have htrace : Written 2 (.array (c.trace.map ResolutionStep.toJson)) :=
    .array (List.forall_mem_map.2 fun st _ => st.written_toJson)
  refine .object (List.forall_mem_append.2 ⟨List.forall_mem_append.2 ⟨?_, ?_⟩, ?_⟩)
  · simp only [JsonDocument.plainMembers, List.forall_mem_cons]
    exact ⟨.string _, .string _, .string _, .string _, .nat h, List.forall_mem_nil _⟩
  · split
    · simp only [JsonDocument.verboseMembers, List.forall_mem_cons]
      exact ⟨.string _, htrace, List.forall_mem_nil _⟩
    · exact List.forall_mem_nil _
  · cases check with
    | none => exact List.forall_mem_nil _
    | some o =>
      refine List.forall_mem_singleton.2 (.object ?_)
      simp [Written.string]

/-! ## Documents -/

namespace JsonDocument

/-- The document of constants with these values. -/
def documentJson (d : Document) (pairs : List (Constant × UInt64)) : Json :=
  .object [("headers", .array (d.headers.map header)),
    ("constants", .array (pairs.map fun p =>
      entryJson d.verbose (d.probeOutput? p.1.name) p.1 p.2))]

variable {pairs : List (Constant × UInt64)}

theorem ofDocument_eq (hpairs : pairs.map Prod.fst = d.constants)
    (hvalues : ∀ p ∈ pairs, p.1.resolvedValue = some p.2) :
    ofDocument d = .ok (documentJson d pairs) := by
  have hconstants : d.constants.mapM (constant d) =
      .ok (pairs.map fun p => entryJson d.verbose (d.probeOutput? p.1.name) p.1 p.2) := by
    rw [← hpairs]
    refine mapM_map_eq_ok fun p hp => ?_
    rw [constant, Constant.requireValue, hvalues p hp]
    rfl
  rw [ofDocument, hconstants]
  rfl

theorem written_documentJson (hlines : ∀ p ∈ pairs, p.1.sourceLine < UInt64.size) :
    Written 5 (documentJson d pairs) := by
  refine .object (List.forall_mem_cons.2 ⟨.array ?_, List.forall_mem_singleton.2 (.array ?_)⟩)
  · refine List.forall_mem_map.2 fun h _ => .object ?_
    simp [Written.string]
  · exact List.forall_mem_map.2 fun p hp => written_entryJson (hlines p hp) _ _ p.2

theorem ofTree?_documentJson (hlines : ∀ p ∈ pairs, p.1.sourceLine < UInt64.size) :
    Listing.ofTree? (documentJson d pairs).tree = some ⟨d.headers,
      pairs.map fun p => Entry.of d.verbose (d.probeOutput? p.1.name) p.1 p.2⟩ := by
  let entry (p : Constant × UInt64) : Json :=
    entryJson d.verbose (d.probeOutput? p.1.name) p.1 p.2
  let f : Fields := ⟨[("headers", (Json.array (d.headers.map header)).tree),
    ("constants", (Json.array (pairs.map entry)).tree)], false⟩
  have hfields : Fields.of? ["headers", "constants"] (documentJson d pairs).tree = some f := rfl
  have hheaders : f.required "headers" (Tree.list? copyrightOf?) = some d.headers :=
    list?_tree fun _ _ => rfl
  have hentries : f.required "constants" (Tree.list? Entry.ofTree?) = some (pairs.map fun p =>
      Entry.of d.verbose (d.probeOutput? p.1.name) p.1 p.2) :=
    list?_tree_map fun p hp => Entry.ofTree?_entryJson (hlines p hp) _ _ p.2
  simp only [Listing.ofTree?, hfields, hheaders, hentries, Option.bind_eq_bind, Option.bind_some]
  rfl

/-- The text of a document is read back, as a JSON text and as a listing. -/
theorem exists_listing (hvalues : AllResolved d.constants)
    (hlines : ∀ c ∈ d.constants, c.sourceLine < UInt64.size) :
    ∃ (text : Text) (j : Json) (pairs : List (Constant × UInt64)),
      emit d = .ok text ∧ ofDocument d = .ok j ∧ Json.ofText? text = some j ∧
      pairs.map Prod.fst = d.constants ∧ (∀ p ∈ pairs, p.1.resolvedValue = some p.2) ∧
      Listing.read? text = some ⟨d.headers,
        pairs.map fun p => Entry.of d.verbose (d.probeOutput? p.1.name) p.1 p.2⟩ := by
  obtain ⟨pairs, hpairs, hresolved⟩ := hvalues.exists_values
  have hnumbers : ∀ p ∈ pairs, p.1.sourceLine < UInt64.size := fun p hp =>
    hlines p.1 (hpairs ▸ List.mem_map_of_mem hp)
  have hdocument := ofDocument_eq hpairs hresolved
  have hwritten : Written 5 (documentJson d pairs) := written_documentJson hnumbers
  refine ⟨_, _, pairs, ?_, hdocument, ofText?_pretty hwritten (by decide), hpairs, hresolved, ?_⟩
  · rw [emit, hdocument]
    rfl
  · rw [Listing.read?, Tree.ofText?_pretty hwritten, Option.bind_eq_bind, Option.bind_some,
      ofTree?_documentJson hnumbers]

end JsonDocument

end Emit

/-! ## The compile check -/

namespace Check

open HeaderConstants.Action

variable {config : GeneratorConfig} {t : Text}

theorem run_of_json (h : Host) (htarget : config.target = .json)
    (ht : (Json.ofText? t).isSome = true) (s : Session) :
    ∃ s', (run h config t).run.run s = (.ok (), s') := by
  have htext : (text h config t).run.run s = (.ok (), s) := by
    rw [text, htarget]
    simp only [ht, if_true]
    rfl
  exact ⟨_, run_bind_of_ok htext⟩

end Check

namespace GeneratorConfig

open HeaderConstants.Action

variable {config : GeneratorConfig} {sources : List HeaderSource} {resolved : ResolvedConstants}

/-- A line number is the number of a line of its source. -/
theorem sourceLine_lt_of_resolve
    (hsources : ∀ source ∈ sources, source.contents.length < UInt64.size)
    (h : config.resolve sources = .ok resolved) :
    ∀ c ∈ resolved.constants.constants, c.sourceLine < UInt64.size := by
  obtain ⟨headers, hparse, hresolved⟩ := resolve_eq_ok_iff.1 h
  obtain ⟨-, rfl⟩ := resolveHeaders_eq_ok_iff.1 hresolved
  have hselected : ∀ d ∈ (config.select headers).2.constants, d.sourceLine < UInt64.size := by
    intro d hd
    obtain ⟨source, hsource, header, hread, hmem⟩ := exists_source_of_mem_select hparse hd
    obtain ⟨i, line, hline, hdefined⟩ := Header.definedBy_of_mem_constants hread d hmem
    have hnumber : d.sourceLine = i + 1 := by
      rw [hdefined.eq_define]
      rfl
    have hi : i < source.contents.lines.length := (List.getElem?_eq_some_iff.1 hline).1
    have hle := Text.length_lines_le source.contents
    have hsize := hsources source hsource
    omega
  intro c hc
  obtain ⟨d, hd, ⟨-, -, -, hline, -⟩, -⟩ :=
    exists_of_mem_forall₂ (Resolver.keeps_run (Resolver.new config.resolver) _) hc
  exact hline ▸ hselected d hd

/-- The two actions give the same result in every session. -/
def SameResult {α : Type} (a b : Action α) : Prop := ∀ s, (a.run.run s).1 = (b.run.run s).1

theorem sameResult_bind {α β : Type} {a : Action α} {f g : α → Action β} {Q : α → Prop}
    {E : GenerateError → Prop} (ha : Yields a Q E) (hf : ∀ x, Q x → SameResult (f x) (g x)) :
    SameResult (a >>= f) (a >>= g) := by
  intro s
  have hs := ha s
  obtain ⟨result, s', hrun⟩ : ∃ result s', a.run.run s = (result, s') := ⟨_, _, rfl⟩
  rw [hrun] at hs
  cases result with
  | ok x =>
    rw [run_bind_of_ok hrun, run_bind_of_ok hrun]
    exact hf x hs s'
  | error e => rw [run_bind_of_error hrun, run_bind_of_error hrun]

theorem sameResult_generate (h : Host) (htarget : config.target = .json)
    (hsources : ∀ source ∈ sources, source.contents.length < UInt64.size) :
    SameResult (config.generate h sources)
      ({ config with compileCheck := false }.generate h sources) := by
  rw [generate, generate]
  refine sameResult_bind (E := fun _ => True) (yields_modify _) fun _ _ => ?_
  have hresolve : Yields (require (config.resolve sources)) (fun resolved =>
      AllResolved resolved.constants.constants ∧
        ∀ c ∈ resolved.constants.constants, c.sourceLine < UInt64.size) fun _ => True :=
    yields_require (fun _ hok => ⟨allResolved_of_resolve hok, sourceLine_lt_of_resolve hsources hok⟩)
      fun _ _ => trivial
  refine sameResult_bind hresolve fun resolved hresolved => ?_
  refine sameResult_bind (yields_verification h config hresolved.1) fun report _ => ?_
  let d : Document :=
    ⟨resolved.constants.constants, resolved.headers, report, config.verbose⟩
  obtain ⟨text, j, -, hemit, -, hread, -⟩ :=
    Emit.JsonDocument.exists_listing (d := d) hresolved.1 hresolved.2
  have hdocument : d.emit config = .ok text := by
    rw [Document.emit, htarget]
    exact hemit
  have htext : Yields (require ((d.emit config).mapError GenerateError.unresolved))
      (fun t => t = text) fun _ => True := by
    rw [hdocument]
    exact yields_pure rfl
  refine sameResult_bind htext ?_
  rintro t rfl s
  have hchecked : (Json.ofText? t).isSome = true := Option.isSome_iff_exists.2 ⟨j, hread⟩
  split
  · obtain ⟨s', hrun⟩ := Check.run_of_json h htarget hchecked s
    rw [run_bind_of_ok hrun]
    rfl
  · rfl

end GeneratorConfig

namespace Emit

/-- Whatever its texts are, a document is written, its text passes the compile check, and it is read
back as what was written. So a generation has the same result with the check and without it. -/
theorem listing_read_back :
    (∀ d : Document, AllResolved d.constants →
      (∀ c ∈ d.constants, c.sourceLine < UInt64.size) →
      ∃ (text : Text) (j : Json) (entries : List Entry),
        JsonDocument.emit d = .ok text ∧
        (∀ (h : Host) (config : GeneratorConfig) (s : Session), config.target = .json →
          ∃ s', (Check.run h config text).run.run s = (.ok (), s')) ∧
        JsonDocument.ofDocument d = .ok j ∧ Json.ofText? text = some j ∧
        Listing.read? text = some ⟨d.headers, entries⟩ ∧
        List.Forall₂ (fun c e => ∃ v, c.resolvedValue = some v ∧ e =
            { name := c.name
              value := HexLiteral.text v
              rawValue := c.rawValue
              sourceFile := c.sourceFile
              sourceLine := c.sourceLine
              line := if d.verbose then some c.line else none
              resolution := if d.verbose then some c.trace else none
              check := if d.verbose then d.report.bind (·.find? c.name) else none })
          d.constants entries) ∧
    ∀ (h : Host) (config : GeneratorConfig) (sources : List HeaderSource) (s : Session),
      config.target = .json → (∀ source ∈ sources, source.contents.length < UInt64.size) →
      ((config.generate h sources).run.run s).1 =
        (({ config with compileCheck := false }.generate h sources).run.run s).1 := by
  refine ⟨fun d hvalues hlines => ?_, fun h config sources s htarget hsources =>
    GeneratorConfig.sameResult_generate h htarget hsources s⟩
  obtain ⟨text, j, pairs, hemit, hdocument, hj, hpairs, hresolved, hread⟩ :=
    JsonDocument.exists_listing hvalues hlines
  have hchecked : (Json.ofText? text).isSome = true := Option.isSome_iff_exists.2 ⟨j, hj⟩
  refine ⟨text, j, _, hemit, fun h config s htarget => Check.run_of_json h htarget hchecked s,
    hdocument, hj, hread, ?_⟩
  rw [← hpairs, List.forall₂_map_left_iff, List.forall₂_map_right_iff, List.forall₂_same]
  exact fun p hp => ⟨p.2, hresolved p hp, rfl⟩

/-- The texts have a quote, a backslash, controls and a character of four bytes, and there is an
output of the compiler for one of the two constants. -/
theorem listing_read_back_controls :
    let a : Constant := ⟨"A\"\\", "\u0001+", "f\u0000.h", 3, "l\x7f\t", some 5, [⟨"e\n", "s", "😀"⟩]⟩
    let b : Constant := ⟨"B", "2", [], 2 ^ 64 - 1, "\r\u2028", some 0xFFFFFFFFFFFFFFFF, []⟩
    let report : Report := ⟨2, [(b.name, ⟨"out\u001f", []⟩)]⟩
    let d : Document := ⟨[a, b], [⟨"h.h", "license\x08\x0c"⟩], some report, true⟩
    let config : GeneratorConfig := { GeneratorConfig.standard with target := .json }
    let sources : List HeaderSource := [⟨"f.h", "#define CKA_A 1 /* \"\\ */"⟩]
    AllResolved d.constants ∧ (∀ c ∈ d.constants, c.sourceLine < UInt64.size) ∧
    (∃ text, JsonDocument.emit d = .ok text ∧ Listing.read? text = some ⟨d.headers,
      [⟨a.name, "0x00000005", a.rawValue, a.sourceFile, 3, some a.line, some a.trace, none⟩,
        ⟨b.name, "0xFFFFFFFFFFFFFFFF", b.rawValue, [], 2 ^ 64 - 1, some b.line, some [],
          some ⟨"out\u001f", []⟩⟩]⟩) ∧
    (∀ source ∈ sources, source.contents.length < UInt64.size) ∧
    ∀ (h : Host) (s : Session), ((config.generate h sources).run.run s).1 =
      (({ config with compileCheck := false }.generate h sources).run.run s).1 := by
  intro a b report d config sources
  have hvalues : ∀ c ∈ d.constants, c.isResolved = true := by decide +kernel
  have hlines : ∀ c ∈ d.constants, c.sourceLine < UInt64.size := by decide +kernel
  have hsources : ∀ source ∈ sources, source.contents.length < UInt64.size := by decide +kernel
  obtain ⟨hdocuments, hgenerations⟩ := listing_read_back
  obtain ⟨text, j, entries, hemit, -, -, -, hread, hentries⟩ := hdocuments d hvalues hlines
  refine ⟨hvalues, hlines, ⟨text, hemit, ?_⟩, hsources, fun h s =>
    hgenerations h config sources s rfl hsources⟩
  obtain ⟨_, _, ⟨v, hv, rfl⟩, hmore, rfl⟩ := List.forall₂_cons_left_iff.1 hentries
  obtain ⟨_, _, ⟨w, hw, rfl⟩, hnil, rfl⟩ := List.forall₂_cons_left_iff.1 hmore
  obtain rfl := List.forall₂_nil_left_iff.1 hnil
  obtain rfl := Option.some.inj hv
  obtain rfl := Option.some.inj hw
  rw [hread]
  decide +kernel

end Emit

end HeaderConstants
