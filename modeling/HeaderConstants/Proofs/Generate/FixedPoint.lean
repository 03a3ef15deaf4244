import HeaderConstants.Proofs.Constant.Selection
import HeaderConstants.Proofs.Expr.Value
import HeaderConstants.Proofs.Generate.Resolved
import HeaderConstants.Proofs.Header.Definition
import HeaderConstants.Proofs.Resolve.Settling

/-!
# Results read again

What a resolution gives can be written as a header: each constant on a line of its own, with its
hexadecimal literal as the value. This header resolves to the same constants, and nothing is
substituted on the way, since every allowed name holds an underscore and no literal does.

* `Resolver.run_literals`: a run over literals;
* `GeneratorConfig.resolve_literals`: a header of literals;
* `GeneratorConfig.named_of_resolve`: the names of what a resolution gives;
* `GeneratorConfig.ComesAgain`, `GeneratorConfig.resolve_fixed_point`: the header of a result.
-/

namespace HeaderConstants
set_option autoImplicit false

open Header

/-- A name and the value that it stands for. -/
structure NamedValue where
  name : Text
  value : UInt64
  deriving DecidableEq, Repr

namespace NamedValue

def definition (p : NamedValue) : Definition := ⟨p.name, HexLiteral.text p.value⟩

/-- The name of a resolved constant with its value. -/
def ofConstant (c : Constant) : NamedValue := ⟨c.name, c.resolvedValue.getD 0⟩

theorem ofConstant_value {c : Constant} (h : c.isResolved = true) :
    c.resolvedValue = some (ofConstant c).value ∧
      c.body = HexLiteral.text (ofConstant c).value := by
  obtain ⟨v, hv⟩ := Option.isSome_iff_exists.1 h
  have hvalue : (ofConstant c).value = v := by rw [ofConstant, hv, Option.getD_some]
  rw [hvalue, Constant.body, hv]
  exact ⟨rfl, rfl⟩

/-- The constant has the name and the value, and nothing was substituted for it. -/
structure Gives (p : NamedValue) (c : Constant) : Prop where
  name_eq : c.name = p.name
  value_eq : c.resolvedValue = some p.value
  trace_eq : c.trace = []

theorem fields_of_gives {ps : List NamedValue} {cs : List Constant} (h : List.Forall₂ Gives ps cs) :
    cs.map Constant.name = ps.map NamedValue.name ∧
      cs.map Constant.resolvedValue = ps.map (fun p => some p.value) ∧ ∀ c ∈ cs, c.trace = [] := by
  have htraces : cs.map Constant.trace = ps.map fun _ => [] :=
    map_eq_of_forall₂ _ _ h fun _ _ hc => hc.trace_eq
  refine ⟨map_eq_of_forall₂ _ _ h fun _ _ hc => hc.name_eq,
    map_eq_of_forall₂ _ _ h fun _ _ hc => hc.value_eq, fun c hc => ?_⟩
  have hmem : c.trace ∈ cs.map Constant.trace := List.mem_map_of_mem hc
  rw [htraces] at hmem
  obtain ⟨-, -, hempty⟩ := List.mem_map.1 hmem
  exact hempty.symm

end NamedValue

/-! ## Runs over literals -/

namespace Resolve

variable {t : Table} {p : NamedValue} {c : Constant}

theorem resolveConstant_literal (ht : ∀ s ∈ t, HexLiteral.Outside s.name)
    (hc : Defines p.definition c) (limit : Nat) :
    resolveConstant t limit c = .ok ⟨p.value, [], 0⟩ := by
  have hraw : c.rawValue = HexLiteral.text p.value := hc.rawValue_eq
  have hquiet : Quiet t c.rawValue := by
    intro s hs
    rw [hraw]
    exact (ht s hs).not_infix_text p.value
  rw [resolveConstant_eq_ok_iff]
  refine ⟨_, expand?_of_quiet hquiet limit, ?_, rfl, rfl⟩
  rw [hraw]
  exact Expr.evaluate_hexLiteral p.value

end Resolve

namespace Resolver

open Resolve

variable {keepUp : Bool} {limit : Nat} {t : Table} {stats : ResolutionStats}
  {ps : List NamedValue} {cs : List Constant}

/-- The run gives each constant its value, and substitutes nothing. -/
structure OnlyReads (ps : List NamedValue) (stats : ResolutionStats) (run : ResolverRun) :
    Prop where
  failure : run.failure = none
  gives : List.Forall₂ NamedValue.Gives ps run.constants
  substitutions : run.stats.substitutions = stats.substitutions

theorem runFrom_literals (ht : ∀ s ∈ t, HexLiteral.Outside s.name)
    (hcs : List.Forall₂ (fun p c => Defines p.definition c) ps cs) :
    OnlyReads ps stats (runFrom keepUp limit t stats cs) := by
  induction hcs generalizing t stats with
  | nil => exact ⟨rfl, .nil, rfl⟩
  | @cons p c ps more hc _ ih =>
    have hr := resolveConstant_literal ht hc limit
    have hnames : ∀ s ∈ tableAfter keepUp t (c.resolve p.value []) more,
        HexLiteral.Outside s.name := by
      rw [← List.forall_mem_map (P := HexLiteral.Outside), map_name_tableAfter]
      exact List.forall_mem_map.2 ht
    obtain ⟨hfailure, hgives, hsubstitutions⟩ :=
      @ih (tableAfter keepUp t (c.resolve p.value []) more) (stats.commit ⟨p.value, [], 0⟩) hnames
    rw [runFrom_of_ok hc.isOpen hr]
    exact ⟨hfailure, .cons ⟨hc.name_eq, rfl, rfl⟩ hgives, hsubstitutions⟩

theorem run_literals (r : Resolver) (hnames : ∀ c ∈ cs, HexLiteral.Outside c.name)
    (hcs : List.Forall₂ (fun p c => Defines p.definition c) ps cs) :
    OnlyReads ps r.stats (r.run cs) := by
  refine runFrom_literals (fun s hs => ?_) hcs
  obtain ⟨c, hc, hname, -⟩ := exists_constant_of_mem_table hs
  exact hname ▸ hnames c hc

end Resolver

/-! ## Names -/

theorem Allowlist.underscore_mem {name : Text} (h : Allowlist.pkcs11.allows name = true) :
    '_' ∈ name := by
  obtain ⟨start, hstart, hprefix⟩ := List.any_eq_true.1 h
  have hall : ∀ start ∈ Allowlist.pkcs11.prefixes, '_' ∈ start := by decide
  exact (List.isPrefixOf_iff_prefix.1 hprefix).subset (hall start hstart)

theorem Allowlist.outside_of_allows {name : Text} (h : Allowlist.pkcs11.allows name = true) :
    HexLiteral.Outside name :=
  HexLiteral.outside_of_mem (underscore_mem h) (by decide) (by decide) (by decide)

theorem Allowlist.ne_nil_of_allows {name : Text} (h : Allowlist.pkcs11.allows name = true) :
    name ≠ [] := List.ne_nil_of_mem (underscore_mem h)

namespace GeneratorConfig

variable {config : GeneratorConfig} {sources : List HeaderSource} {source : HeaderSource}
  {headers : List Header} {header : Header} {resolved : ResolvedConstants} {ps : List NamedValue}
  {c : Constant}

/-- The names of a result are allowed, each is there once, and each can be written as the name of a
definition. -/
theorem named_of_resolve (h : config.resolve sources = .ok resolved) :
    (∀ c ∈ resolved.constants.constants, Closes 0 c.name ∧ '\n' ∉ c.name ∧
      config.allowlist.allows c.name = true) ∧ resolved.constants.names.Nodup := by
  obtain ⟨headers, hparse, hresolved⟩ := resolve_eq_ok_iff.1 h
  obtain ⟨-, rfl⟩ := resolveHeaders_eq_ok_iff.1 hresolved
  have htaken : Selection.TakenFrom config.allowlist (definitions headers)
      (config.select headers).2 := Selection.takenFrom_select (Selection.new config.allowlist) _
  have hnames : (config.runResolver (config.select headers).2).constants.map Constant.name =
      (config.select headers).2.names := Resolver.map_name_run _ _
  refine ⟨fun c hc => ?_, ?_⟩
  · have hname : c.name ∈ (config.select headers).2.names :=
      hnames ▸ List.mem_map_of_mem hc
    obtain ⟨d, hd, hsame⟩ := List.mem_map.1 hname
    obtain ⟨header, hheader, hmem⟩ := List.mem_flatMap.1 (htaken.mem d hd)
    obtain ⟨source, -, hsource⟩ := exists_of_mem_mapM hparse hheader
    obtain ⟨hcloses, hfeed⟩ := Header.name_of_mem_constants hsource d hmem
    rw [← hsame]
    exact ⟨hcloses, hfeed, htaken.allows d hd⟩
  · rw [ConstantSet.names, hnames]
    exact htaken.nodup

theorem resolve_literals (hallowlist : config.allowlist = .pkcs11)
    (hps : ∀ p ∈ ps, IsToken p.name ∧ Allowlist.pkcs11.allows p.name = true)
    (hnodup : (ps.map NamedValue.name).Nodup)
    (hlines : source.contents.lines =
      ps.map fun p => definitionLine p.name (HexLiteral.text p.value)) :
    ∃ again, config.resolve [source] = .ok again ∧
      List.Forall₂ NamedValue.Gives ps again.constants.constants ∧
      again.stats.ignored = 0 ∧ again.stats.superseded = 0 ∧ again.stats.substitutions = 0 := by
  have htokens : ∀ d ∈ ps.map NamedValue.definition, IsToken d.name ∧ IsToken d.value := by
    rw [List.forall_mem_map]
    exact fun p hp => ⟨(hps p hp).1, isToken_hexLiteral p.value⟩
  have hlines' : source.contents.lines =
      (ps.map NamedValue.definition).map fun d => definitionLine d.name d.value := by
    rw [hlines, List.map_map]
    rfl
  obtain ⟨header, hparse, hdefines⟩ : ∃ header,
      Header.parse source.fileName source.contents = .ok header ∧
      List.Forall₂ Defines (ps.map NamedValue.definition) header.constants :=
    defines_parse htokens hlines'
  rw [List.forall₂_map_left_iff] at hdefines
  have hnames : header.constants.map Constant.name = ps.map NamedValue.name :=
    map_eq_of_forall₂ NamedValue.name Constant.name hdefines fun p c hc => hc.name_eq
  have hallows : ∀ c ∈ header.constants, Allowlist.pkcs11.allows c.name = true := by
    rw [← List.forall_mem_map (P := fun name => Allowlist.pkcs11.allows name = true), hnames]
    exact List.forall_mem_map.2 fun p hp => (hps p hp).2
  have hselect : config.select [header] =
      (⟨config.allowlist, ⟨header.constants.length, 0, 0⟩⟩, ⟨header.constants⟩) := by
    have hbatch : definitions [header] = header.constants := by simp [definitions]
    have hdistinct : (header.constants.map Constant.name).Nodup := hnames ▸ hnodup
    rw [select, hbatch, Selection.select_of_distinct (by rwa [Selection.new, hallowlist]) hdistinct,
      Selection.new, Nat.zero_add]
  have hrun := Resolver.run_literals (Resolver.new config.resolver)
    (fun c hc => Allowlist.outside_of_allows (hallows c hc)) hdefines
  have hheaders : parseHeaders [source] = .ok [header] := by
    rw [parseHeaders, List.mapM_cons, hparse]
    rfl
  refine ⟨_, resolve_eq_ok_iff.2 ⟨[header], hheaders, resolveHeaders_eq_ok_iff.2 ⟨?_, rfl⟩⟩, ?_⟩
  · rw [hselect]
    exact hrun.failure
  · simp only [hselect, true_and]
    exact ⟨hrun.gives, hrun.substitutions⟩

/-- The line of a resolved constant: its name and its hexadecimal literal. -/
def resultLine (c : Constant) : Text := definitionLine c.name c.body

/-- The constants come again as they were, and nothing was left out or substituted. -/
structure ComesAgain (resolved again : ResolvedConstants) : Prop where
  names : again.constants.names = resolved.constants.names
  values : again.constants.constants.map Constant.resolvedValue =
    resolved.constants.constants.map Constant.resolvedValue
  traces : ∀ c ∈ again.constants.constants, c.trace = []
  ignored : again.stats.ignored = 0
  superseded : again.stats.superseded = 0
  substitutions : again.stats.substitutions = 0

theorem map_resultLine {cs : List Constant} (hcs : AllResolved cs) :
    cs.map resultLine = (cs.map NamedValue.ofConstant).map fun p =>
      definitionLine p.name (HexLiteral.text p.value) := by
  rw [List.map_map]
  refine List.map_congr_left fun c hc => ?_
  rw [resultLine, (NamedValue.ofConstant_value (hcs c hc)).2]
  rfl

/-- A header with the lines of a result resolves to the same names and values. -/
theorem resolve_fixed_point (config : GeneratorConfig) (sources : List HeaderSource)
    (resolved : ResolvedConstants) (hallowlist : config.allowlist = .pkcs11)
    (h : config.resolve sources = .ok resolved) :
    let lines := resolved.constants.constants.map resultLine
    (∀ c ∈ resolved.constants.constants, ∃ v, c.resolvedValue = some v ∧
      resultLine c = "#define " ++ c.name ++ " " ++ HexLiteral.text v) ∧
    (Emit.unlines lines).lines = lines ∧
    ∀ source : HeaderSource, source.contents.lines = lines →
      ∃ again, config.resolve [source] = .ok again ∧ ComesAgain resolved again := by
  intro lines
  let ps := resolved.constants.constants.map NamedValue.ofConstant
  have hresolved := allResolved_of_resolve h
  obtain ⟨hnamed, hnodup⟩ := named_of_resolve h
  rw [hallowlist] at hnamed
  refine ⟨fun c hc => ?_, Text.lines_unlines fun line hline => ?_, fun source hsource => ?_⟩
  · obtain ⟨hvalue, hbody⟩ := NamedValue.ofConstant_value (hresolved c hc)
    refine ⟨_, hvalue, ?_⟩
    rw [resultLine, hbody, definitionLine_eq]
  · obtain ⟨c, hc, rfl⟩ := List.mem_map.1 hline
    rw [resultLine, (NamedValue.ofConstant_value (hresolved c hc)).2]
    exact isLine_definitionLine (hnamed c hc).2.1 _
  · have htokens : ∀ p ∈ ps, IsToken p.name ∧ Allowlist.pkcs11.allows p.name = true := by
      refine List.forall_mem_map.2 fun c hc => ?_
      obtain ⟨hcloses, -, hallows⟩ := hnamed c hc
      exact ⟨⟨Allowlist.ne_nil_of_allows hallows, hcloses⟩, hallows⟩
    have hnames : ps.map NamedValue.name = resolved.constants.names := List.map_map ..
    have hvalues : ps.map (fun p => some p.value) =
        resolved.constants.constants.map Constant.resolvedValue := by
      rw [List.map_map]
      exact List.map_congr_left fun c hc => (NamedValue.ofConstant_value (hresolved c hc)).1.symm
    obtain ⟨again, hagain, hgives, hignored, hsuperseded, hsubstitutions⟩ :=
      resolve_literals hallowlist htokens (hnames ▸ hnodup)
        (hsource.trans (map_resultLine hresolved))
    obtain ⟨hsame, hvalue, htraces⟩ := NamedValue.fields_of_gives hgives
    exact ⟨again, hagain, hsame.trans hnames, hvalue.trans hvalues, htraces, hignored, hsuperseded,
      hsubstitutions⟩

/-- One name has parentheses and blanks in them, and one is defined twice. -/
theorem resolve_fixed_point_parentheses :
    let sources : List HeaderSource :=
      [⟨"a.h", "#define CKA_ONE 1\n#define OTHER 2\n#define CKM_F( x ) (CKA_TOP - CKA_ONE)"⟩,
        ⟨"b.h", "#define CKA_TOP ~0\n#define CKA_ONE (1 << 40)"⟩]
    let config := GeneratorConfig.standard
    ∃ resolved, config.allowlist = .pkcs11 ∧ config.resolve sources = .ok resolved ∧
      resolved.constants.names = ["CKM_F( x )", "CKA_TOP", "CKA_ONE"] ∧
      let lines := resolved.constants.constants.map resultLine
      (∀ c ∈ resolved.constants.constants, ∃ v, c.resolvedValue = some v ∧
        resultLine c = "#define " ++ c.name ++ " " ++ HexLiteral.text v) ∧
      (Emit.unlines lines).lines = lines ∧
      ∀ source : HeaderSource, source.contents.lines = lines →
        ∃ again, config.resolve [source] = .ok again ∧ ComesAgain resolved again := by
  intro sources config
  let names : List Text := ["CKM_F( x )", "CKA_TOP", "CKA_ONE"]
  have hrun : (config.resolve sources).toOption.map (fun resolved => resolved.constants.names) =
      some names := by decide +kernel
  obtain ⟨resolved, hok, hnames⟩ := Option.map_eq_some_iff.1 hrun
  have h : config.resolve sources = .ok resolved := toOption_eq_some_iff.1 hok
  exact ⟨resolved, rfl, h, hnames, resolve_fixed_point config sources resolved rfl h⟩

end GeneratorConfig

end HeaderConstants
