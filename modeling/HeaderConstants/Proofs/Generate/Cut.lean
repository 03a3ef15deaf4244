import HeaderConstants.Proofs.Generate.Relocation
import HeaderConstants.Proofs.Text.Line

/-!
# Headers cut in two

Where one header ends and the next one starts has no part in what a generation comes to. A header
that is cut at a line feed gives the constants of its two parts, one after the other, with the lines
of the second part counted anew. All that follows is the same but for the places of the definitions.

* `Header.constantsFrom_append`: lines that follow on other lines;
* `GeneratorConfig.MovedHeaders`: headers with the same constants in other places;
* `GeneratorConfig.Cut`: the places of a header and those of its two parts;
* `GeneratorConfig.resolve_cut`: the two generations.
-/

namespace HeaderConstants
set_option autoImplicit false

open Constant

variable {R : Place → Place → Prop}

/-- The lines cannot be read for the same reason, in related places. -/
structure LocatedError.Moved (R : Place → Place → Prop) (e e' : LocatedError) : Prop where
  cause : e'.cause = e.cause
  place : R ⟨e.file, e.lineNumber⟩ ⟨e'.file, e'.lineNumber⟩

/-- The failures are of one kind and have one cause, of the same definition in related places. -/
inductive GenerateError.Moved (R : Place → Place → Prop) : GenerateError → GenerateError → Prop
  | header {e e' : LocatedError} (h : LocatedError.Moved R e e') : Moved R (.header e) (.header e')
  | resolve {e e' : ResolveError} (h : ResolveError.Moved R e e') :
      Moved R (.resolve e) (.resolve e')

/-! ## Lines -/

namespace Header

open Text

variable {file file' : Text} {number number' : Nat} {ls more pieces : List Text}

theorem constantsFrom_closeLines :
    constantsFrom file number ((closeLines pieces).map trimEnd) =
      constantsFrom file number (pieces.map trimEnd) := by
  induction pieces generalizing number with
  | nil => rfl
  | cons line more ih =>
    cases more with
    | nil =>
      cases line with
      | nil => rfl
      | cons c line => rfl
    | cons next more =>
      rw [closeLines_cons (List.cons_ne_nil next more), List.map_cons, List.map_cons,
        trimEnd_withoutReturn, constantsFrom, constantsFrom, ih]

/-- An empty line at the end defines nothing, and neither does a carriage return. -/
theorem constantsFrom_lines (contents : Text) :
    constantsFrom file number (contents.lines.map trimEnd) =
      constantsFrom file number (contents.splitAtFeeds.map trimEnd) :=
  constantsFrom_closeLines

theorem constantsFrom_append :
    constantsFrom file number (ls ++ more) = (do
      let first ← constantsFrom file number ls
      let rest ← constantsFrom file (number + ls.length) more
      pure (first ++ rest)) := by
  induction ls generalizing number with
  | nil =>
    change constantsFrom file number more =
      (constantsFrom file number more >>= fun rest => .ok ([] ++ rest))
    cases constantsFrom file number more <;> rfl
  | cons line ls ih =>
    have hlines : number + (line :: ls).length = number + 1 + ls.length := by
      rw [List.length_cons]
      omega
    rw [List.cons_append, constantsFrom, constantsFrom, ih, hlines]
    split
    · split
      · rfl
      · cases constantsFrom file (number + 1) ls with
        | error e => rfl
        | ok first => cases constantsFrom file (number + 1 + ls.length) more <;> rfl
    · rfl

/-- The same lines give the same constants, wherever they stand. -/
theorem related_constantsFrom (hR : ∀ k < ls.length, R ⟨file, number + k⟩ ⟨file', number' + k⟩) :
    Related (LocatedError.Moved R) (List.Forall₂ (Moved R)) (constantsFrom file number ls)
      (constantsFrom file' number' ls) := by
  induction ls generalizing number number' with
  | nil => exact .nil
  | cons line more ih =>
    have hhere : R ⟨file, number⟩ ⟨file', number'⟩ := hR 0 (Nat.zero_lt_succ _)
    have hmore := @ih (number + 1) (number' + 1) fun k hk => by
      have hnext := hR (k + 1) (Nat.succ_lt_succ hk)
      rwa [Nat.add_comm k 1, ← Nat.add_assoc, ← Nat.add_assoc] at hnext
    rw [constantsFrom, constantsFrom]
    split
    · split
      · exact ⟨rfl, hhere⟩
      · exact hmore.bind fun cs cs' hcs => .cons ⟨rfl, rfl, rfl, rfl, rfl, hhere⟩ hcs
    · exact hmore

end Header

/-! ## Headers -/

namespace GeneratorConfig

open Header Text

variable {E : LocatedError → LocatedError → Prop} {k l : Nat} {headers headers' : List Header}
  {sources sources' more more' : List HeaderSource}

/-- The headers have the same constants but for their places, and `added` headers have been
added. -/
structure MovedHeaders (R : Place → Place → Prop) (added : Nat) (headers headers' : List Header) :
    Prop where
  constants : List.Forall₂ (Moved R) (definitions headers) (definitions headers')
  length : headers'.length = headers.length + added

theorem parseHeaders_append (sources more : List HeaderSource) :
    parseHeaders (sources ++ more) = (do
      let headers ← parseHeaders sources
      let rest ← parseHeaders more
      pure (headers ++ rest)) := List.mapM_append ..

theorem related_parseHeaders_append
    (h : Related E (MovedHeaders R k) (parseHeaders sources) (parseHeaders sources'))
    (h' : Related E (MovedHeaders R l) (parseHeaders more) (parseHeaders more')) :
    Related E (MovedHeaders R (k + l)) (parseHeaders (sources ++ more))
      (parseHeaders (sources' ++ more')) := by
  rw [parseHeaders_append, parseHeaders_append]
  refine h.bind fun headers headers' hheaders => h'.bind fun rest rest' hrest => ⟨?_, ?_⟩
  · rw [definitions, definitions, List.flatMap_append, List.flatMap_append]
    exact List.rel_append hheaders.constants hrest.constants
  · have hlength := hheaders.length
    have hlength' := hrest.length
    rw [List.length_append, List.length_append]
    omega

/-- The pieces of a text between its line feeds, as a header is read from them. -/
def pieces (contents : Text) : List Text := contents.splitAtFeeds.map trimEnd

theorem parse_eq (file contents : Text) :
    Header.parse file contents = (do
      let constants ← constantsFrom file 1 (pieces contents)
      pure ⟨file, constants, copyrightOf (contents.lines.map trimEnd)⟩) := by
  rw [Header.parse, pieces, ← constantsFrom_lines]

theorem parseHeaders_singleton (source : HeaderSource) :
    parseHeaders [source] = (do
      let constants ← constantsFrom source.fileName 1 (pieces source.contents)
      pure [⟨source.fileName, constants, copyrightOf (source.contents.lines.map trimEnd)⟩]) := by
  rw [parseHeaders, List.mapM_cons, List.mapM_nil, parse_eq]
  simp

/-- Headers that stay where they are. -/
theorem related_parseHeaders_self
    (hR : ∀ source ∈ sources, ∀ n, R ⟨source.fileName, n⟩ ⟨source.fileName, n⟩) :
    Related (LocatedError.Moved R) (MovedHeaders R 0) (parseHeaders sources)
      (parseHeaders sources) := by
  induction sources with
  | nil => exact ⟨.nil, rfl⟩
  | cons source more ih =>
    obtain ⟨hsource, hmore⟩ := List.forall_mem_cons.1 hR
    have hsingle : Related (LocatedError.Moved R) (MovedHeaders R 0) (parseHeaders [source])
        (parseHeaders [source]) := by
      rw [parseHeaders_singleton]
      refine (related_constantsFrom fun k _ => hsource _).bind fun cs cs' hcs => ⟨?_, rfl⟩
      simpa [definitions] using hcs
    exact related_parseHeaders_append hsingle (ih hmore)

/-! ## Generations -/

/-- The same constants but for their places, and the same counts but for the added headers. -/
structure MovedResult (R : Place → Place → Prop) (added : Nat)
    (resolved resolved' : ResolvedConstants) : Prop where
  constants : List.Forall₂ (Moved R) resolved.constants.constants resolved'.constants.constants
  stats : resolved'.stats = { resolved.stats with headers := resolved.stats.headers + added }

theorem resolveHeaders_of_failure {config : GeneratorConfig} {e : ResolveError}
    (h : (config.runResolver (config.select headers).2).failure = some e) :
    config.resolveHeaders headers = .error e := by
  rw [resolveHeaders]
  simp only [h]

theorem related_resolveHeaders (config : GeneratorConfig) (h : MovedHeaders R k headers headers') :
    Related (ResolveError.Moved R) (MovedResult R k) (config.resolveHeaders headers)
      (config.resolveHeaders headers') := by
  obtain ⟨hset, hignored, hsuperseded⟩ :=
    Selection.moved_select (Selection.new config.allowlist) h.constants
  have hrun : Resolver.MovedRun R (config.runResolver (config.select headers).2)
      (config.runResolver (config.select headers').2) := Resolver.moved_run _ hset
  have hsize : (config.select headers').2.size = (config.select headers).2.size :=
    hset.length_eq.symm
  have hfailure := hrun.failure
  cases hleft : (config.runResolver (config.select headers).2).failure with
  | none =>
    cases hright : (config.runResolver (config.select headers').2).failure with
    | none =>
      rw [resolveHeaders_eq_ok_iff.2 ⟨hleft, rfl⟩, resolveHeaders_eq_ok_iff.2 ⟨hright, rfl⟩]
      refine ⟨hrun.constants, ?_⟩
      rw [hrun.stats, hsize, h.length, ← h.constants.length_eq]
      simp only [select, hignored, hsuperseded]
    | some e' =>
      rw [hleft, hright] at hfailure
      nomatch hfailure
  | some e =>
    cases hright : (config.runResolver (config.select headers').2).failure with
    | none =>
      rw [hleft, hright] at hfailure
      nomatch hfailure
    | some e' =>
      rw [hleft, hright] at hfailure
      obtain ⟨hmoved⟩ := hfailure
      rw [resolveHeaders_of_failure hleft, resolveHeaders_of_failure hright]
      exact hmoved

/-- The places of the lines of a header that is cut behind `size` lines, and those of other headers,
which stay. -/
inductive Cut (others : List Text) (whole first second : Text) (size : Nat) : Place → Place → Prop
  | elsewhere {file : Text} {n : Nat} (h : file ∈ others) :
      Cut others whole first second size ⟨file, n⟩ ⟨file, n⟩
  | before {n : Nat} (hpos : 0 < n) (h : n ≤ size) :
      Cut others whole first second size ⟨whole, n⟩ ⟨first, n⟩
  | behind {n : Nat} (hpos : 0 < n) :
      Cut others whole first second size ⟨whole, size + n⟩ ⟨second, n⟩

theorem related_parseHeaders_cut (others : List Text) (whole first second a b : Text) :
    let R := Cut others whole first second (a.count '\n' + 1)
    Related (LocatedError.Moved R) (MovedHeaders R 1) (parseHeaders [⟨whole, a ++ '\n' :: b⟩])
      (parseHeaders [⟨first, a⟩, ⟨second, b⟩]) := by
  intro R
  have hlength : (pieces a).length = a.count '\n' + 1 := by
    rw [pieces, List.length_map, length_splitAtFeeds]
  have hpieces : pieces (a ++ '\n' :: b) = pieces a ++ pieces b := by
    rw [pieces, splitAtFeeds_append, List.map_append, pieces, pieces]
  have hfirst : Related (LocatedError.Moved R) (List.Forall₂ (Moved R))
      (constantsFrom whole 1 (pieces a)) (constantsFrom first 1 (pieces a)) :=
    related_constantsFrom fun k hk => .before (by omega) (by omega)
  -- the second part starts again at line one
  have hsecond : Related (LocatedError.Moved R) (List.Forall₂ (Moved R))
      (constantsFrom whole (1 + (pieces a).length) (pieces b))
      (constantsFrom second 1 (pieces b)) := by
    refine related_constantsFrom fun k _ => ?_
    have hline : 1 + (pieces a).length + k = a.count '\n' + 1 + (1 + k) := by omega
    rw [hline]
    exact .behind (by omega)
  have htwo : parseHeaders [⟨first, a⟩, ⟨second, b⟩] = (do
      let headers ← parseHeaders [⟨first, a⟩]
      let rest ← parseHeaders [⟨second, b⟩]
      pure (headers ++ rest)) := parseHeaders_append [⟨first, a⟩] [⟨second, b⟩]
  rw [htwo, parseHeaders_singleton, parseHeaders_singleton, parseHeaders_singleton, hpieces,
    constantsFrom_append]
  simp only [bind_assoc, pure_bind]
  refine hfirst.bind fun cs cs' hcs => hsecond.bind fun ds ds' hds => ⟨?_, rfl⟩
  simpa [definitions] using List.rel_append hcs hds

/-- It does not matter where headers are split. Two headers for the two parts of one, cut at any
line feed, have the outcome that the one has, with the same constants in the same order, the same
counts and the same failures, up to the places of the definitions and the number of headers. -/
theorem resolve_cut (config : GeneratorConfig) (before after : List HeaderSource)
    (whole first second a b : Text) :
    let others := (before ++ after).map HeaderSource.fileName
    let R := Cut others whole first second (a.count '\n' + 1)
    Related (GenerateError.Moved R) (MovedResult R 1)
      (config.resolve (before ++ ⟨whole, a ++ '\n' :: b⟩ :: after))
      (config.resolve (before ++ ⟨first, a⟩ :: ⟨second, b⟩ :: after)) := by
  intro others R
  have hothers {sources : List HeaderSource} (hsub : sources ⊆ before ++ after) :
      ∀ source ∈ sources, ∀ n, R ⟨source.fileName, n⟩ ⟨source.fileName, n⟩ :=
    fun source hsource n => .elsewhere (List.mem_map_of_mem (hsub hsource))
  have hbefore := related_parseHeaders_self (hothers (List.subset_append_left before after))
  have hafter := related_parseHeaders_self (hothers (List.subset_append_right before after))
  have hparse := related_parseHeaders_append hbefore (related_parseHeaders_append
    (related_parseHeaders_cut others whole first second a b) hafter)
  rw [resolve, resolve]
  refine (hparse.mapError fun _ _ => .header).bind fun headers headers' hheaders => ?_
  exact (related_resolveHeaders config hheaders).mapError fun _ _ => .resolve

/-- A name that is defined on both sides of the cut; only the line numbers change. -/
example :
    let values (sources : List HeaderSource) :=
      (GeneratorConfig.standard.resolve sources).toOption.map fun resolved =>
        resolved.constants.constants.map fun c => (c.resolvedValue, c.sourceLine)
    let first : Text := "#define CKA_A 1\r"
    let second : Text := "#define CKA_B CKA_A\r\n#define CKA_A 2"
    values [⟨"a.h", first ++ '\n' :: second⟩] = some [(some 2, 2), (some 2, 3)] ∧
      values [⟨"a.h", first⟩, ⟨"b.h", second⟩] = some [(some 2, 1), (some 2, 2)] := by
  decide +kernel

end GeneratorConfig

end HeaderConstants
