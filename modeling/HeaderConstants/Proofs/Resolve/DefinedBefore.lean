import HeaderConstants.Proofs.Resolve.Inlining
import HeaderConstants.Proofs.Resolve.Modes

/-!
# Names that are defined before their use

A header in which every name is defined before its use resolves from top to bottom. At the turn of a
constant the names in its text have their values, so one pass puts these in their places, and the
constant gets what the text with the values evaluates to. Names may be prefixes of one another, in
whatever order they are defined.

* `Resolve.DefinedBeforeUse`: the headers;
* `Resolve.valuesFrom`: the values of the constants from the top;
* `Resolver.defined_before_use`: a run finds these values.
-/

namespace HeaderConstants
set_option autoImplicit false

open Text HeaderConstants.Expr

namespace Resolve

/-- Different identifiers with an underscore, which occur in one another at the start only, and
every identifier in the text of a constant is the name of an earlier one. -/
structure DefinedBeforeUse (cs : List Constant) : Prop where
  unresolved : ∀ c ∈ cs, c.isResolved = false
  nodup : (cs.map Constant.name).Nodup
  identifiers : ∀ c ∈ cs, Identifier c.name ∧ '_' ∈ c.name
  prefixes : ∀ c ∈ cs, ∀ d ∈ cs, c.name <:+: d.name → c.name <+: d.name
  earlier : ∀ (i : Nat) c, cs[i]? = some c → ∀ w, .word w ∈ segments c.rawValue →
    w.head?.any isNameStart = true → ∃ d ∈ cs.take i, d.name = w

/-- The value that is known for the name. -/
def valueOf (known : List (Text × UInt64)) (name : Text) : Option UInt64 :=
  (known.find? fun entry => entry.1 = name).map Prod.snd

/-- Each constant evaluates with the values of those before it in the places of their names. -/
def valuesFrom : List (Text × UInt64) → List Constant → Except EvalError (List UInt64)
  | _, [] => .ok []
  | known, c :: more => do
    let v ← evaluate (inlined (valueOf known) c.rawValue)
    let vs ← valuesFrom (known ++ [(c.name, v)]) more
    pure (v :: vs)

variable {cs before done rest more : List Constant} {c : Constant} {known : List (Text × UInt64)}
  {name w : Text} {v : UInt64} {limit : Nat}

/-! ## Known values -/

/-- The values are those of the constants. -/
def Knows (known : List (Text × UInt64)) (done : List Constant) : Prop :=
  List.Forall₂ (fun entry d => d.name = entry.1 ∧ d.resolvedValue = some entry.2) known done

theorem Knows.map_fst (h : Knows known done) : known.map Prod.fst = done.map Constant.name := by
  induction h with
  | nil => rfl
  | cons hd _ ih => rw [List.map_cons, List.map_cons, ih, hd.1]

theorem valueOf_cons (entry : Text × UInt64) : valueOf (entry :: known) name =
    if entry.1 = name then some entry.2 else valueOf known name := by
  by_cases h : entry.1 = name <;> simp [valueOf, h]

theorem exists_valueOf_iff : (∃ v, valueOf known name = some v) ↔ name ∈ known.map Prod.fst := by
  induction known with
  | nil => simp [valueOf]
  | cons entry known ih =>
    rw [valueOf_cons, List.map_cons, List.mem_cons, ← ih]
    by_cases h : entry.1 = name
    · simp [h]
    · simp [h, Ne.symm h]

/-- A known value is that of the one constant of the name. -/
theorem Knows.definition? (h : Knows known done) (hnodup : (done.map Constant.name).Nodup)
    (hv : valueOf known name = some v) : definition? done name = some (HexLiteral.text v) := by
  induction h with
  | nil => simp [valueOf] at hv
  | @cons entry d known done hd _ ih =>
    rw [List.map_cons, List.nodup_cons] at hnodup
    rw [valueOf_cons, ← hd.1] at hv
    rw [definition?_cons]
    by_cases hname : d.name = name
    · rw [if_pos hname] at hv
      have hnone : Resolve.definition? done name = none :=
        definition?_eq_none_iff.2 fun ⟨d', hd', he⟩ =>
          hnodup.1 (List.mem_map.2 ⟨d', hd', he.trans hname.symm⟩)
      rw [hnone, if_pos hname, Constant.body, hd.2, Option.some.inj hv]
      rfl
    · rw [if_neg hname] at hv
      rw [ih hnodup.2 hv]
      rfl

/-! ## The turn of a constant -/

/-- At a turn the table puts in the values that are known. -/
theorem DefinedBeforeUse.inlines (h : DefinedBeforeUse cs)
    (hnames : (done ++ rest).map Constant.name = cs.map Constant.name) (hknows : Knows known done) :
    Inlines (valueOf known) (table (done ++ rest)) := by
  have hmem {name : Text} (hname : name ∈ (done ++ rest).map Constant.name) :
      ∃ c ∈ cs, c.name = name := List.mem_map.1 (hnames ▸ hname)
  have htable {s : Substitution} (hs : s ∈ table (done ++ rest)) : ∃ c ∈ cs, c.name = s.name := by
    have hname := List.mem_map_of_mem (f := Substitution.name) hs
    rw [table_map_name, mem_order] at hname
    exact hmem hname
  have hnodup : ((done ++ rest).map Constant.name).Nodup := hnames ▸ h.nodup
  rw [List.map_append, List.nodup_append] at hnodup
  refine ⟨?_, fun s hs => ?_, fun s hs v hv => ?_, fun s hs w v hv hinf => ?_⟩
  · rw [table_map_name]
    exact descending_order _
  · obtain ⟨c, hc, hname⟩ := htable hs
    obtain ⟨hid, hmarked⟩ := h.identifiers c hc
    exact hname ▸ ⟨hid.properName.1, hmarked⟩
  · have hdone : s.name ∈ done.map Constant.name := by
      rw [← hknows.map_fst, ← exists_valueOf_iff]
      exact ⟨v, hv⟩
    have hrest : definition? rest s.name = none :=
      definition?_eq_none_iff.2 fun ⟨d, hd, he⟩ =>
        hnodup.2.2 s.name hdone d.name (List.mem_map_of_mem hd) he.symm
    have hdef : Defines (done ++ rest) s.name (HexLiteral.text v) := by
      rw [Defines, definition?_append, hrest, hknows.definition? hnodup.1 hv]
      rfl
    obtain ⟨body, hbody, hrep⟩ := defines_of_mem_table hs
    rw [hrep, rightUnique_defines _ hbody hdef]
  · obtain ⟨c, hc, hname⟩ := htable hs
    have hw : w ∈ (done ++ rest).map Constant.name := by
      rw [List.map_append, List.mem_append, ← hknows.map_fst, ← exists_valueOf_iff]
      exact .inl ⟨v, hv⟩
    obtain ⟨d, hd, rfl⟩ := hmem hw
    exact hname ▸ h.prefixes c hc d hd (hname ▸ hinf)

theorem DefinedBeforeUse.underscored (h : DefinedBeforeUse cs) (hsplit : cs = before ++ rest)
    (hknown : known.map Prod.fst = before.map Constant.name) : Underscored (valueOf known) := by
  intro w v hv
  have hw : w ∈ known.map Prod.fst := exists_valueOf_iff.1 ⟨v, hv⟩
  rw [hknown] at hw
  obtain ⟨d, hd, rfl⟩ := List.mem_map.1 hw
  exact (h.identifiers d (hsplit ▸ List.mem_append_left rest hd)).2

/-- In the text of a constant all words with an underscore are names of constants before it: a word
that starts with a digit would keep its underscore. -/
theorem DefinedBeforeUse.covered (h : DefinedBeforeUse cs) (hsplit : cs = before ++ c :: more)
    (hnames : done.map Constant.name = before.map Constant.name) (hknows : Knows known done)
    (hend : '_' ∉ inlined (valueOf known) c.rawValue) :
    Covered (valueOf known) (table (done ++ c :: more)) c.rawValue := by
  have hknown := hknows.map_fst.trans hnames
  have hhere : cs[before.length]? = some c := by simp [hsplit]
  intro w hw hmarked
  have hbefore : w ∈ before.map Constant.name := by
    by_cases hstart : w.head?.any isNameStart = true
    · obtain ⟨d, hd, rfl⟩ := h.earlier before.length c hhere w hw hstart
      rw [hsplit, List.take_left] at hd
      exact List.mem_map_of_mem hd
    · refine Classical.byContradiction fun hother => hend ?_
      have hnone : valueOf known w = none := Option.eq_none_iff_forall_ne_some.2 fun v hv => by
        have hw' : w ∈ known.map Prod.fst := exists_valueOf_iff.1 ⟨v, hv⟩
        exact hother (hknown ▸ hw')
      exact mem_inlined_of_mem_word hw hnone hmarked
  refine ⟨exists_valueOf_iff.2 (hknown ▸ hbefore), ?_⟩
  rw [table_map_name, mem_order, List.map_append, hnames]
  exact List.mem_append_left _ hbefore

/-- At its turn a constant gets its value, after at most one pass that changes its text. -/
theorem DefinedBeforeUse.exists_resolution (h : DefinedBeforeUse cs)
    (hsplit : cs = before ++ c :: more) (hnames : done.map Constant.name = before.map Constant.name)
    (hknows : Knows known done) (hlimit : 1 ≤ limit)
    (hv : evaluate (inlined (valueOf known) c.rawValue) = .ok v) :
    ∃ found, resolveConstant (table (done ++ c :: more)) limit c = .ok found ∧ found.value = v ∧
      found.passes ≤ 1 := by
  have hall : (done ++ c :: more).map Constant.name = cs.map Constant.name := by
    rw [hsplit, List.map_append, List.map_append, hnames]
  have hend := underscore_not_mem_of_evaluate hv
  have hvalues := h.underscored hsplit (hknows.map_fst.trans hnames)
  obtain ⟨e, he, htext, hpasses⟩ := exists_expansion_of_inlines hvalues (h.inlines hall hknows)
    (h.covered hsplit hnames hknows hend) hend hlimit
  refine ⟨⟨v, e.steps, e.passes⟩, ?_, rfl, hpasses⟩
  rw [resolveConstant, he]
  simp only [htext, hv]

end Resolve

namespace Resolver

open Resolve

variable {cs before done rest : List Constant} {known : List (Text × UInt64)} {vs : List UInt64}
  {limit : Nat} {stats : ResolutionStats}

/-- The run gives the values, and every constant has its turn, in which at most one pass changes its
text. -/
def OnePass (limit : Nat) (t : Table) (stats : ResolutionStats) (rest : List Constant)
    (vs : List UInt64) : Prop :=
  ((runFrom true limit t stats rest).failure = none ∧
    (runFrom true limit t stats rest).constants.map Constant.resolvedValue = vs.map some) ∧
  (turnsFrom true limit t rest).map Turn.constant = rest ∧
    ∀ turn ∈ turnsFrom true limit t rest, ∃ found,
      resolveConstant turn.table limit turn.constant = .ok found ∧ found.passes ≤ 1

theorem onePass_of_valuesFrom (h : DefinedBeforeUse cs) (hsplit : cs = before ++ rest)
    (hnames : done.map Constant.name = before.map Constant.name) (hknows : Knows known done)
    (hlimit : 1 ≤ limit) (hvs : valuesFrom known rest = .ok vs) :
    OnePass limit (table (done ++ rest)) stats rest vs := by
  induction rest generalizing before done known vs stats with
  | nil =>
    obtain rfl := Except.ok.inj hvs
    exact ⟨⟨rfl, rfl⟩, rfl, by simp [turnsFrom]⟩
  | cons c more ih =>
    obtain ⟨v, hv, hvs⟩ := bind_eq_ok_iff.1 hvs
    obtain ⟨vs, hmore, hvs⟩ := bind_eq_ok_iff.1 hvs
    obtain rfl := Except.ok.inj hvs
    have hopen : c.isResolved = false := h.unresolved c (by simp [hsplit])
    obtain ⟨found, hfound, rfl, hpasses⟩ := h.exists_resolution hsplit hnames hknows hlimit hv
    have hnext : tableAfter true (table (done ++ c :: more)) (c.resolve found.value found.trace)
        more = table (done ++ [c.resolve found.value found.trace] ++ more) := by
      rw [List.append_assoc]
      exact tableAfter_table (c.resolve found.value found.trace) rfl
    have hnames' : (done ++ [c.resolve found.value found.trace]).map Constant.name =
        (before ++ [c]).map Constant.name := by
      rw [List.map_append, List.map_append, hnames]
      rfl
    have hknows' : Knows (known ++ [(c.name, found.value)])
        (done ++ [c.resolve found.value found.trace]) :=
      List.rel_append hknows (.cons ⟨rfl, rfl⟩ .nil)
    have hrest : OnePass limit (table (done ++ [c.resolve found.value found.trace] ++ more))
        (stats.commit found) more vs :=
      ih (by simpa using hsplit) hnames' hknows' hmore
    rw [← hnext] at hrest
    obtain ⟨⟨hfailure, hvalues⟩, hturns, hall⟩ := hrest
    have hturn : turnsFrom true limit (table (done ++ c :: more)) (c :: more) =
        ⟨table (done ++ c :: more), c⟩ :: turnsFrom true limit (tableAfter true
          (table (done ++ c :: more)) (c.resolve found.value found.trace) more) more := by
      rw [turnsFrom, if_neg (by simp [hopen]), hfound]
    rw [OnePass, runFrom_of_ok hopen hfound, hturn]
    refine ⟨⟨hfailure, congrArg (some found.value :: ·) hvalues⟩, congrArg (c :: ·) hturns, ?_⟩
    exact List.forall_mem_cons.2 ⟨⟨found, hfound, hpasses⟩, hall⟩

/-- A header in which every name is defined before its use resolves one by one to the values that
its constants have from the top, and no constant needs more than one pass that changes its text. -/
theorem defined_before_use (r : Resolver) (hone : r.config.parallel = false)
    (hlimit : ∀ m, r.config.maxPasses = some m → 1 ≤ m) (h : DefinedBeforeUse cs)
    (hvs : valuesFrom [] cs = .ok vs) :
    (r.run cs).failure = none ∧
    (r.run cs).constants.map Constant.resolvedValue = vs.map some ∧
    (r.turns cs).map Turn.constant = cs ∧
    ∀ turn ∈ r.turns cs, ∃ found,
      resolveConstant turn.table (r.limit cs) turn.constant = .ok found ∧ found.passes ≤ 1 := by
  have hpositive : 1 ≤ r.limit cs := by
    rw [Resolver.limit, ResolverConfig.passLimit]
    cases hmax : r.config.maxPasses with
    | none => exact Nat.le_add_left 1 _
    | some m => exact hlimit m hmax
  have hpass : OnePass (r.limit cs) (table ([] ++ cs)) r.stats cs vs :=
    onePass_of_valuesFrom h (List.nil_append cs).symm rfl .nil hpositive hvs
  obtain ⟨⟨hfailure, hvalues⟩, hturns, hall⟩ := hpass
  have hrun : r.run cs = runFrom true (r.limit cs) (table cs) r.stats cs := by
    rw [run, hone]
    rfl
  have hallTurns : r.turns cs = turnsFrom true (r.limit cs) (table cs) cs := by
    rw [turns, hone]
    rfl
  rw [hrun, hallTurns]
  exact ⟨hfailure, hvalues, hturns, hall⟩

/-- The last name starts the first one, which the constants before use. -/
theorem defined_before_use_prefix :
    let define (name value : String) : Constant := .define name value "" 0 ""
    let cs := [define "CK_FLAG_A" "0x10UL", define "CK_B" "CK_FLAG_A << 1",
      define "CK_FLAG" "CK_B | CK_FLAG_A"]
    let r : Resolver := .new ⟨some 1, false⟩
    DefinedBeforeUse cs ∧ valuesFrom [] cs = .ok [16, 32, 48] ∧ (r.run cs).failure = none ∧
    (r.run cs).constants.map Constant.resolvedValue = [some 16, some 32, some 48] ∧
    (r.turns cs).map Turn.constant = cs ∧
    ∀ turn ∈ r.turns cs, ∃ found,
      resolveConstant turn.table (r.limit cs) turn.constant = .ok found ∧ found.passes ≤ 1 := by
  intro define cs r
  have hdefined : DefinedBeforeUse cs := by
    refine ⟨by decide, by decide, by decide, by decide, fun i c hc w hw hstart => ?_⟩
    let words (x : Text) : List Text :=
      (segments x).filterMap fun segment => segment.casesOn some fun _ => none
    have hchecked : ∀ i : Fin cs.length, ∀ w ∈ words cs[i].rawValue,
        w.head?.any isNameStart = true → w ∈ (cs.take i).map Constant.name := by decide
    obtain ⟨hi, rfl⟩ := List.getElem?_eq_some_iff.1 hc
    exact List.mem_map.1 (hchecked ⟨i, hi⟩ w (List.mem_filterMap.2 ⟨_, hw, rfl⟩) hstart)
  have hvalues : valuesFrom [] cs = .ok [16, 32, 48] := by decide +kernel
  exact ⟨hdefined, hvalues, defined_before_use r rfl (by decide) hdefined hvalues⟩

end Resolver

end HeaderConstants
