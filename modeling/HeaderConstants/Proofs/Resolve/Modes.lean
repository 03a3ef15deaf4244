import HeaderConstants.Proofs.Resolve.Progress
import HeaderConstants.Proofs.Resolve.Soundness

/-!
# One by one and in a snapshot

A run one by one resolves each constant against the table of the constants as they are at its turn,
where a snapshot run sees the texts from before the run. Runs of both kinds that succeed agree
exactly if every constant gets the same value against either table. For names that are whole words
this says that putting the values of 64 bits for the names does not change what the expansions
evaluate to. A value is exchangeable for its text unless the text stands for a negative integer,
which is a large positive one as a value; so the runs agree if no name in use stands for a negative
integer.

* `Resolve.tableAfter_table`: the tables of a run one by one;
* `Resolve.Consistent`, `Resolver.agree_iff`: values make no difference to what the passes find;
* `Resolve.Neutral`: values make no difference to the expansions;
* `Resolver.snapshot_agrees_iff`: when the runs agree.
-/

namespace HeaderConstants
set_option autoImplicit false

open Text HeaderConstants.Expr

namespace Resolve

variable {cs before done more rest : List Constant} {c c' : Constant} {limit : Nat}
  {u v : UInt64} {name w : Text}

/-- A constant of the name is still to come. -/
def Pending (rest : List Constant) (name : Text) : Prop := ∃ d ∈ rest, d.name = name

/-- What a name stands for when only the rest is still to be resolved: its text as long as a
constant of the name is to come, and then the value of its expansion. -/
def Known (cs rest : List Constant) (name text : Text) : Prop :=
  ∃ body, Defines cs name body ∧ ((Pending rest name ∧ text = body) ∨
    ¬ Pending rest name ∧ ∃ e v, Expands (Defines cs) (segments body) e ∧ evaluate e = .ok v ∧
      text = HexLiteral.text v)

/-- At the turn of the constant, with more to come, values in the place of texts make no
difference. -/
def NeutralAt (cs : List Constant) (c : Constant) (more : List Constant) : Prop :=
  ∀ e e' v, Expands (Defines cs) (segments c.rawValue) e →
    Expands (Known cs (c :: more)) (segments c.rawValue) e' → evaluate e = .ok v →
      evaluate e' = .ok v

/-- Values in the place of texts make no difference to any constant that is to be resolved. -/
def Neutral (cs : List Constant) : Prop :=
  ∀ c more, c :: more <:+ cs → c.isResolved = false → NeutralAt cs c more

/-- Against the table of the constants the constant gets the value. -/
def Gets (limit : Nat) (cs : List Constant) (c : Constant) (v : UInt64) : Prop :=
  ∃ found, resolveConstant (table cs) limit c = .ok found ∧ found.value = v

/-- Every constant that is to be resolved gets the same value when those before it are already
`done`. -/
def Consistent (limit : Nat) (cs done : List Constant) : Prop :=
  ∀ before c more, cs = before ++ c :: more → c.isResolved = false →
    ∀ v, Gets limit (done.take before.length ++ c :: more) c v ↔ Gets limit cs c v

theorem Gets.unique (h : Gets limit cs c v) (h' : Gets limit cs c u) : v = u := by
  obtain ⟨found, hfound, rfl⟩ := h
  obtain ⟨found', hfound', rfl⟩ := h'
  rw [hfound] at hfound'
  rw [Except.ok.inj hfound']

theorem gets_iff_congr {before' : List Constant} (h : Gets limit before c v)
    (h' : Gets limit before' c u) :
    (∀ w, Gets limit before c w ↔ Gets limit before' c w) ↔ v = u := by
  refine ⟨fun hall => ((hall v).1 h).unique h', ?_⟩
  rintro rfl w
  exact ⟨fun hw => hw.unique h ▸ h', fun hw => hw.unique h' ▸ h⟩

/-! ## The tables of a run one by one -/

theorem definition?_append (before rest : List Constant) (name : Text) :
    definition? (before ++ rest) name = (definition? rest name).or (definition? before name) := by
  simp only [definition?, List.reverse_append, List.find?_append, Option.map_or]

theorem definition?_cons (c : Constant) (more : List Constant) (name : Text) :
    definition? (c :: more) name =
      (definition? more name).or (if c.name = name then some c.body else none) := by
  rw [← List.singleton_append, definition?_append]
  congr 1
  by_cases hname : c.name = name <;> simp [definition?, hname]

theorem definition?_eq_none_iff : definition? cs name = none ↔ ¬ Pending cs name := by
  simp [definition?, Pending]

theorem replacementOf_eq (cs : List Constant) (name : Text) :
    replacementOf cs name = (definition? cs name).elim [] group := by
  unfold replacementOf definition?
  cases cs.reverse.find? (fun c => c.name = name) <;> rfl

theorem any_name_eq_iff : more.any (fun d => d.name = c.name) = true ↔ Pending more c.name := by
  simp [Pending]

theorem tableAfter_of_pending {t : Table} (h : Pending more c.name) :
    tableAfter true t c more = t := by
  rw [tableAfter, any_name_eq_iff.2 h]
  rfl

theorem tableAfter_of_last {t : Table} (h : ¬ Pending more c.name) :
    tableAfter true t c more = refresh t c := by
  rw [← any_name_eq_iff, Bool.not_eq_true] at h
  rw [tableAfter, h]
  rfl

theorem replacementOf_congr (hname : c'.name = c.name) (h : c.name = name → Pending more name) :
    replacementOf (before ++ c' :: more) name = replacementOf (before ++ c :: more) name := by
  rw [replacementOf_eq, replacementOf_eq, definition?_append, definition?_append, definition?_cons,
    definition?_cons, hname]
  by_cases hown : c.name = name
  · obtain ⟨body, hbody⟩ := Option.ne_none_iff_exists'.1
      fun hnone => definition?_eq_none_iff.1 hnone (h hown)
    rw [hbody]
    rfl
  · rw [if_neg hown, if_neg hown]

theorem replacementOf_of_last (hlast : ¬ Pending more c.name) :
    replacementOf (before ++ c :: more) c.name = c.substitutionText := by
  rw [replacementOf_eq, definition?_append, definition?_cons, definition?_eq_none_iff.2 hlast,
    if_pos rfl]
  rfl

/-- A table keeps up with a constant: it becomes the one of the constants as they are now. -/
theorem tableAfter_table (c' : Constant) (hname : c'.name = c.name) :
    tableAfter true (table (before ++ c :: more)) c' more = table (before ++ c' :: more) := by
  have hnames : (before ++ c' :: more).map Constant.name =
      (before ++ c :: more).map Constant.name := by simp [hname]
  by_cases hlast : Pending more c'.name
  · rw [tableAfter_of_pending hlast, table, table, hnames]
    refine List.map_congr_left fun name _ => ?_
    rw [replacementOf_congr hname fun hown => hown ▸ hname ▸ hlast]
  · rw [tableAfter_of_last hlast, refresh, table, table, hnames, List.map_map]
    refine List.map_congr_left fun name _ => ?_
    rw [Function.comp_apply]
    split
    · next hown =>
      rw [show name = c'.name from hown, replacementOf_of_last hlast]
    · next hother =>
      rw [replacementOf_congr hname fun hown => absurd (hown.symm.trans hname.symm) hother]

/-! ## Values of expansions -/

/-- The expansion of the constant has the value. -/
def Evaluates (cs : List Constant) (c : Constant) (v : UInt64) : Prop :=
  ∃ e, Expands (Defines cs) (segments c.rawValue) e ∧ evaluate e = .ok v

/-- A constant with a value stays, and one without becomes what its expansion evaluates to. -/
def Valued (cs : List Constant) (c c' : Constant) : Prop :=
  (c.isResolved = true ∧ c' = c) ∨
    c.isResolved = false ∧ ∃ v trace, c' = c.resolve v trace ∧ Evaluates cs c v

theorem Evaluates.unique (h : Evaluates cs c v) (h' : Evaluates cs c u) : v = u := by
  obtain ⟨e, he, hv⟩ := h
  obtain ⟨e', he', hu⟩ := h'
  rw [he.unique (rightUnique_defines cs) he', hu] at hv
  exact (Except.ok.inj hv).symm

theorem Gets.evaluates (hnames : ∀ d ∈ cs, ProperName d.name) (h : Gets limit cs c v) :
    Evaluates cs c v := by
  obtain ⟨found, hfound, rfl⟩ := h
  obtain ⟨e, he, hv⟩ :=
    exists_entries_of_resolveConstant ((faithful_table cs).groupsWords hnames) hfound
  rw [entry_table] at he
  exact ⟨e, he, hv⟩

theorem Valued.name_eq (h : Valued cs c c') : c'.name = c.name := by
  rcases h with ⟨-, rfl⟩ | ⟨-, v, trace, rfl, -⟩ <;> rfl

theorem Valued.body (hnames : ∀ d ∈ cs, ProperName d.name) (h : Valued cs c c') :
    ∃ e v, Expands (Defines cs) (segments c.body) e ∧ evaluate e = .ok v ∧
      c'.body = HexLiteral.text v := by
  rcases h with ⟨hres, rfl⟩ | ⟨hres, v, trace, rfl, e, he, hv⟩
  · obtain ⟨v, hv⟩ := Option.isSome_iff_exists.1 hres
    have hbody : c'.body = HexLiteral.text v := by rw [Constant.body, hv]
    have hundefined : ∀ body, ¬ Defines cs (HexLiteral.text v) body := fun body hdef => by
      obtain ⟨d, hd, hname, -⟩ := hdef.exists_constant
      exact (hnames d hd).2 v hname
    refine ⟨_, v, ?_, evaluate_hexLiteral v, hbody⟩
    rw [hbody]
    exact (expands_hexLiteral_iff hundefined).2 rfl
  · rw [← body_of_unresolved hres] at he
    exact ⟨e, v, he, hv, rfl⟩

theorem Valued.resolvedValue_eq {d : Constant} (h : Valued cs c c') (h' : Valued cs c d) :
    c'.resolvedValue = d.resolvedValue := by
  rcases h with ⟨hres, rfl⟩ | ⟨hres, v, trace, rfl, hv⟩ <;>
    rcases h' with ⟨hres', rfl⟩ | ⟨hres', u, trace', rfl, hu⟩
  · rfl
  · exact absurd (hres.symm.trans hres') (by simp)
  · exact absurd (hres.symm.trans hres') (by simp)
  · exact congrArg some (hv.unique hu)

theorem map_resolvedValue_eq {done' : List Constant} (h : List.Forall₂ (Valued cs) rest done)
    (h' : List.Forall₂ (Valued cs) rest done') :
    done.map Constant.resolvedValue = done'.map Constant.resolvedValue := by
  induction h generalizing done' with
  | nil =>
    cases h'
    rfl
  | cons hc _ ih =>
    cases h' with
    | cons hc' hmore => rw [List.map_cons, List.map_cons, hc.resolvedValue_eq hc', ih hmore]

/-! ## What names stand for in a run one by one -/

theorem definition?_of_valued (hnames : ∀ d ∈ cs, ProperName d.name)
    (h : List.Forall₂ (Valued cs) before done) (name : Text) :
    Option.Rel (fun body text => ∃ e v, Expands (Defines cs) (segments body) e ∧
      evaluate e = .ok v ∧ text = HexLiteral.text v)
      (definition? before name) (definition? done name) := by
  induction h with
  | nil => exact .none
  | cons hc _ ih =>
    rw [definition?_cons, definition?_cons, hc.name_eq]
    revert ih
    generalize definition? _ name = found
    generalize definition? _ name = found'
    rintro (hsome | -)
    · exact .some hsome
    · rw [Option.none_or, Option.none_or]
      split
      · exact .some (hc.body hnames)
      · exact .none

theorem defines_eq_known (hnames : ∀ d ∈ cs, ProperName d.name) (hsplit : cs = before ++ rest)
    (h : List.Forall₂ (Valued cs) before done) : Defines (done ++ rest) = Known cs rest := by
  funext name text
  refine propext ?_
  have hcs : ∀ body, Defines cs name body ↔
      (definition? rest name).or (definition? before name) = some body := fun body => by
    rw [hsplit, Defines, definition?_append]
  have hdone : Defines (done ++ rest) name text ↔
      (definition? rest name).or (definition? done name) = some text := by
    rw [Defines, definition?_append]
  simp only [Known, hcs, hdone]
  by_cases hpending : Pending rest name
  · obtain ⟨body, hbody⟩ := Option.ne_none_iff_exists'.1
      fun hnone => definition?_eq_none_iff.1 hnone hpending
    simp [hpending, hbody, eq_comm]
  · have hrel := definition?_of_valued hnames h name
    rw [definition?_eq_none_iff.2 hpending, Option.none_or, Option.none_or]
    simp only [hpending, false_and, not_false_eq_true, true_and, false_or]
    revert hrel
    generalize definition? before name = found
    generalize definition? done name = found'
    rintro (⟨e, v, he, hv, rfl⟩ | -)
    · constructor
      · intro htext
        obtain rfl := Option.some.inj htext
        exact ⟨_, rfl, e, v, he, hv, rfl⟩
      · rintro ⟨body, hbody, e', v', he', hv', rfl⟩
        obtain rfl := Option.some.inj hbody
        rw [he'.unique (rightUnique_defines cs) he, hv] at hv'
        rw [Except.ok.inj hv']
    · simp

/-- With the values of the constants before it in their places, a constant gets the same value if
and only if it is neutral at its turn. -/
theorem neutralAt_iff (hnames : ∀ d ∈ cs, ProperName d.name) (hsplit : cs = before ++ c :: more)
    (hdone : List.Forall₂ (Valued cs) before done) (hu : Gets limit cs c u)
    (hv : Gets limit (done ++ c :: more) c v) : NeutralAt cs c more ↔ v = u := by
  have hnames' : ∀ d ∈ done ++ c :: more, ProperName d.name := by
    have hname : done.map Constant.name = before.map Constant.name :=
      map_eq_of_forall₂ Constant.name Constant.name hdone fun _ _ hc => hc.name_eq
    have heq : (done ++ c :: more).map Constant.name = cs.map Constant.name := by
      rw [hsplit, List.map_append, List.map_append, hname]
    rw [← List.forall_mem_map (P := ProperName), heq]
    exact List.forall_mem_map.2 hnames
  obtain ⟨e, he, hu⟩ := hu.evaluates hnames
  obtain ⟨e', he', hv⟩ := hv.evaluates hnames'
  have hknown := defines_eq_known hnames hsplit hdone
  have hright : Relator.RightUnique (Known cs (c :: more)) := hknown ▸ rightUnique_defines _
  rw [hknown] at he'
  constructor
  · intro hneutral
    have hsame := hneutral e e' u he he' hu
    rw [hv] at hsame
    exact Except.ok.inj hsame
  · rintro rfl x x' w hx hx' hw
    rw [hx.unique (rightUnique_defines cs) he, hu] at hw
    rw [hx'.unique hright he', hv, hw]

end Resolve

namespace Resolver

open Resolve

variable {limit : Nat} {stats stats' : ResolutionStats} {cs rest : List Constant}

/-! ## Snapshot runs -/

/-- A snapshot run that succeeds gives each constant the value of its expansion. -/
theorem valued_of_snapshot (hnames : ∀ c ∈ cs, ProperName c.name)
    (hrun : (runFrom false limit (table cs) stats rest).failure = none) :
    List.Forall₂ (Valued cs) rest (runFrom false limit (table cs) stats rest).constants := by
  induction rest generalizing stats with
  | nil => exact .nil
  | cons c more ih =>
    cases hres : c.isResolved with
    | true =>
      rw [runFrom_of_isResolved hres] at hrun ⊢
      exact .cons (.inl ⟨hres, rfl⟩) (ih hrun)
    | false =>
      cases hr : resolveConstant (table cs) limit c with
      | error e =>
        rw [runFrom_of_error hres hr] at hrun
        exact absurd hrun (by simp)
      | ok r =>
        rw [runFrom_of_ok hres hr] at hrun ⊢
        have hgets : Gets limit cs c r.value := ⟨r, hr, rfl⟩
        exact .cons (.inr ⟨hres, r.value, r.trace, rfl, hgets.evaluates hnames⟩) (ih hrun)

/-! ## Agreement -/

/-- A run one by one and a snapshot run give the same values. -/
def Agree (maxPasses : Option Nat) (stats : ResolutionStats) (cs : List Constant) : Prop :=
  (run ⟨⟨maxPasses, false⟩, stats⟩ cs).constants.map Constant.resolvedValue =
    (run ⟨⟨maxPasses, true⟩, stats⟩ cs).constants.map Constant.resolvedValue

theorem forall_split_cons_iff {P : List Constant → Constant → List Constant → Prop} {c : Constant}
    {more : List Constant} :
    (∀ before d rest, c :: more = before ++ d :: rest → P before d rest) ↔
      P [] c more ∧ ∀ before d rest, more = before ++ d :: rest → P (c :: before) d rest := by
  constructor
  · intro h
    refine ⟨h [] c more rfl, fun before d rest hsplit => h (c :: before) d rest ?_⟩
    rw [hsplit, List.cons_append]
  · rintro ⟨hfirst, hmore⟩ before d rest heq
    rcases before with - | ⟨first, before⟩
    · obtain ⟨rfl, rfl⟩ := List.cons.inj heq
      exact hfirst
    · obtain ⟨rfl, hsplit⟩ := List.cons.inj heq
      exact hmore before d rest hsplit

/-- A run one by one, some constants of which are already done, and a snapshot run agree exactly if
every constant gets the same value in both. `P` is any way to say that it does. -/
theorem agree_iff (done : List Constant) {P : List Constant → Constant → List Constant → Prop}
    (hone : (runFrom true limit (table (done ++ rest)) stats rest).failure = none)
    (hsnapshot : (runFrom false limit (table cs) stats' rest).failure = none)
    (hP : ∀ before c more, rest = before ++ c :: more → c.isResolved = false →
      ∀ u v, Gets limit cs c u →
        Gets limit (done ++ (runFrom false limit (table cs) stats' rest).constants.take
          before.length ++ c :: more) c v →
        (P before c more ↔ v = u)) :
    (runFrom true limit (table (done ++ rest)) stats rest).constants.map Constant.resolvedValue =
        (runFrom false limit (table cs) stats' rest).constants.map Constant.resolvedValue ↔
      ∀ before c more, rest = before ++ c :: more → c.isResolved = false → P before c more := by
  induction rest generalizing done stats stats' P with
  | nil => simp [runFrom]
  | cons c more ih =>
    have hfirst := hP [] c more rfl
    have hrest := fun before d rest (hsplit : more = before ++ d :: rest) =>
      hP (c :: before) d rest (congrArg (c :: ·) hsplit)
    rw [forall_split_cons_iff (P := fun before c more => c.isResolved = false → P before c more)]
    cases hres : c.isResolved with
    | true =>
      rw [runFrom_of_isResolved hres] at hone hsnapshot hrest ⊢
      rw [runFrom_of_isResolved hres]
      have hdone : done ++ c :: more = done ++ [c] ++ more := by simp
      rw [hdone] at hone ⊢
      have hagree := ih _ hone hsnapshot fun before d rest hsplit hd u v hu hv =>
        hrest before d rest hsplit hd u v hu (by simpa [ResolverRun.after] using hv)
      simpa [ResolverRun.after] using hagree
    | false =>
      cases hr : resolveConstant (table (done ++ c :: more)) limit c with
      | error e =>
        rw [runFrom_of_error hres hr] at hone
        exact absurd hone (by simp)
      | ok found =>
        cases hr' : resolveConstant (table cs) limit c with
        | error e =>
          rw [runFrom_of_error hres hr'] at hsnapshot
          exact absurd hsnapshot (by simp)
        | ok found' =>
          have hvalue : P [] c more ↔ found.value = found'.value :=
            hfirst hres _ _ ⟨found', hr', rfl⟩ ⟨found, by simpa using hr, rfl⟩
          have hsame : tableAfter false (table cs) (c.resolve found'.value found'.trace) more =
              table cs := rfl
          rw [runFrom_of_ok hres hr', hsame] at hsnapshot hrest ⊢
          rw [runFrom_of_ok hres hr] at hone ⊢
          have hown : (c.resolve found.value found.trace).resolvedValue =
              (c.resolve found'.value found'.trace).resolvedValue ↔ found.value = found'.value :=
            Option.some_inj
          simp only [ResolverRun.after, List.map_cons, List.cons.injEq, hown, true_implies, hvalue]
          -- the table of the run one by one keeps up only with values that agree
          refine and_congr_right fun heq => ?_
          have htable : tableAfter true (table (done ++ c :: more))
              (c.resolve found.value found.trace) more =
                table (done ++ [c.resolve found'.value found'.trace] ++ more) := by
            rw [heq, List.append_assoc]
            exact tableAfter_table (c.resolve found'.value found'.trace) rfl
          rw [htable] at hone ⊢
          exact ih _ hone hsnapshot fun before d rest hsplit hd u v hu hv =>
            hrest before d rest hsplit hd u v hu (by simpa [ResolverRun.after] using hv)

theorem neutral_iff : Neutral cs ↔
    ∀ before c more, cs = before ++ c :: more → c.isResolved = false → NeutralAt cs c more :=
  ⟨fun h before c more hsplit => h c more ⟨before, hsplit.symm⟩,
    fun h c more ⟨before, hsplit⟩ => h before c more hsplit.symm⟩

theorem Outcome.valued {c c' : Constant} (huses : NonnegativeUses cs) (h : Outcome cs c c') :
    Valued cs c c' := by
  rcases h with hstays | ⟨hres, v, trace, e, hc', he, hvalue⟩
  · exact .inl hstays
  · exact .inr ⟨hres, v, trace, hc', e, he, hvalue huses⟩

/-- A run one by one and a snapshot run that both succeed give the same values exactly if every
constant gets the same value when those before it already have theirs. If the names are whole words,
this is so exactly if values in the place of texts make no difference to the expansions; and they
make none if no name in use stands for a negative integer. -/
theorem snapshot_agrees_iff (maxPasses : Option Nat) (stats : ResolutionStats) (cs : List Constant)
    (hone : (run ⟨⟨maxPasses, false⟩, stats⟩ cs).failure = none)
    (hsnapshot : (run ⟨⟨maxPasses, true⟩, stats⟩ cs).failure = none) :
    (Agree maxPasses stats cs ↔
      Consistent (Resolver.limit ⟨⟨maxPasses, true⟩, stats⟩ cs) cs
        (run ⟨⟨maxPasses, true⟩, stats⟩ cs).constants) ∧
    ((∀ c ∈ cs, ProperName c.name) →
      (Agree maxPasses stats cs ↔ Neutral cs) ∧ (NonnegativeUses cs → Neutral cs)) := by
  refine ⟨agree_iff [] hone hsnapshot fun before c more _ _ u v hu hv =>
    gets_iff_congr hv hu, fun hnames => ?_⟩
  have hvalued := valued_of_snapshot hnames hsnapshot
  have hneutral : Agree maxPasses stats cs ↔ Neutral cs := by
    rw [neutral_iff]
    refine agree_iff [] hone hsnapshot fun before c more hsplit _ u v hu hv => ?_
    have hdone := List.forall₂_take before.length hvalued
    rw [hsplit, List.take_left, ← hsplit] at hdone
    exact neutralAt_iff hnames hsplit hdone hu hv
  refine ⟨hneutral, fun huses => hneutral.1 ?_⟩
  have houtcomes := outcomes_of_run ⟨⟨maxPasses, false⟩, stats⟩ hnames hone
  exact map_resolvedValue_eq (houtcomes.imp fun _ _ h => h.valued huses) hvalued

/-- A value that is used as it is, and a negative integer that is not looked at. -/
theorem snapshot_agrees_iff_or :
    let define (name value : String) : Constant := .define name value "" 0 ""
    let cs := [define "A" "2", define "B" "0-A", define "C" "B | 0"]
    (run ⟨⟨none, false⟩, .zero⟩ cs).failure = none ∧
    (run ⟨⟨none, true⟩, .zero⟩ cs).failure = none ∧ (∀ c ∈ cs, ProperName c.name) ∧
    (Agree none .zero cs ↔
      Consistent (Resolver.limit ⟨⟨none, true⟩, .zero⟩ cs) cs
        (run ⟨⟨none, true⟩, .zero⟩ cs).constants) ∧
    (Agree none .zero cs ↔ Neutral cs) ∧ (NonnegativeUses cs → Neutral cs) := by
  intro define cs
  have hone : (run ⟨⟨none, false⟩, .zero⟩ cs).failure = none := by decide +kernel
  have hsnapshot : (run ⟨⟨none, true⟩, .zero⟩ cs).failure = none := by decide +kernel
  have hnames : ∀ c ∈ cs, Identifier c.name := by decide
  have hproper : ∀ c ∈ cs, ProperName c.name := fun c hc => (hnames c hc).properName
  obtain ⟨hconsistent, hneutral⟩ := snapshot_agrees_iff none .zero cs hone hsnapshot
  exact ⟨hone, hsnapshot, hproper, hconsistent, hneutral hproper⟩

/-- A negative integer is below zero in its text, and above as a value. -/
theorem snapshot_disagrees :
    ¬ ∀ (maxPasses : Option Nat) (stats : ResolutionStats) (cs : List Constant),
      (run ⟨⟨maxPasses, false⟩, stats⟩ cs).failure = none →
      (run ⟨⟨maxPasses, true⟩, stats⟩ cs).failure = none →
      (run ⟨⟨maxPasses, false⟩, stats⟩ cs).constants.map Constant.resolvedValue =
        (run ⟨⟨maxPasses, true⟩, stats⟩ cs).constants.map Constant.resolvedValue := by
  intro hagrees
  let define (name value : String) : Constant := .define name value "" 0 ""
  let cs := [define "A" "0-1", define "B" "A < 0"]
  have hone : (run ⟨⟨none, false⟩, .zero⟩ cs).failure = none := by decide +kernel
  have hsnapshot : (run ⟨⟨none, true⟩, .zero⟩ cs).failure = none := by decide +kernel
  have hdiffer : (run ⟨⟨none, false⟩, .zero⟩ cs).constants.map Constant.resolvedValue ≠
      (run ⟨⟨none, true⟩, .zero⟩ cs).constants.map Constant.resolvedValue := by decide +kernel
  exact hdiffer (hagrees none .zero cs hone hsnapshot)

end Resolver

end HeaderConstants
