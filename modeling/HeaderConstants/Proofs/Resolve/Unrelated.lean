import HeaderConstants.Proofs.Resolve.LongestFirst
import HeaderConstants.Proofs.Resolve.PassLimit
import HeaderConstants.Proofs.Resolve.Progress

/-!
# Unrelated definitions

A name that stands in no other definition and in no literal never comes up: replacements put groups
into texts, and a plain name cannot reach over the end of a group. The passes over other texts are
then the same with and without the name, and so is the run, up to the constant of the name itself.

* `Resolve.without`, `Resolve.expand?_without`: passes without a name;
* `Resolver.Unaffected`, `Resolver.unaffected_runFrom`: two runs side by side;
* `Resolver.unrelated_definition`: a further constant and the runs with and without it.
-/

namespace HeaderConstants
set_option autoImplicit false

open Text

namespace Resolve

variable {t : Table} {n m r v : Text} {c : Constant} {more more' : List Constant} {keepUp : Bool}

/-! ## Passes -/

/-- The table without the name. -/
def without (n : Text) (t : Table) : Table := t.filter fun s => s.name ≠ n

/-- What stands for the other names does not hold the name. -/
def Unmentioned (n : Text) (t : Table) : Prop :=
  ∀ s ∈ t, s.name ≠ n → s.name ≠ [] ∧ ∃ body, s.replacement = group body ∧ ¬ n <:+: body

theorem without_subset (n : Text) (t : Table) : without n t ⊆ t :=
  fun _ hs => List.mem_of_mem_filter hs

theorem Unmentioned.mono {t' : Table} (h : Unmentioned n t) (hsub : t' ⊆ t) : Unmentioned n t' :=
  fun s hs => h s (hsub hs)

theorem not_infix_replaceAll (hn : PlainName n) (hm : m ≠ []) (hr : ¬ n <:+: r) (hv : ¬ n <:+: v) :
    ¬ n <:+: replaceAll m (group r) v := by
  intro hin
  rcases infix_of_infix_replaceAll hn hm hin with hin | ⟨u, hu, -, hin⟩
  · exact hr hin
  · exact hv (hin.trans hu)

theorem pass_without (hn : PlainName n) (ht : Unmentioned n t) (hv : ¬ n <:+: v) :
    pass (without n t) v = pass t v ∧ ¬ n <:+: (pass t v).1 := by
  -- the text stays free of the name through every replacement, so the name never has a turn
  induction t generalizing v with
  | nil => exact ⟨rfl, hv⟩
  | cons s t ih =>
    have ht' := ht.mono (List.subset_cons_self s t)
    by_cases hs : s.name = n
    · have habsent : ¬ s.name <:+: v := hs ▸ hv
      rw [without, List.filter_cons_of_neg (by simp [hs]), pass_cons_of_absent habsent]
      exact ih ht' hv
    · rw [without, List.filter_cons_of_pos (by simp [hs])]
      by_cases hin : s.name <:+: v
      · obtain ⟨hne, body, hbody, habsent⟩ := ht s (List.mem_cons_self ..) hs
        have hv' : ¬ n <:+: replaceAll s.name s.replacement v :=
          hbody ▸ not_infix_replaceAll hn hne habsent hv
        obtain ⟨hpass, hfree⟩ := ih ht' hv'
        rw [without] at hpass
        rw [pass_cons_of_occurs hin, pass_cons_of_occurs hin, hpass]
        exact ⟨rfl, hfree⟩
      · rw [pass_cons_of_absent hin, pass_cons_of_absent hin]
        exact ih ht' hv

theorem expand?_without (hn : PlainName n) (ht : Unmentioned n t) (hv : ¬ n <:+: v) (limit : Nat) :
    expand? (without n t) limit v = expand? t limit v := by
  induction limit generalizing v with
  | zero => rw [expand?, expand?, (pass_without hn ht hv).1]
  | succ limit ih =>
    obtain ⟨hpass, hfree⟩ := pass_without hn ht hv
    have hquiet : Quiet (without n t) v ↔ Quiet t v := by
      rw [← pass_steps_eq_nil_iff, ← pass_steps_eq_nil_iff, hpass]
    by_cases hq : Quiet t v
    · rw [expand?_of_quiet hq, expand?_of_quiet (hquiet.2 hq)]
    · rw [expand?_succ_of_not_quiet hq, expand?_succ_of_not_quiet (mt hquiet.1 hq), hpass, ih hfree]

/-- With and without the name, and under limits that are high enough, a constant resolves alike. -/
theorem resolveConstant_without (hn : PlainName n) (ht : Unmentioned n t) (hplain : Enclosing t)
    (hc : ¬ n <:+: c.rawValue) {limit limit' : Nat} (hlimit : t.length ≤ limit)
    (hlimit' : (without n t).length ≤ limit') (found : Resolution) :
    resolveConstant (without n t) limit' c = .ok found ↔
      resolveConstant t limit c = .ok found := by
  have hplain' : Enclosing (without n t) := hplain.mono (without_subset n t)
  have hlength : (without n t).length ≤ limit := (List.length_filter_le _ t).trans hlimit
  rw [resolveConstant_eq_of_length_le hplain' hlimit' hlength, resolveConstant_eq_ok_iff,
    resolveConstant_eq_ok_iff, expand?_without hn ht hc]

/-! ## Tables -/

theorem without_refresh (n : Text) (t : Table) (c : Constant) :
    without n (refresh t c) = refresh (without n t) c := by
  rw [without, without, refresh, refresh, List.filter_map]
  congr 1
  refine List.filter_congr fun s _ => ?_
  by_cases hs : s.name = c.name <;> simp [hs]

theorem refresh_of_absent (h : ∀ s ∈ t, s.name ≠ c.name) : refresh t c = t := by
  rw [refresh]
  conv_rhs => rw [← List.map_id t]
  exact List.map_congr_left fun s hs => if_neg (h s hs)

/-- The constant of the name itself leaves no trace in the table. -/
theorem without_tableAfter_self (hc : c.name = n) :
    without n (tableAfter keepUp t c more) = without n t := by
  rw [tableAfter]
  split
  · rw [without_refresh]
    refine refresh_of_absent fun s hs => ?_
    rw [hc]
    exact of_decide_eq_true (List.mem_filter.1 hs).2
  · rfl

theorem without_tableAfter (n : Text) (t : Table)
    (hmore : more.any (fun d => d.name = c.name) = more'.any (fun d => d.name = c.name)) :
    without n (tableAfter keepUp t c more) = tableAfter keepUp (without n t) c more' := by
  rw [tableAfter, tableAfter, hmore]
  split
  · exact without_refresh n t c
  · rfl

theorem Unmentioned.tableAfter (h : Unmentioned n t) (hname : c.name ≠ [])
    (hc : c.name ≠ n → ¬ n <:+: c.body) : Unmentioned n (tableAfter keepUp t c more) := by
  intro s hs hne
  rcases mem_tableAfter hs with hs | ⟨rfl, -⟩
  · exact h s hs hne
  · exact ⟨hname, c.body, rfl, hc hne⟩

theorem replacementOf_middle {before after : List Constant} {x : Constant} (hx : x.name ≠ n) :
    replacementOf (before ++ x :: after) n = replacementOf (before ++ after) n := by
  simp [replacementOf, List.find?_append, hx]

theorem order_eq_of_descending {names sorted : List Text} (hsorted : Descending sorted)
    (hmem : ∀ name, name ∈ names ↔ name ∈ sorted) : order names = sorted := by
  have hperm : (order names).Perm sorted := by
    refine (List.perm_ext_iff_of_nodup (nodup_of_descending (descending_order names))
      (nodup_of_descending hsorted)).2 fun name => ?_
    rw [mem_order, hmem]
  refine hperm.eq_of_pairwise (fun a b _ _ hba hab => ?_) (descending_order names) hsorted
  have hcycle := precedes_trans hba hab
  rw [precedes_irrefl] at hcycle
  exact absurd hcycle (by simp)

theorem mem_of_mem_middle {before after : List Constant} {x : Constant}
    (hc : c ∈ before ++ x :: after) (hne : c.name ≠ x.name) : c ∈ before ++ after := by
  rw [List.mem_append, List.mem_cons] at hc
  rcases hc with hc | rfl | hc
  · exact List.mem_append_left after hc
  · exact absurd rfl hne
  · exact List.mem_append_right before hc

theorem without_table {before after : List Constant} {x : Constant}
    (hx : ∀ c ∈ before ++ after, c.name ≠ x.name) :
    without x.name (table (before ++ x :: after)) = table (before ++ after) := by
  have horder : order ((before ++ after).map Constant.name) =
      (order ((before ++ x :: after).map Constant.name)).filter fun name => name ≠ x.name := by
    refine order_eq_of_descending ((descending_order _).filter _) fun name => ?_
    rw [List.mem_filter, mem_order, decide_eq_true_iff]
    constructor
    · intro hname
      obtain ⟨c, hc, rfl⟩ := List.mem_map.1 hname
      refine ⟨List.mem_map_of_mem ?_, hx c hc⟩
      exact (List.sublist_cons_self x after).append_left before |>.subset hc
    · rintro ⟨hname, hne⟩
      obtain ⟨c, hc, rfl⟩ := List.mem_map.1 hname
      exact List.mem_map_of_mem (mem_of_mem_middle hc hne)
  rw [without, table, table, horder, List.filter_map]
  refine List.map_congr_left fun name hname => ?_
  have hne : name ≠ x.name := of_decide_eq_true (List.mem_filter.1 hname).2
  rw [replacementOf_middle hne.symm]

end Resolve

namespace Resolver

open Resolve

variable {keepUp : Bool} {limit limit' k : Nat} {t : Table} {n : Text} {c x : Constant}
  {before rest cs more more' : List Constant} {stats stats' : ResolutionStats} {w u : ResolverRun}

/-- The constant has another name, and its text does not hold this one. -/
structure Bystander (n : Text) (c : Constant) : Prop where
  plain : PlainName c.name
  name_ne : c.name ≠ n
  absent : ¬ n <:+: c.rawValue

theorem Bystander.not_infix_body (h : Bystander n c) (hliteral : HexLiteral.Outside n) :
    ¬ n <:+: c.body := by
  rw [Constant.body]
  split
  · exact hliteral.not_infix_text _
  · exact h.absent

/-- The tables of a run with the name and of one without it, each under a limit that is high
enough. -/
structure SideBySide (n : Text) (t : Table) (limit limit' : Nat) : Prop where
  enclosing : Enclosing t
  unmentioned : Unmentioned n t
  limit_le : t.length ≤ limit
  limit_le' : (without n t).length ≤ limit'

theorem SideBySide.tableAfter (h : SideBySide n t limit limit') (hc : PlainName c.name)
    (hbody : c.name ≠ n → ¬ n <:+: c.body) :
    SideBySide n (tableAfter keepUp t c cs) limit limit' where
  enclosing := h.enclosing.tableAfter hc keepUp
  unmentioned := h.unmentioned.tableAfter hc.1 hbody
  limit_le := (length_tableAfter keepUp t c cs).trans_le h.limit_le
  limit_le' := by
    rw [without_tableAfter n t rfl, length_tableAfter]
    exact h.limit_le'

/-! ## Two runs -/

/-- The runs end alike, with the same constants. -/
def EndsAs (w u : ResolverRun) : Prop :=
  w.constants = u.constants ∧ (w.failure = none ↔ u.failure = none)

/-- The first run failed at the constant, or it ends as the other does, which does not have the
constant at the place. -/
def Unaffected (x : Constant) (k : Nat) (w u : ResolverRun) : Prop :=
  (∃ e, w.failure = some e ∧ e.origin = x.origin) ∨
    w.constants.eraseIdx k = u.constants ∧ (w.failure = none ↔ u.failure = none)

theorem EndsAs.after (h : EndsAs w u) (c : Constant) : EndsAs (w.after c) (u.after c) :=
  ⟨congrArg (c :: ·) h.1, h.2⟩

theorem EndsAs.unaffected (h : EndsAs w u) (c : Constant) : Unaffected x 0 (w.after c) u :=
  .inr h

theorem Unaffected.after (h : Unaffected x k w u) (c : Constant) :
    Unaffected x (k + 1) (w.after c) (u.after c) := by
  refine h.imp id fun ⟨hconstants, hfailure⟩ => ⟨?_, hfailure⟩
  exact congrArg (c :: ·) hconstants

theorem eraseIdx_middle (before : List Constant) (x : Constant) (rest : List Constant) :
    (before ++ x :: rest).eraseIdx before.length = before ++ rest := by
  rw [List.eraseIdx_append_of_length_le (Nat.le_refl _), Nat.sub_self, List.eraseIdx_cons_zero]

/-- At the turn of another constant both runs stop, or both go on from tables side by side. -/
theorem step_of_bystander (keepUp : Bool) (stats stats' : ResolutionStats) (hn : PlainName n)
    (hliteral : HexLiteral.Outside n) (ht : SideBySide n t limit limit') (hc : Bystander n c)
    (hmore : more.any (fun d => d.name = c.name) = more'.any (fun d => d.name = c.name)) :
    (∃ e e', runFrom keepUp limit t stats (c :: more) = ⟨c :: more, stats, some e⟩ ∧
      runFrom keepUp limit' (without n t) stats' (c :: more') = ⟨c :: more', stats', some e'⟩) ∨
    ∃ c' t' s s', SideBySide n t' limit limit' ∧
      runFrom keepUp limit t stats (c :: more) = .after c' (runFrom keepUp limit t' s more) ∧
      runFrom keepUp limit' (without n t) stats' (c :: more') =
        .after c' (runFrom keepUp limit' (without n t') s' more') := by
  cases hres : c.isResolved with
  | true =>
    exact .inr ⟨c, t, stats, stats', ht, runFrom_of_isResolved hres, runFrom_of_isResolved hres⟩
  | false =>
    have halike := resolveConstant_without hn ht.unmentioned ht.enclosing hc.absent ht.limit_le
      ht.limit_le'
    cases hr : resolveConstant t limit c with
    | error e =>
      cases hr' : resolveConstant (without n t) limit' c with
      | error e' => exact .inl ⟨e, e', runFrom_of_error hres hr, runFrom_of_error hres hr'⟩
      | ok found =>
        rw [(halike found).1 hr'] at hr
        exact absurd hr (by simp)
    | ok found =>
      let c' := c.resolve found.value found.trace
      have hplain : PlainName c'.name := hc.plain
      have hbody : ¬ n <:+: c'.body := hliteral.not_infix_text found.value
      refine .inr ⟨c', tableAfter keepUp t c' more, stats.commit found, stats'.commit found,
        ht.tableAfter hplain fun _ => hbody, runFrom_of_ok hres hr, ?_⟩
      have htable : without n (tableAfter keepUp t c' more) =
          tableAfter keepUp (without n t) c' more' := without_tableAfter n t hmore
      rw [runFrom_of_ok hres ((halike found).2 hr), htable]

/-- Once the constant of the name is behind, the runs do the same. -/
theorem endsAs_runFrom (hn : PlainName n) (hliteral : HexLiteral.Outside n)
    (ht : SideBySide n t limit limit') (hcs : ∀ c ∈ cs, Bystander n c) :
    EndsAs (runFrom keepUp limit t stats cs) (runFrom keepUp limit' (without n t) stats' cs) := by
  induction cs generalizing t stats stats' with
  | nil => exact ⟨rfl, Iff.rfl⟩
  | cons c more ih =>
    obtain ⟨hc, hmore⟩ := List.forall_mem_cons.1 hcs
    obtain ⟨e, e', hw, hu⟩ | ⟨c', t', s, s', ht', hw, hu⟩ :=
      step_of_bystander keepUp stats stats' hn hliteral ht hc rfl
    · rw [hw, hu]
      exact ⟨rfl, by simp⟩
    · rw [hw, hu]
      exact (ih ht' hmore).after c'

theorem unaffected_runFrom (keepUp : Bool) (stats stats' : ResolutionStats) (hx : PlainName x.name)
    (hliteral : HexLiteral.Outside x.name) (ht : SideBySide x.name t limit limit')
    (hcs : ∀ c ∈ before ++ rest, Bystander x.name c) :
    Unaffected x before.length (runFrom keepUp limit t stats (before ++ x :: rest))
      (runFrom keepUp limit' (without x.name t) stats' (before ++ rest)) := by
  -- only the turn of `x` itself can end the first run alone, and it changes no other entry
  induction before generalizing t stats stats' with
  | nil =>
    cases hres : x.isResolved with
    | true =>
      rw [List.nil_append, List.nil_append, runFrom_of_isResolved hres]
      exact (endsAs_runFrom hx hliteral ht hcs).unaffected x
    | false =>
      cases hr : resolveConstant t limit x with
      | error e =>
        rw [List.nil_append, runFrom_of_error hres hr]
        exact .inl ⟨e, rfl, origin_of_resolveConstant hr⟩
      | ok found =>
        let x' := x.resolve found.value found.trace
        have hname : x'.name = x.name := rfl
        have ht' : SideBySide x.name (tableAfter keepUp t x' rest) limit limit' :=
          ht.tableAfter hx fun hne => absurd hname hne
        rw [List.nil_append, List.nil_append, runFrom_of_ok hres hr,
          ← without_tableAfter_self hname]
        exact (endsAs_runFrom hx hliteral ht' hcs).unaffected x'
  | cons c before ih =>
    obtain ⟨hc, hmore⟩ := List.forall_mem_cons.1 hcs
    have hany : (before ++ x :: rest).any (fun d => d.name = c.name) =
        (before ++ rest).any (fun d => d.name = c.name) := by
      simp [hc.name_ne.symm]
    obtain ⟨e, e', hw, hu⟩ | ⟨c', t', s, s', ht', hw, hu⟩ :=
      step_of_bystander keepUp stats stats' hx hliteral ht hc hany
    · rw [List.cons_append, List.cons_append, hw, hu]
      exact .inr ⟨eraseIdx_middle (c :: before) x rest, by simp⟩
    · rw [List.cons_append, List.cons_append, hw, hu]
      exact (ih s s' ht' hmore).after c'

/-- The tables at the start of the two runs. -/
theorem sideBySide_table (hnames : ∀ c ∈ before ++ x :: rest, PlainName c.name)
    (hcs : ∀ c ∈ before ++ rest, Bystander x.name c) (hliteral : HexLiteral.Outside x.name)
    (hlimit : (table (before ++ x :: rest)).length ≤ limit)
    (hlimit' : (table (before ++ rest)).length ≤ limit') :
    SideBySide x.name (table (before ++ x :: rest)) limit limit' where
  enclosing := enclosing_table hnames
  unmentioned := by
    intro s hs hne
    obtain ⟨c, hc, hname, hreplacement⟩ := exists_constant_of_mem_table hs
    rw [← hname] at hne ⊢
    have hother : c ∈ before ++ rest := mem_of_mem_middle hc hne
    exact ⟨(hnames c hc).1, c.body, hreplacement, (hcs c hother).not_infix_body hliteral⟩
  limit_le := hlimit
  limit_le' := by
    rw [without_table fun c hc => (hcs c hc).name_ne]
    exact hlimit'

/-- A further constant whose name stands in no other text and in no hexadecimal literal leaves the
other constants as they are without it, or the run fails at it. -/
theorem unrelated_definition (r : Resolver) (before rest : List Constant) (x : Constant)
    (hmax : r.config.maxPasses = none) (hnames : ∀ c ∈ before ++ x :: rest, PlainName c.name)
    (hother : ∀ c ∈ before ++ rest, c.name ≠ x.name ∧ ¬ x.name <:+: c.rawValue)
    (hliteral : HexLiteral.Outside x.name) :
    let w := r.run (before ++ x :: rest)
    let u := r.run (before ++ rest)
    (w.failure = none →
      u.failure = none ∧ w.constants.eraseIdx before.length = u.constants) ∧
    (u.failure = none →
      (w.failure = none ∧ w.constants.eraseIdx before.length = u.constants) ∨
      ∃ e, w.failure = some e ∧ e.origin = x.origin) := by
  intro w u
  have hx : PlainName x.name := hnames x (List.mem_append_right before (List.mem_cons_self ..))
  have hcs : ∀ c ∈ before ++ rest, Bystander x.name c := fun c hc =>
    ⟨hnames c (((List.sublist_cons_self x rest).append_left before).subset hc), (hother c hc).1,
      (hother c hc).2⟩
  have hlimit : ∀ cs, (table cs).length ≤ r.limit cs := by
    intro cs
    rw [limit, ResolverConfig.passLimit, hmax]
    exact Nat.le_succ _
  have hrun : Unaffected x before.length w u := by
    have h := unaffected_runFrom (!r.config.parallel) r.stats r.stats hx hliteral
      (sideBySide_table hnames hcs hliteral (hlimit _) (hlimit _)) hcs
    rwa [without_table fun c hc => (hcs c hc).name_ne] at h
  rcases hrun with ⟨e, he, horigin⟩ | ⟨hconstants, hfailure⟩
  · refine ⟨fun h => ?_, fun _ => .inr ⟨e, he, horigin⟩⟩
    rw [he] at h
    exact absurd h (by simp)
  · exact ⟨fun h => ⟨hfailure.1 h, hconstants⟩, fun h => .inl ⟨hfailure.2 h, hconstants⟩⟩

/-- `CKA_X` refers to others and to nothing that is defined. -/
theorem unrelated_definition_between :
    let define (name value : String) : Constant := .define name value "" 0 ""
    let before := [define "CKA_SUM" "CKA_ONE | (CKA_TWO << 1)", define "CKA_ONE" "1"]
    let rest := [define "CKA_TWO" "CKA_ONE + 1"]
    let x := define "CKA_X" "CKA_SUM + CKA_Y"
    let r : Resolver := .new .standard
    (∀ c ∈ before ++ x :: rest, PlainName c.name) ∧
    (∀ c ∈ before ++ rest, c.name ≠ x.name ∧ ¬ x.name <:+: c.rawValue) ∧
    HexLiteral.Outside x.name ∧
    (let w := r.run (before ++ x :: rest)
     let u := r.run (before ++ rest)
    (w.failure = none →
      u.failure = none ∧ w.constants.eraseIdx before.length = u.constants) ∧
    (u.failure = none →
      (w.failure = none ∧ w.constants.eraseIdx before.length = u.constants) ∨
      ∃ e, w.failure = some e ∧ e.origin = x.origin)) := by
  intro define before rest x r
  have hnames : ∀ c ∈ before ++ x :: rest, PlainName c.name := by decide +kernel
  have hother : ∀ c ∈ before ++ rest, c.name ≠ x.name ∧ ¬ x.name <:+: c.rawValue := by
    decide +kernel
  have hliteral : HexLiteral.Outside x.name :=
    @HexLiteral.outside_of_mem _ '_' (by decide +kernel) (by decide) (by decide) (by decide)
  exact ⟨hnames, hother, hliteral, unrelated_definition r before rest x rfl hnames hother hliteral⟩

end Resolver

end HeaderConstants
