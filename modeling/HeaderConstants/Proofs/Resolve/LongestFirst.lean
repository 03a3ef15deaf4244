import HeaderConstants.Proofs.Resolve.WholeWords

/-!
# Longer names first

A pass replaces a longer name before the names that it starts with. It can still meet the longer
name at the turn of a shorter one: a replacement of the same pass may have brought the longer name
in after its own turn, and the shorter name then cuts it in two. A text that was cut has no value,
so the steps of a constant that resolves show no cut.

* `Resolve.Cuts`: a step with a longer name where its symbol stands;
* `Resolve.cuts_iff_brought`: within one pass, where the longer name came from;
* `Resolve.not_cuts_of_resolveConstant`: constants that resolve;
* `Resolver.longest_first`: the passes and the traces of a run.
-/

namespace HeaderConstants
set_option autoImplicit false

open Text HeaderConstants.Expr

namespace Resolve

variable {t : Table} {s : Substitution} {st : ResolutionStep}
  {before after : List ResolutionStep} {n m r v w : Text}

/-- Where the symbol of the step stands in its expression, a longer name stands as well. -/
def Cuts (st : ResolutionStep) (longer : Text) : Prop :=
  st.symbol <+: longer ∧ st.symbol ≠ longer ∧
    ∃ u w, st.expression = u ++ longer ++ w ∧ st.symbol <+: longer ++ w

theorem cuts_iff (hstart : st.symbol <+: n) (hne : st.symbol ≠ n) :
    Cuts st n ↔ n <:+: st.expression := by
  constructor
  · rintro ⟨-, -, u, w, he, -⟩
    exact ⟨u, w, he.symm⟩
  · rintro ⟨u, w, he⟩
    exact ⟨hstart, hne, u, w, he.symm, hstart.trans (List.prefix_append n w)⟩

theorem precedes_of_proper_start (hstart : m <+: n) (hne : m ≠ n) : m.precedes n = true := by
  obtain ⟨more, rfl⟩ := hstart
  cases more with
  | nil => exact absurd (List.append_nil m).symm hne
  | cons c more => exact precedes_append m c more

/-! ## Where a name comes from -/

/-- A plain name in the result of a replacement is in the replacement, or in a part of the text that
was left alone. -/
theorem infix_of_infix_replaceAll {v : Text} (hn : PlainName n) (hm : m ≠ [])
    (h : n <:+: replaceAll m (group r) v) : n <:+: r ∨ ∃ u, u <:+: v ∧ ¬ m <:+: u ∧ n <:+: u := by
  by_cases hin : m <:+: v
  · obtain ⟨u, w, he, hu, hr⟩ := exists_first_occurrence hm hin
    have hlen : w.length < v.length := by
      have hpos := List.length_pos_iff.2 hm
      simp only [he, List.length_append]
      omega
    have hsplit : u ++ group r ++ replaceAll m (group r) w =
        u ++ '(' :: (r ++ ')' :: replaceAll m (group r) w) := by simp [group]
    rw [hr, hsplit, infix_append_cons_iff hn.1 hn.2.1, infix_append_cons_iff hn.1 hn.2.2] at h
    rcases h with h | h | h
    · exact .inr ⟨u, ⟨[], m ++ w, by simp [he]⟩, hu, h⟩
    · exact .inl h
    · rcases infix_of_infix_replaceAll hn hm h with hr | ⟨u', hu', hm', hn'⟩
      · exact .inl hr
      · exact .inr ⟨u', hu'.trans ⟨u ++ m, [], by simp [he]⟩, hm', hn'⟩
  · rw [replaceAll_of_absent hm hin] at h
    exact .inr ⟨v, List.infix_refl v, hin, h⟩
termination_by v.length

theorem symbol_mem_of_mem_pass (hst : st ∈ (pass t v).2) :
    st.symbol ∈ t.map Substitution.name := by
  obtain ⟨s, hs, hname, -⟩ := replaces_of_mem_pass (fun _ hs => hs) hst
  exact hname ▸ List.mem_map_of_mem hs

theorem pass_append (t t' : Table) (v : Text) :
    pass (t ++ t') v = ((pass t' (pass t v).1).1, (pass t v).2 ++ (pass t' (pass t v).1).2) := by
  induction t generalizing v with
  | nil => rfl
  | cons s t ih =>
    by_cases h : s.name <:+: v
    · rw [List.cons_append, pass_cons_of_occurs h, pass_cons_of_occurs h, ih, List.cons_append]
    · rw [List.cons_append, pass_cons_of_absent h, pass_cons_of_absent h, ih]

/-- A name that a step meets was there at the start of the pass or came with the replacement of an
earlier step, and it has been there since. -/
theorem origin_of_infix (ht : Enclosing t) (hn : PlainName n)
    (hsplit : (pass t v).2 = before ++ st :: after) (hin : n <:+: st.expression) :
    (n <:+: v ∧ ∀ middle ∈ before, n <:+: middle.expression) ∨
      ∃ earlier source later, before = earlier ++ source :: later ∧ n <:+: source.replacement ∧
        ∀ middle ∈ later, n <:+: middle.expression := by
  induction t generalizing v before with
  | nil => exact absurd hsplit (by simp [pass])
  | cons s t ih =>
    have ht' := ht.mono (List.subset_cons_self s t)
    by_cases h : s.name <:+: v
    · simp only [pass_cons_of_occurs h] at hsplit
      cases before with
      | nil =>
        obtain ⟨rfl, -⟩ := List.cons.inj hsplit
        exact .inl ⟨hin, by simp⟩
      | cons first before =>
        obtain ⟨rfl, hrest⟩ := List.cons.inj hsplit
        rcases ih ht' hrest with ⟨hv, hall⟩ | ⟨earlier, source, later, rfl, hrep, hall⟩
        · obtain ⟨⟨hne, -⟩, body, hbody⟩ := ht s (List.mem_cons_self ..)
          rw [hbody] at hv
          rcases infix_of_infix_replaceAll hn hne hv with hr | ⟨u, hu, -, hnu⟩
          · refine .inr ⟨[], _, before, rfl, ?_, hall⟩
            rw [hbody]
            exact hr.trans ⟨['('], [')'], by simp⟩
          · refine .inl ⟨hnu.trans hu, fun middle hmiddle => ?_⟩
            rcases List.mem_cons.1 hmiddle with rfl | hmiddle
            · exact hnu.trans hu
            · exact hall middle hmiddle
        · exact .inr ⟨_ :: earlier, source, later, rfl, hrep, hall⟩
    · rw [pass_cons_of_absent h] at hsplit
      exact ih ht' hsplit

/-! ## Cuts within a pass -/

/-- The names of the table are tried in descending order. -/
theorem eq_append_of_descending (ht : Descending (t.map Substitution.name)) (hs : s ∈ t) :
    ∃ t₁ t₂, t = t₁ ++ s :: t₂ ∧ (∀ x ∈ t₁.map Substitution.name, s.name.precedes x = true) ∧
      ∀ x ∈ t₂.map Substitution.name, x.precedes s.name = true := by
  obtain ⟨t₁, t₂, rfl⟩ := List.append_of_mem hs
  rw [List.map_append, List.map_cons] at ht
  obtain ⟨-, htail, hcross⟩ := List.pairwise_append.1 ht
  exact ⟨t₁, t₂, rfl, fun x hx => hcross x hx _ (List.mem_cons_self ..),
    (List.pairwise_cons.1 htail).1⟩

/-- The steps of a pass from the turn of a name on. -/
theorem exists_source_of_turn (ht : Enclosing (s :: t))
    (hlate : ∀ x ∈ t.map Substitution.name, x.precedes s.name = true)
    (hsplit : (pass (s :: t) v).2 = before ++ st :: after) (hne : st.symbol ≠ s.name)
    (hin : s.name <:+: st.expression) :
    ∃ earlier source later, before = earlier ++ source :: later ∧
      (source.symbol = s.name ∨ source.symbol.precedes s.name = true) ∧
      s.name <:+: source.replacement ∧ ∀ middle ∈ later, s.name <:+: middle.expression := by
  have ht' := ht.mono (List.subset_cons_self s t)
  obtain ⟨hplain, body, hbody⟩ := ht s (List.mem_cons_self ..)
  by_cases hturn : s.name <:+: v
  · simp only [pass_cons_of_occurs hturn] at hsplit
    cases before with
    | nil =>
      obtain ⟨rfl, -⟩ := List.cons.inj hsplit
      exact absurd rfl hne
    | cons own before =>
      obtain ⟨rfl, hrest⟩ := List.cons.inj hsplit
      rcases origin_of_infix ht' hplain hrest hin with
        ⟨hv, hall⟩ | ⟨earlier, source, later, rfl, hrep, hall⟩
      · rw [hbody] at hv
        rcases infix_of_infix_replaceAll hplain hplain.1 hv with hr | ⟨u, -, habsent, hu⟩
        · refine ⟨[], _, before, rfl, .inl rfl, ?_, hall⟩
          rw [hbody]
          exact hr.trans ⟨['('], [')'], by simp⟩
        · exact absurd hu habsent
      · have hsource : source.symbol ∈ t.map Substitution.name :=
          symbol_mem_of_mem_pass (by rw [hrest]; simp)
        exact ⟨_ :: earlier, source, later, rfl, .inr (hlate _ hsource), hrep, hall⟩
  · rw [pass_cons_of_absent hturn] at hsplit
    rcases origin_of_infix ht' hplain hsplit hin with
      ⟨hv, -⟩ | ⟨earlier, source, later, rfl, hrep, hall⟩
    · exact absurd hv hturn
    · have hsource : source.symbol ∈ t.map Substitution.name :=
        symbol_mem_of_mem_pass (by rw [hsplit]; simp)
      exact ⟨earlier, source, later, rfl, .inr (hlate _ hsource), hrep, hall⟩

/-- Within a pass a step cuts a longer name exactly if an earlier step of the pass has brought the
longer name in, at its own turn or after it, and nothing has removed it since. -/
theorem cuts_iff_brought (ht : Enclosing t) (horder : Descending (t.map Substitution.name))
    (hn : n ∈ t.map Substitution.name) (hsplit : (pass t v).2 = before ++ st :: after)
    (hstart : st.symbol <+: n) (hne : st.symbol ≠ n) :
    Cuts st n ↔ ∃ earlier source later, before = earlier ++ source :: later ∧
      (source.symbol = n ∨ source.symbol.precedes n = true) ∧ n <:+: source.replacement ∧
      ∀ middle ∈ later ++ [st], n <:+: middle.expression := by
  rw [cuts_iff hstart hne]
  constructor
  · intro hin
    obtain ⟨s, hs, rfl⟩ := List.mem_map.1 hn
    obtain ⟨t₁, t₂, rfl, hearly, hlate⟩ := eq_append_of_descending horder hs
    -- the names before `n` are all later in the order of texts, so the step is not theirs
    have hnot : st ∉ (pass t₁ v).2 := fun hst => by
      have hcycle := precedes_trans (hearly _ (symbol_mem_of_mem_pass hst))
        (precedes_of_proper_start hstart hne)
      rw [precedes_irrefl] at hcycle
      exact Bool.noConfusion hcycle
    obtain ⟨since, rfl, hsince⟩ : ∃ since, before = (pass t₁ v).2 ++ since ∧
        (pass (s :: t₂) (pass t₁ v).1).2 = since ++ st :: after := by
      simp only [pass_append] at hsplit
      rcases List.append_eq_append_iff.1 hsplit with ⟨since, hbefore, hrest⟩ | ⟨more, hmore, hrest⟩
      · exact ⟨since, hbefore, hrest⟩
      · cases more with
        | nil => exact ⟨[], by simpa using hmore.symm, hrest.symm⟩
        | cons first more =>
          obtain ⟨rfl, -⟩ := List.cons.inj hrest
          exact absurd (by rw [hmore]; simp) hnot
    have ht₂ := ht.mono (List.subset_append_right t₁ (s :: t₂))
    obtain ⟨earlier, source, later, rfl, hturn, hrep, hall⟩ :=
      exists_source_of_turn ht₂ hlate hsince hne hin
    refine ⟨(pass t₁ v).2 ++ earlier, source, later, by simp, hturn, hrep, fun middle hmiddle => ?_⟩
    rcases List.mem_append.1 hmiddle with hmiddle | hmiddle
    · exact hall middle hmiddle
    · rwa [List.mem_singleton.1 hmiddle]
  · rintro ⟨earlier, source, later, -, -, -, hall⟩
    exact hall st (by simp)

/-! ## Constants that resolve -/

/-- A replacement that leaves no jam cuts no name. -/
theorem not_cuts_of_not_jammed (hsymbol : IsWord st.symbol) (hn : IsWord n)
    (hjam : ¬ Jammed (replaceAll st.symbol (group r) st.expression)) : ¬ Cuts st n := by
  rintro ⟨hstart, hne, u, w, he, -⟩
  obtain ⟨v, hv, hnv⟩ := (infix_iff_exists_word hn).1 ⟨u, w, he.symm⟩
  have hword := (segments_replaceAll hsymbol hjam).1 v hv (hstart.isInfix.trans hnv)
  rw [hword] at hnv
  exact hne (hstart.eq_of_length_le hnv.length_le)

theorem not_cuts_of_resolveConstant (ht : GroupsWords t) {limit : Nat} {c : Constant}
    {found : Resolution} (h : resolveConstant t limit c = .ok found)
    (hst : st ∈ found.trace) (hn : IsWord n) : ¬ Cuts st n := by
  obtain ⟨e, he, hvalue, htrace, -⟩ := resolveConstant_eq_ok_iff.1 h
  rw [← htrace] at hst
  obtain ⟨-, -, hsteps⟩ := rewrites_of_expand? he
  obtain ⟨z, hz, -⟩ := evaluate_eq_ok_iff.1 hvalue
  obtain ⟨s, hs, hname, -, -, hrewrites⟩ := hsteps st hst
  obtain ⟨hword, body, hbody⟩ := ht s hs
  have hjam := not_jammed_of_rewrites ht hrewrites (not_jammed_of_value? hz)
  rw [hbody, ← hname] at hjam
  exact not_cuts_of_not_jammed (hname ▸ hword) hn hjam

end Resolve

namespace Resolver

open Resolve

variable {cs : List Constant}

/-- The traces that a run stores show no cut. A pass over any constant of the run cuts a longer
name exactly where a replacement of the same pass has brought it in, at its turn or after it, and it
still stands. -/
theorem longest_first (r : Resolver) (cs : List Constant)
    (hnames : ∀ c ∈ cs, Identifier c.name) (hfresh : ∀ c ∈ cs, c.isResolved = false) :
    (∀ c ∈ (r.run cs).constants, c.isResolved = true →
      ∀ st ∈ c.trace, ∀ d ∈ cs, ¬ Cuts st d.name) ∧
    ∀ turn ∈ r.turns cs, ∀ k before st after,
      (pass turn.table (afterPasses turn.table k turn.constant.rawValue)).2 =
          before ++ st :: after →
      ∀ d ∈ cs, Cuts st d.name ↔ st.symbol <+: d.name ∧ st.symbol ≠ d.name ∧
        ∃ earlier source later, before = earlier ++ source :: later ∧
          (source.symbol = d.name ∨ source.symbol.precedes d.name = true) ∧
          d.name <:+: source.replacement ∧
          ∀ middle ∈ later ++ [st], d.name <:+: middle.expression := by
  have hplain : ∀ c ∈ cs, PlainName c.name := fun c hc => (hnames c hc).properName.plainName
  refine ⟨fun c hc hres st hst d hd => ?_, fun turn hturn k before st after hsplit d hd => ?_⟩
  · rcases turn_of_mem_constants hc with hold | ⟨turn, hturn, found, hfound, rfl⟩
    · rw [hfresh c hold] at hres
      exact Bool.noConfusion hres
    · have ht := enclosing_of_mem_turns hplain hturn
      have hwords : GroupsWords turn.table := by
        intro s hs
        have hname := List.mem_map_of_mem (f := Substitution.name) hs
        rw [table_of_mem_turns hturn, table_map_name, mem_order] at hname
        obtain ⟨c, hc, hname⟩ := List.mem_map.1 hname
        exact ⟨hname ▸ (hnames c hc).properName.1, (ht s hs).2⟩
      exact not_cuts_of_resolveConstant hwords hfound hst (hnames d hd).properName.1
  · have hnamesTable := table_of_mem_turns hturn
    have horder : Descending (turn.table.map Substitution.name) := by
      rw [hnamesTable, table_map_name]
      exact descending_order _
    have hname : d.name ∈ turn.table.map Substitution.name := by
      rw [hnamesTable, table_map_name, mem_order]
      exact List.mem_map_of_mem hd
    have ht := enclosing_of_mem_turns hplain hturn
    constructor
    · intro hcut
      exact ⟨hcut.1, hcut.2.1, (cuts_iff_brought ht horder hname hsplit hcut.1 hcut.2.1).1 hcut⟩
    · rintro ⟨hstart, hne, hbrought⟩
      exact (cuts_iff_brought ht horder hname hsplit hstart hne).2 hbrought

/-- `AB` is replaced before `A`, which starts it, where the text has it from the first; but in the
pass over `X` the text of `AA` brings it in after its turn, and `A` meets it and cuts it. -/
theorem longest_first_pair :
    let define (name value : String) : Constant := .define name value "" 0 ""
    let cs := [define "AB" "3", define "A" "2", define "AA" "AB + 1", define "X" "AA"]
    let r : Resolver := .new ⟨none, true⟩
    let turn : Turn := ⟨table cs, define "X" "AA"⟩
    let source : ResolutionStep := ⟨"AA", "AA", "(AB + 1)"⟩
    let st : ResolutionStep := ⟨"(AB + 1)", "A", "(2)"⟩
    (∀ c ∈ cs, Identifier c.name) ∧ (∀ c ∈ cs, c.isResolved = false) ∧
    (∃ c ∈ (r.run cs).constants, c.isResolved = true ∧ c.trace = [⟨"AB + 1", "AB", "(3)"⟩]) ∧
    (turn ∈ r.turns cs ∧ (pass turn.table turn.constant.rawValue).2 = [source, st] ∧
      Cuts st "AB") ∧
    (∀ c ∈ (r.run cs).constants, c.isResolved = true →
      ∀ st ∈ c.trace, ∀ d ∈ cs, ¬ Cuts st d.name) ∧
    ∀ turn ∈ r.turns cs, ∀ k before st after,
      (pass turn.table (afterPasses turn.table k turn.constant.rawValue)).2 =
          before ++ st :: after →
      ∀ d ∈ cs, Cuts st d.name ↔ st.symbol <+: d.name ∧ st.symbol ≠ d.name ∧
        ∃ earlier source later, before = earlier ++ source :: later ∧
          (source.symbol = d.name ∨ source.symbol.precedes d.name = true) ∧
          d.name <:+: source.replacement ∧
          ∀ middle ∈ later ++ [st], d.name <:+: middle.expression := by
  intro define cs r turn source st
  have hnames : ∀ c ∈ cs, Identifier c.name := by decide
  have hfresh : ∀ c ∈ cs, c.isResolved = false := by decide
  obtain ⟨hstored, hpasses⟩ := longest_first r cs hnames hfresh
  have hturn : turn ∈ r.turns cs := by decide +kernel
  have hpass : (pass turn.table turn.constant.rawValue).2 = [source, st] := by decide +kernel
  have hbrought : ("AB" : Text) <:+: source.replacement := ⟨"(", " + 1)", by decide⟩
  have hstands : ("AB" : Text) <:+: st.expression := ⟨"(", " + 1)", by decide⟩
  have hcuts : Cuts st "AB" := by
    refine (hpasses turn hturn 0 [source] st [] hpass (define "AB" "3") (by decide)).2
      ⟨by decide, by decide, [], source, [], rfl, .inr (by decide), hbrought, ?_⟩
    exact List.forall_mem_singleton.2 hstands
  refine ⟨hnames, hfresh, ?_, ⟨hturn, hpass, hcuts⟩, hstored, hpasses⟩
  decide +kernel

/-- A replacement brings `AB` in after its turn, and `A` cuts it in two. -/
theorem not_always_longest_first :
    ¬ ∀ (r : Resolver) (cs : List Constant), (∀ c ∈ cs, Identifier c.name) →
      (∀ c ∈ cs, c.isResolved = false) → ∀ turn ∈ r.turns cs,
        (resolveConstant turn.table (r.limit cs) turn.constant).toOption = none →
        ∀ k ≤ r.limit cs,
          ∀ st ∈ (pass turn.table (afterPasses turn.table k turn.constant.rawValue)).2,
            ∀ d ∈ cs, ¬ Cuts st d.name := by
  intro hclean
  let define (name value : String) : Constant := .define name value "" 0 ""
  let cs := [define "X" "AA", define "AA" "AB + 1", define "AB" "3", define "A" "2"]
  let r : Resolver := .new .standard
  let turn : Turn := ⟨table cs, define "X" "AA"⟩
  let st : ResolutionStep := ⟨"(AB + 1)", "A", "(2)"⟩
  have hturn : turn ∈ r.turns cs := by decide +kernel
  have hfails : (resolveConstant turn.table (r.limit cs) turn.constant).toOption = none := by
    decide +kernel
  have hst : st ∈ (pass turn.table (afterPasses turn.table 0 turn.constant.rawValue)).2 := by
    decide +kernel
  have hcuts : Cuts st "AB" := (cuts_iff (by decide) (by decide)).2 ⟨"(", " + 1)", by decide⟩
  exact hclean r cs (by decide) (by decide) turn hturn hfails 0 (Nat.zero_le _) st hst
    (define "AB" "3") (by decide) hcuts

end Resolver

end HeaderConstants
