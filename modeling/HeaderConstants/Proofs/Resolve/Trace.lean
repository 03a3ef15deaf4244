import HeaderConstants.Proofs.Resolve.Modes

/-!
# What a trace tells

The trace of a constant that a run resolves is a derivation of its value. It starts from the raw
text, each step replaces the last constant of a name as it was known when the turn of the constant
came, and the text that it ends in has no names left and evaluates to the value. This holds whether
or not a later constant fails.

* `Resolve.Derivation`: each step starts from the text that the one before it left;
* `Resolve.exists_derivation_of_resolveConstant`: one constant;
* `Resolver.knownAt`: the constants as they are known at a turn;
* `Resolver.trace_derives_value`: the traces of a run.
-/

namespace HeaderConstants
set_option autoImplicit false

open Text HeaderConstants.Expr

namespace Resolve

variable {cs : List Constant} {c : Constant} {t : Table} {limit : Nat} {v w x : Text}
  {steps steps' : List ResolutionStep}

/-- The steps lead from the first text to the last one: each starts from the text that the one
before it left, and replaces its symbol all over. -/
inductive Derivation : Text → List ResolutionStep → Text → Prop
  | done (v : Text) : Derivation v [] v
  | step (st : ResolutionStep) {steps : List ResolutionStep} {w : Text}
      (h : Derivation (replaceAll st.symbol st.replacement st.expression) steps w) :
      Derivation st.expression (st :: steps) w

theorem Derivation.append (h : Derivation v steps w) (h' : Derivation w steps' x) :
    Derivation v (steps ++ steps') x := by
  induction h with
  | done v => exact h'
  | step st h ih => exact .step st (ih h')

theorem derivation_pass (t : Table) (v : Text) : Derivation v (pass t v).2 (pass t v).1 := by
  induction t generalizing v with
  | nil => exact .done v
  | cons s t ih =>
    by_cases h : s.name <:+: v
    · rw [pass_cons_of_occurs h]
      exact .step ⟨v, s.name, s.replacement⟩ (ih _)
    · rw [pass_cons_of_absent h]
      exact ih v

theorem derivation_of_expand? {e : Expansion} (h : expand? t limit v = some e) :
    Derivation v e.steps e.text := by
  induction limit generalizing v e with
  | zero =>
    by_cases hq : Quiet t v
    · rw [expand?_of_quiet hq] at h
      exact Option.some.inj h ▸ .done v
    · rw [expand?_zero_of_not_quiet hq] at h
      exact absurd h (by simp)
  | succ limit ih =>
    by_cases hq : Quiet t v
    · rw [expand?_of_quiet hq] at h
      exact Option.some.inj h ▸ .done v
    · rw [expand?_succ_of_not_quiet hq, Option.map_eq_some_iff] at h
      obtain ⟨e, he, rfl⟩ := h
      exact (derivation_pass t v).append (ih he)

/-! ## One constant -/

/-- The step replaces a name that occurs by what the last constant of the name is known as. -/
def Justified (cs : List Constant) (st : ResolutionStep) : Prop :=
  st.symbol <:+: st.expression ∧
    ∃ body, Defines cs st.symbol body ∧ st.replacement = group body

theorem Quiet.absent_of_table (h : Quiet (table cs) v) {d : Constant} (hd : d ∈ cs) :
    ¬ d.name <:+: v := by
  have hname : d.name ∈ (table cs).map Substitution.name := by
    rw [table_map_name, mem_order]
    exact List.mem_map_of_mem hd
  obtain ⟨s, hs, hsname⟩ := List.mem_map.1 hname
  exact hsname ▸ h s hs

theorem exists_derivation_of_resolveConstant {found : Resolution}
    (h : resolveConstant (table cs) limit c = .ok found) :
    ∃ w, Derivation c.rawValue found.trace w ∧ (∀ st ∈ found.trace, Justified cs st) ∧
      (∀ d ∈ cs, ¬ d.name <:+: w) ∧ evaluate w = .ok found.value := by
  obtain ⟨e, he, hv, htrace, -⟩ := resolveConstant_eq_ok_iff.1 h
  obtain ⟨-, hquiet, hsteps⟩ := rewrites_of_expand? he
  rw [← htrace]
  refine ⟨e.text, derivation_of_expand? he, fun st hst => ?_,
    fun d hd => hquiet.absent_of_table hd, hv⟩
  obtain ⟨s, hs, hname, hrep, hin, -⟩ := hsteps st hst
  rw [Justified, hname, hrep]
  exact ⟨hin, defines_of_mem_table hs⟩

end Resolve

namespace Resolver

open Resolve

variable {keepUp : Bool} {cs done rest more : List Constant} {c c' d : Constant} {i limit : Nat}
  {stats : ResolutionStats}

/-- The constants as they are known when `done` are behind and `rest` are to come: as they are by
then where the tables keep up, and as they were at first where they do not. -/
def known (keepUp : Bool) (cs done rest : List Constant) : List Constant :=
  if keepUp then done ++ rest else cs

theorem known_cons : known keepUp cs done (d :: more) = known keepUp cs (done ++ [d]) more := by
  simp [known]

theorem tableAfter_known (c' : Constant) (hname : c'.name = d.name) :
    tableAfter keepUp (table (known keepUp cs done (d :: more))) c' more =
      table (known keepUp cs (done ++ [c']) more) := by
  cases keepUp with
  | false => rfl
  | true =>
    rw [known, if_pos rfl, tableAfter_table c' hname, known, if_pos rfl, List.append_assoc]
    rfl

/-- A constant that a run resolves is resolved against the table of the constants as they are known
at its turn. -/
theorem resolveConstant_of_getElem? (hc : rest[i]? = some c) (hopen : c.isResolved = false)
    (hc' : (runFrom keepUp limit (table (known keepUp cs done rest)) stats rest).constants[i]? =
      some c') (hdone : c'.isResolved = true) :
    ∃ found, c' = c.resolve found.value found.trace ∧
      resolveConstant (table (known keepUp cs (done ++ (runFrom keepUp limit
        (table (known keepUp cs done rest)) stats rest).constants.take i) (rest.drop i))) limit c =
          .ok found := by
  induction rest generalizing i done stats with
  | nil => simp at hc
  | cons d more ih =>
    cases hres : d.isResolved with
    | true =>
      rw [runFrom_of_isResolved hres, known_cons] at hc' ⊢
      cases i with
      | zero =>
        obtain rfl := Option.some.inj hc
        exact absurd (hres.symm.trans hopen) (by simp)
      | succ i =>
        obtain ⟨found, hfound, htable⟩ := ih hc hc'
        refine ⟨found, hfound, ?_⟩
        rwa [List.append_assoc] at htable
    | false =>
      cases hr : resolveConstant (table (known keepUp cs done (d :: more))) limit d with
      | error e =>
        rw [runFrom_of_error hres hr, hc] at hc'
        obtain rfl := Option.some.inj hc'
        exact absurd (hopen.symm.trans hdone) (by simp)
      | ok found =>
        have hname : (d.resolve found.value found.trace).name = d.name := rfl
        rw [runFrom_of_ok hres hr, tableAfter_known _ hname] at hc' ⊢
        cases i with
        | zero =>
          obtain rfl := Option.some.inj hc
          obtain rfl := Option.some.inj hc'
          refine ⟨found, rfl, ?_⟩
          rwa [List.take_zero, List.append_nil]
        | succ i =>
          obtain ⟨found', hfound, htable⟩ := ih hc hc'
          refine ⟨found', hfound, ?_⟩
          rwa [List.append_assoc] at htable

/-- The constants as they are known when the turn of the one at the position comes. -/
def knownAt (r : Resolver) (cs : List Constant) (i : Nat) : List Constant :=
  if r.config.parallel then cs else (r.run cs).constants.take i ++ cs.drop i

theorem known_eq_knownAt (r : Resolver) (cs : List Constant) (i : Nat) :
    known (!r.config.parallel) cs ((r.run cs).constants.take i) (cs.drop i) = r.knownAt cs i := by
  rw [known, knownAt]
  cases r.config.parallel <;> rfl

theorem map_name_knownAt (r : Resolver) (cs : List Constant) (i : Nat) :
    (r.knownAt cs i).map Constant.name = cs.map Constant.name := by
  rw [knownAt]
  split
  · rfl
  · rw [List.map_append, List.map_take, map_name_run, ← List.map_take, ← List.map_append,
      List.take_append_drop]

/-- The trace of a constant that a run resolves is a derivation of its value from its raw text, in
which each step replaces a name of the list by what the last constant of the name is known as. -/
theorem trace_derives_value (r : Resolver) (hc : cs[i]? = some c) (hopen : c.isResolved = false)
    (hc' : (r.run cs).constants[i]? = some c') (hdone : c'.isResolved = true) :
    ∃ w v, Derivation c.rawValue c'.trace w ∧
      (∀ st ∈ c'.trace, st.symbol <:+: st.expression ∧ (∃ d ∈ cs, d.name = st.symbol) ∧
        ∃ body, Defines (r.knownAt cs i) st.symbol body ∧ st.replacement = group body) ∧
      (∀ d ∈ cs, ¬ d.name <:+: w) ∧ c'.resolvedValue = some v ∧ evaluate w = .ok v := by
  have hstart : known (!r.config.parallel) cs [] cs = cs := by simp [known]
  have hrun : r.run cs = runFrom (!r.config.parallel) (r.limit cs)
      (table (known (!r.config.parallel) cs [] cs)) r.stats cs := by
    rw [hstart]
    rfl
  rw [hrun] at hc'
  obtain ⟨found, rfl, hfound⟩ := resolveConstant_of_getElem? hc hopen hc' hdone
  rw [← hrun, List.nil_append, known_eq_knownAt] at hfound
  obtain ⟨w, hw, hsteps, habsent, hv⟩ := exists_derivation_of_resolveConstant hfound
  have hnames {name : Text} :
      (∃ d ∈ r.knownAt cs i, d.name = name) ↔ ∃ d ∈ cs, d.name = name := by
    rw [← List.mem_map, map_name_knownAt, List.mem_map]
  refine ⟨w, found.value, hw, fun st hst => ?_, fun d hd hin => ?_, rfl, hv⟩
  · obtain ⟨hin, body, hbody, hrep⟩ := hsteps st hst
    obtain ⟨d, hd, hname, -⟩ := hbody.exists_constant
    exact ⟨hin, hnames.1 ⟨d, hd, hname⟩, body, hbody, hrep⟩
  · obtain ⟨d', hd', hname⟩ := hnames.2 ⟨d, hd, rfl⟩
    exact habsent d' hd' (hname ▸ hin)

/-- The second of three constants, of which the third has no value. -/
theorem trace_derives_value_second :
    let define (name value : String) : Constant := .define name value "" 0 ""
    let cs := [define "A" "1", define "B" "A + 2", define "C" "?"]
    let r : Resolver := .new .standard
    let c' := (define "B" "A + 2").resolve 3 [⟨"A + 2", "A", "(0x00000001)"⟩]
    (r.run cs).failure.isSome = true ∧ (r.run cs).constants[1]? = some c' ∧
    ∃ w v, Derivation "A + 2" c'.trace w ∧
      (∀ st ∈ c'.trace, st.symbol <:+: st.expression ∧ (∃ d ∈ cs, d.name = st.symbol) ∧
        ∃ body, Defines (r.knownAt cs 1) st.symbol body ∧ st.replacement = group body) ∧
      (∀ d ∈ cs, ¬ d.name <:+: w) ∧ c'.resolvedValue = some v ∧ evaluate w = .ok v := by
  intro define cs r c'
  have hc : cs[1]? = some (define "B" "A + 2") := rfl
  have hc' : (r.run cs).constants[1]? = some c' := by decide +kernel
  exact ⟨by decide +kernel, hc', trace_derives_value r hc rfl hc' rfl⟩

end Resolver

end HeaderConstants
