import HeaderConstants.Proofs.Resolve.Progress

/-!
# Histories

A list of constants is resolved again and again, by resolvers that come and go, while constants are
added to it and removed from it. Each constant has a number, so that it can be told from others of
its name. Whatever happens, a constant that has a value keeps it until it is removed.

* `History.Step.apply`, `History.State.after`: one step and several;
* `History.Settled`, `History.Settled.after`: a constant that no step changes any more;
* `History.write_once`: values are given once.
-/

namespace HeaderConstants
set_option autoImplicit false

namespace History

structure Entry where
  number : Nat
  constant : Constant
  deriving DecidableEq, Repr

structure State where
  resolver : Resolver
  entries : List Entry
  /-- The number of the constant that is added next. -/
  next : Nat
  deriving DecidableEq, Repr

inductive Step where
  | resolve
  | append (c : Constant)
  | remove (name : Text)
  | replace (r : Resolver)
  deriving DecidableEq, Repr

namespace State

def constants (s : State) : List Constant := s.entries.map Entry.constant

def start (r : Resolver) (cs : List Constant) : State :=
  ⟨r, cs.zipIdx.map fun p => ⟨p.2, p.1⟩, cs.length⟩

/-- What a run over the constants comes to. -/
def outcome (s : State) : ResolverRun := s.resolver.run s.constants

end State

def Step.apply (s : State) : Step → State
  | resolve =>
    ⟨⟨s.resolver.config, s.outcome.stats⟩,
      (s.entries.zip s.outcome.constants).map fun p => ⟨p.1.number, p.2⟩, s.next⟩
  | append c => ⟨s.resolver, s.entries ++ [⟨s.next, c⟩], s.next + 1⟩
  | remove name => ⟨s.resolver, s.entries.filter fun e => e.constant.name ≠ name, s.next⟩
  | replace r => ⟨r, s.entries, s.next⟩

def State.after (s : State) (steps : List Step) : State := steps.foldl Step.apply s

variable {s : State} {e e' : Entry} {step : Step} {steps : List Step} {name : Text}

/-! ## Numbers -/

/-- Every constant has a number of its own, and the next number is free. -/
structure Numbered (s : State) : Prop where
  nodup : (s.entries.map Entry.number).Nodup
  lt_next : ∀ e ∈ s.entries, e.number < s.next

theorem Numbered.eq_of_number_eq (h : Numbered s) (he : e ∈ s.entries) (he' : e' ∈ s.entries)
    (hnumber : e'.number = e.number) : e' = e :=
  List.inj_on_of_nodup_map h.nodup he' he hnumber

theorem numbered_start (r : Resolver) (cs : List Constant) : Numbered (State.start r cs) := by
  have hnumbers : (State.start r cs).entries.map Entry.number = List.range' 0 cs.length := by
    rw [State.start, List.map_map]
    exact List.zipIdx_map_snd 0 cs
  refine ⟨hnumbers ▸ List.nodup_range', fun e he => ?_⟩
  have hmem : e.number ∈ List.range' 0 cs.length := hnumbers ▸ List.mem_map_of_mem he
  rw [List.mem_range'_1] at hmem
  have hnext : (State.start r cs).next = cs.length := rfl
  omega

theorem length_outcome (s : State) : s.outcome.constants.length = s.entries.length := by
  have hlength := (Resolver.keeps_run s.resolver s.constants).length_eq
  rw [State.outcome, ← hlength, State.constants, List.length_map]

/-- A run leaves the numbers where they are. -/
theorem numbers_resolve (s : State) :
    (Step.resolve.apply s).entries.map Entry.number = s.entries.map Entry.number := by
  have hfst : (s.entries.zip s.outcome.constants).map Prod.fst = s.entries :=
    List.map_fst_zip (length_outcome s).ge
  rw [Step.apply, List.map_map]
  calc
    _ = ((s.entries.zip s.outcome.constants).map Prod.fst).map Entry.number := by
      rw [List.map_map]
      rfl
    _ = s.entries.map Entry.number := by rw [hfst]

theorem constants_resolve (s : State) :
    (Step.resolve.apply s).constants = s.outcome.constants := by
  have hsnd : (s.entries.zip s.outcome.constants).map Prod.snd = s.outcome.constants :=
    List.map_snd_zip (length_outcome s).le
  rw [State.constants, Step.apply, List.map_map]
  exact hsnd

theorem Numbered.apply (h : Numbered s) (step : Step) : Numbered (step.apply s) := by
  cases step with
  | resolve =>
    refine ⟨numbers_resolve s ▸ h.nodup, fun e he => ?_⟩
    have hnumber : e.number ∈ s.entries.map Entry.number :=
      numbers_resolve s ▸ List.mem_map_of_mem he
    obtain ⟨e', he', hsame⟩ := List.mem_map.1 hnumber
    exact hsame ▸ h.lt_next e' he'
  | append c =>
    have hfresh : s.next ∉ s.entries.map Entry.number := by
      intro hmem
      obtain ⟨e, he, hnumber⟩ := List.mem_map.1 hmem
      have hlt := h.lt_next e he
      omega
    refine ⟨?_, fun e he => ?_⟩
    · rw [Step.apply, List.map_append]
      exact List.nodup_append_comm.1 (List.nodup_cons.2 ⟨hfresh, h.nodup⟩)
    · rcases List.mem_append.1 he with he | he
      · exact Nat.lt_succ_of_lt (h.lt_next e he)
      · rw [List.mem_singleton.1 he]
        exact Nat.lt_succ_self s.next
  | remove name =>
    refine ⟨h.nodup.sublist (List.filter_sublist.map Entry.number), fun e he => ?_⟩
    exact h.lt_next e (List.mem_of_mem_filter he)
  | replace r => exact ⟨h.nodup, h.lt_next⟩

theorem Numbered.after (h : Numbered s) (steps : List Step) : Numbered (s.after steps) := by
  induction steps generalizing s with
  | nil => exact h
  | cons step more ih => exact ih (h.apply step)

/-! ## What does not change -/

/-- The number belongs to this constant alone, and it has its value. -/
structure Settled (e : Entry) (s : State) : Prop where
  isResolved : e.constant.isResolved = true
  alone : ∀ e' ∈ s.entries, e'.number = e.number → e' = e
  lt_next : e.number < s.next

theorem Numbered.settled (h : Numbered s) (he : e ∈ s.entries)
    (hres : e.constant.isResolved = true) : Settled e s :=
  ⟨hres, fun _ he' hnumber => h.eq_of_number_eq he he' hnumber, h.lt_next e he⟩

/-- A run keeps the number of a constant, and its value if it has one. -/
theorem exists_of_mem_resolve (he : e ∈ (Step.resolve.apply s).entries) :
    ∃ e' ∈ s.entries, e'.number = e.number ∧ (e'.constant.isResolved = true → e = e') := by
  obtain ⟨⟨e', c⟩, hp, rfl⟩ := List.mem_map.1 he
  have hkeeps : List.Forall₂ (fun e c => e.constant.Keeps c) s.entries s.outcome.constants :=
    List.forall₂_map_left_iff.1 (Resolver.keeps_run s.resolver s.constants)
  have hkept : e'.constant.Keeps c := List.forall₂_zip hkeeps hp
  refine ⟨e', (List.of_mem_zip hp).1, rfl, fun hres => ?_⟩
  rw [hkept.2 hres]

theorem Settled.apply (h : Settled e s) (step : Step) : Settled e (step.apply s) := by
  cases step with
  | resolve =>
    refine ⟨h.isResolved, fun e' he' hnumber => ?_, h.lt_next⟩
    obtain ⟨e'', he'', hsame, hkept⟩ := exists_of_mem_resolve he'
    obtain rfl := h.alone e'' he'' (hsame.trans hnumber)
    exact hkept h.isResolved
  | append c =>
    -- the new number is free, so it is not that of `e`, also where `e` is long gone
    refine ⟨h.isResolved, fun e' he' hnumber => ?_, Nat.lt_succ_of_lt h.lt_next⟩
    rcases List.mem_append.1 he' with he' | he'
    · exact h.alone e' he' hnumber
    · rw [List.mem_singleton.1 he'] at hnumber
      exact absurd hnumber h.lt_next.ne'
  | remove name =>
    exact ⟨h.isResolved, fun e' he' => h.alone e' (List.mem_of_mem_filter he'), h.lt_next⟩
  | replace r => exact ⟨h.isResolved, h.alone, h.lt_next⟩

theorem Settled.after (h : Settled e s) (steps : List Step) : Settled e (s.after steps) := by
  induction steps generalizing s with
  | nil => exact h
  | cons step more ih => exact ih (h.apply step)

theorem Settled.mem_apply (h : Settled e s) (he : e ∈ s.entries)
    (hstep : step ≠ .remove e.constant.name) : e ∈ (step.apply s).entries := by
  cases step with
  | resolve =>
    have hnumber : e.number ∈ (Step.resolve.apply s).entries.map Entry.number := by
      rw [numbers_resolve]
      exact List.mem_map_of_mem he
    obtain ⟨e', he', hsame⟩ := List.mem_map.1 hnumber
    exact (h.apply .resolve).alone e' he' hsame ▸ he'
  | append c => exact List.mem_append_left _ he
  | remove name =>
    have hname : e.constant.name ≠ name := fun hname => hstep (hname ▸ rfl)
    exact List.mem_filter.2 ⟨he, decide_eq_true hname⟩
  | replace r => exact he

theorem Settled.mem_after (h : Settled e s) (he : e ∈ s.entries)
    (hsteps : .remove e.constant.name ∉ steps) : e ∈ (s.after steps).entries := by
  induction steps generalizing s with
  | nil => exact he
  | cons step more ih =>
    rw [List.mem_cons, not_or] at hsteps
    obtain ⟨hstep, hmore⟩ := hsteps
    exact ih (h.apply step) (h.mem_apply he (Ne.symm hstep)) hmore

/-! ## Runs with nothing left to do -/

theorem after_replace (s : State) (rs : List Resolver) :
    (s.after (rs.map .replace)).entries = s.entries := by
  induction rs generalizing s with
  | nil => rfl
  | cons r more ih => exact ih (Step.apply s (.replace r))

/-- A constant that has a value keeps it, with its trace, through every history, until it is
removed. After a run that succeeds, another one has nothing to do, whichever resolver it is by. -/
theorem write_once (r : Resolver) (cs : List Constant) (before : List Step) :
    let s := (State.start r cs).after before
    (∀ e ∈ s.entries, e.constant.isResolved = true → ∀ later,
      (∀ e' ∈ (s.after later).entries, e'.number = e.number → e' = e) ∧
      (.remove e.constant.name ∉ later → e ∈ (s.after later).entries)) ∧
    (s.outcome.failure = none → ∀ rs : List Resolver,
      let s' := (Step.resolve.apply s).after (rs.map .replace)
      s'.outcome = ⟨s'.constants, s'.resolver.stats, none⟩) := by
  intro s
  refine ⟨fun e he hres later => ?_, fun hrun rs => ?_⟩
  · have hnumbered : Numbered s := (numbered_start r cs).after before
    have hsettled := hnumbered.settled he hres
    exact ⟨(hsettled.after later).alone, hsettled.mem_after he⟩
  · refine Resolver.run_of_forall_isResolved _ fun c hc => ?_
    rw [State.constants, after_replace] at hc
    have hmem : c ∈ s.outcome.constants := constants_resolve s ▸ hc
    exact Resolver.isResolved_of_run hrun hmem

/-- A run that fails for want of `D` gives `A` its value; `B` is then defined anew, and the next
run, by a snapshot resolver, succeeds. -/
theorem write_once_redefined :
    let define (name value : String) : Constant := .define name value "" 0 ""
    let resolver : Resolver := .new .standard
    let cs := [define "A" "B + 1", define "B" "2", define "C" "A + D"]
    let later : List Step := [.remove "B", .append (define "B" "9"),
      .replace (.new ⟨some 7, true⟩), .append (define "D" "5"), .resolve]
    let a : Entry := ⟨0, (define "A" "B + 1").resolve 3 [⟨"B + 1", "B", "(2)"⟩]⟩
    ((State.start resolver cs).after [.resolve]).outcome.failure ≠ none ∧
      a ∈ (((State.start resolver cs).after [.resolve]).after later).entries ∧
      ∀ rs : List Resolver,
        let s := (Step.resolve.apply ((State.start resolver cs).after (.resolve :: later))).after
          (rs.map .replace)
        s.outcome = ⟨s.constants, s.resolver.stats, none⟩ := by
  intro define resolver cs later a
  have ha : a ∈ ((State.start resolver cs).after [.resolve]).entries := by decide +kernel
  have hb : Step.remove a.constant.name ∉ later := by decide +kernel
  have hrun : ((State.start resolver cs).after (.resolve :: later)).outcome.failure = none := by
    decide +kernel
  refine ⟨by decide +kernel, ?_, ?_⟩
  · exact ((write_once resolver cs [.resolve]).1 a ha rfl later).2 hb
  · exact (write_once resolver cs (.resolve :: later)).2 hrun

end History

end HeaderConstants
