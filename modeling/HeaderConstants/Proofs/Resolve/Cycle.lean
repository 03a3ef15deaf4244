import Mathlib.Data.Finset.Lattice.Fold
import HeaderConstants.Proofs.Resolve.PassLimit
import HeaderConstants.Proofs.Resolve.Soundness

/-!
# Reported cycles

A constant that is reported as cyclic comes with a chain of names. It starts from the constant and
goes on to the first name in each text, until a name comes again or a text has none. A text without
names is a dead end, and then no name of the chain comes twice, although the texts of other names
run in a circle: without one the passes would have settled.

* `Resolve.Leads`: names that lead from one text to the next;
* `Resolve.Walk`, `Resolve.exists_walk`: the chain that is reported;
* `Resolve.Walk.closes_iff`: when a name of it comes again;
* `Resolve.exists_settled_of_acc`: without a circle of names the passes settle;
* `Resolver.cyclic_chain`: the chains that runs report.
-/

namespace HeaderConstants
set_option autoImplicit false

open Text

namespace Resolve

variable {t t' : Table} {s : Substitution} {u x : Text} {seen names : List Text}

/-- Each name stands in the text of the one before it, the first in the text that is given. -/
inductive Leads (t : Table) : Text → List Text → Prop
  | stop (x : Text) : Leads t x []
  | next {x : Text} {names : List Text} (s : Substitution) (hs : s ∈ t) (hin : s.name <:+: x)
      (h : Leads t s.replacement names) : Leads t x (s.name :: names)

/-- The last name comes earlier as well. -/
def Closes (chain : List Text) : Prop := ∃ before name, chain = before ++ [name] ∧ name ∈ before

theorem closes_concat_iff {name : Text} : Closes (seen ++ [name]) ↔ name ∈ seen := by
  constructor
  · rintro ⟨before, name', hsplit, hin⟩
    obtain ⟨rfl, hlast⟩ := List.append_inj' hsplit rfl
    obtain rfl := List.singleton_inj.1 hlast
    exact hin
  · intro hin
    exact ⟨seen, name, rfl, hin⟩

theorem not_closes_of_nodup (h : names.Nodup) : ¬ Closes names := by
  rintro ⟨before, name, rfl, hin⟩
  have hcross := (List.nodup_append.1 h).2.2
  exact hcross name hin name (List.mem_singleton_self name) rfl

/-! ## Names that are still to come -/

/-- The number of names of the table that have not been seen. -/
def unseen (t : Table) (seen : List Text) : Nat :=
  ((t.map Substitution.name).toFinset \ seen.toFinset).card

theorem unseen_concat (hs : s ∈ t) (hnew : s.name ∉ seen) :
    unseen t (seen ++ [s.name]) < unseen t seen := by
  unfold unseen
  apply Finset.card_lt_card
  have hname : s.name ∈ t.map Substitution.name := List.mem_map_of_mem hs
  rw [Finset.ssubset_iff_of_subset]
  · refine ⟨s.name, ?_, ?_⟩
    · simp [hnew, hname]
    · simp
  · intro name
    simp only [Finset.mem_sdiff, List.mem_toFinset, List.mem_append, not_or]
    rintro ⟨hin, hseen, -⟩
    exact ⟨hin, hseen⟩

theorem unseen_lt (t : Table) (seen : List Text) : unseen t seen < t.length + 1 := by
  have hcard : unseen t seen ≤ (t.map Substitution.name).toFinset.card :=
    Finset.card_le_card Finset.sdiff_subset
  have hlength := (t.map Substitution.name).toFinset_card_le
  rw [List.length_map] at hlength
  omega

/-! ## The chain that is reported -/

/-- The names that are followed from the text on when some have been seen: up to a text without
names, or to a name that comes again. -/
inductive Walk (t : Table) : List Text → Text → List Text → Prop
  | deadEnd {seen : List Text} {x : Text} (hq : Quiet t x) : Walk t seen x []
  | again {seen : List Text} {x : Text} (s : Substitution) (hs : s ∈ t) (hin : s.name <:+: x)
      (hseen : s.name ∈ seen) : Walk t seen x [s.name]
  | next {seen names : List Text} {x : Text} (s : Substitution) (hs : s ∈ t) (hin : s.name <:+: x)
      (hnew : s.name ∉ seen) (h : Walk t (seen ++ [s.name]) s.replacement names) :
      Walk t seen x (s.name :: names)

theorem chainFrom_succ (t : Table) (fuel : Nat) (seen : List Text) (x : Text) :
    chainFrom t (fuel + 1) seen x = (t.find? fun s => occursIn s.name x).elim seen fun s =>
      if s.name ∈ seen then seen ++ [s.name]
      else chainFrom t fuel (seen ++ [s.name]) s.replacement := by
  conv_lhs => whnf
  cases t.find? fun s => occursIn s.name x <;> rfl

/-- With fuel for the names that are still to come, the chain ends by itself. -/
theorem exists_walk {fuel : Nat} (hfuel : unseen t seen < fuel) (x : Text) :
    ∃ names, chainFrom t fuel seen x = seen ++ names ∧ Walk t seen x names := by
  induction fuel generalizing seen x with
  | zero => exact absurd hfuel (Nat.not_lt_zero _)
  | succ fuel ih =>
    rw [chainFrom_succ]
    cases hfind : t.find? fun s => occursIn s.name x with
    | none =>
      have hq : Quiet t x := by
        intro s hs hin
        exact List.find?_eq_none.1 hfind s hs (occursIn_iff.2 hin)
      exact ⟨[], (List.append_nil seen).symm, .deadEnd hq⟩
    | some s =>
      have hs := List.mem_of_find?_eq_some hfind
      have hin : s.name <:+: x := by
        have hfound := List.find?_some hfind
        exact occursIn_iff.1 hfound
      rw [Option.elim_some]
      by_cases hold : s.name ∈ seen
      · rw [if_pos hold]
        exact ⟨[s.name], rfl, .again s hs hin hold⟩
      · have hless : unseen t (seen ++ [s.name]) < fuel := by
          have hfewer := unseen_concat hs hold
          omega
        obtain ⟨names, hchain, hwalk⟩ := ih hless s.replacement
        rw [if_neg hold]
        exact ⟨s.name :: names, by simp [hchain], .next s hs hin hold hwalk⟩

theorem exists_walk_referenceChain (t : Table) (c : Constant) :
    ∃ names, referenceChain t c = c.name :: names ∧ Walk t [c.name] c.rawValue names :=
  exists_walk (unseen_lt t [c.name]) c.rawValue

theorem Walk.leads (h : Walk t seen x names) : Leads t x names := by
  induction h with
  | deadEnd hq => exact .stop _
  | again s hs hin hseen => exact .next s hs hin (.stop _)
  | next s hs hin hnew h ih => exact .next s hs hin ih

theorem Walk.eq_nil_of_quiet (h : Walk t seen x names) (hq : Quiet t x) : names = [] := by
  cases h with
  | deadEnd => rfl
  | again s hs hin hseen => exact absurd hin (hq s hs)
  | next s hs hin hnew h => exact absurd hin (hq s hs)

/-- The chain closes unless it comes to a new name whose text is a dead end. -/
theorem Walk.closes_iff (hunique : (t.map Substitution.name).Nodup) (h : Walk t seen x names)
    (hseen : seen.Nodup) (hx : ¬ Quiet t x) :
    Closes (seen ++ names) ↔
      ∀ s ∈ t, s.name ∈ names → s.name ∉ seen → ¬ Quiet t s.replacement := by
  induction h with
  | deadEnd hq => exact absurd hq hx
  | again s hs hin hold =>
    refine iff_of_true (closes_concat_iff.2 hold) fun s' hs' hin' hnew => ?_
    rw [List.mem_singleton] at hin'
    exact absurd (hin' ▸ hold) hnew
  | @next seen names x s hs hin hnew h ih =>
    have hmore : (seen ++ [s.name]).Nodup := by
      rw [← List.concat_eq_append, List.nodup_concat]
      exact ⟨hnew, hseen⟩
    by_cases hq : Quiet t s.replacement
    · -- the text of the new name is a dead end, so no name comes twice
      rw [h.eq_nil_of_quiet hq]
      refine iff_of_false (not_closes_of_nodup hmore) fun hall => ?_
      exact hall s hs (List.mem_cons_self ..) hnew hq
    · have hsplit : seen ++ s.name :: names = seen ++ [s.name] ++ names := by simp
      rw [hsplit, ih hmore hq]
      constructor
      · intro hall s' hs' hin' hnew'
        by_cases hname : s'.name = s.name
        · rwa [List.inj_on_of_nodup_map hunique hs' hs hname]
        · have hrest : s'.name ∈ names := (List.mem_cons.1 hin').resolve_left hname
          exact hall s' hs' hrest (by simp [hnew', hname])
      · intro hall s' hs' hin' hnew'
        rw [List.mem_append, not_or] at hnew'
        exact hall s' hs' (List.mem_cons_of_mem _ hin') hnew'.1

/-! ## Circles of names -/

/-- The second text is what stands for a name in the first. -/
def Refers (t : Table) (x y : Text) : Prop := ∃ s ∈ t, s.name <:+: x ∧ y = s.replacement

/-- Every name in the text has a text that settles, in whichever part of a pass it is put in. -/
def SettlesThrough (t : Table) (x : Text) : Prop :=
  ∀ s ∈ t, s.name <:+: x → ∀ t' ⊆ t, ∃ k, Settled t k (pass t' s.replacement).1

theorem SettlesThrough.of_infix (h : SettlesThrough t x) (hu : u <:+: x) : SettlesThrough t u :=
  fun s hs hin => h s hs (hin.trans hu)

theorem SettlesThrough.exists_settled (ht : Enclosing t) (h : SettlesThrough t x) :
    ∃ k, Settled t k x := by
  obtain ⟨H, -, hin, hk⟩ := exists_hits ht x
  have hname : ∀ j : Fin t.length, ∃ k, j ∈ H → Settled t k (brought t j) := by
    intro j
    by_cases hj : j ∈ H
    · have hs : t[j] ∈ t := List.getElem_mem j.isLt
      obtain ⟨k, hsettled⟩ := h t[j] hs (hin j hj) (t.drop (j + 1)) (List.drop_subset ..)
      exact ⟨k, fun _ => hsettled⟩
    · exact ⟨0, fun hmem => absurd hmem hj⟩
  choose f hf using hname
  refine ⟨Finset.univ.sup f + 1, ?_⟩
  rw [hk]
  intro j hj
  exact (hf j hj).mono (Finset.le_sup (Finset.mem_univ j))

theorem SettlesThrough.exists_settled_pass (ht : Enclosing t) (hsub : t' ⊆ t)
    (h : SettlesThrough t x) : ∃ k, Settled t k (pass t' x).1 := by
  induction t' generalizing x with
  | nil => exact h.exists_settled ht
  | cons s t' ih =>
    have hs : s ∈ t := hsub (List.mem_cons_self ..)
    have hsub' : t' ⊆ t := fun _ hmem => hsub (List.mem_cons_of_mem s hmem)
    induction hn : x.length using Nat.strongRecOn generalizing x with
    | _ n shorter =>
      by_cases hin : s.name <:+: x
      · obtain ⟨u, w, he, -, hsplit⟩ := exists_settled_pass_cons ht hs hsub' hin
        have hu : u <:+: x := ⟨[], s.name ++ w, by simp [he]⟩
        have hw : w <:+: x := ⟨u ++ s.name, [], by simp [he]⟩
        have hlen : w.length < n := by
          have hpos := List.length_pos_of_ne_nil (ht s hs).1.1
          have htotal := congrArg List.length he
          simp only [List.length_append] at htotal
          omega
        obtain ⟨k₁, h₁⟩ := ih hsub' (h.of_infix hu)
        obtain ⟨k₂, h₂⟩ := h s hs hin t' hsub'
        obtain ⟨k₃, h₃⟩ := shorter w.length hlen (h.of_infix hw) rfl
        refine ⟨k₁ + k₂ + k₃, ?_⟩
        rw [hsplit]
        exact ⟨h₁.mono (by omega), h₂.mono (by omega), h₃.mono (by omega)⟩
      · rw [pass_cons_of_absent hin]
        exact ih hsub' h

/-- A text from which names lead on only so far settles. -/
theorem exists_settled_of_acc (ht : Enclosing t) (h : Acc (fun y x => Refers t x y) x) :
    ∃ k, Settled t k x := by
  have hpass : ∀ t' ⊆ t, ∃ k, Settled t k (pass t' x).1 := by
    induction h with
    | intro x _ ih =>
      have hx : SettlesThrough t x := fun s hs hin => ih s.replacement ⟨s, hs, hin, rfl⟩
      exact fun t' hsub => hx.exists_settled_pass ht hsub
  obtain ⟨k, hk⟩ := hpass t (List.Subset.refl t)
  exact ⟨k + 1, settled_succ_iff.2 hk⟩

theorem exists_not_acc (h : ¬ Acc (fun y x => Refers t x y) x) :
    ∃ s ∈ t, s.name <:+: x ∧ ¬ Acc (fun y x => Refers t x y) s.replacement := by
  by_contra hnone
  apply h
  constructor
  rintro y ⟨s, hs, hin, rfl⟩
  by_contra hy
  exact hnone ⟨s, hs, hin, hy⟩

/-- From a text from which names lead on for ever they lead in a circle. -/
theorem exists_closes_of_not_acc (h : ¬ Acc (fun y x => Refers t x y) x) (seen : List Text) :
    ∃ names, Leads t x names ∧ Closes (seen ++ names) := by
  induction hn : unseen t seen using Nat.strongRecOn generalizing seen x with
  | _ n fewer =>
    obtain ⟨s, hs, hin, hmore⟩ := exists_not_acc h
    by_cases hold : s.name ∈ seen
    · exact ⟨[s.name], .next s hs hin (.stop _), closes_concat_iff.2 hold⟩
    · have hless := unseen_concat hs hold
      obtain ⟨names, hleads, hcloses⟩ := fewer _ (hn ▸ hless) hmore (seen ++ [s.name]) rfl
      exact ⟨s.name :: names, .next s hs hin hleads, by simpa using hcloses⟩

/-- No two names stand in the text. -/
def SingleReference (t : Table) (x : Text) : Prop :=
  ∀ s ∈ t, ∀ s' ∈ t, s.name <:+: x → s'.name <:+: x → s' = s

/-- Where no text has two names, the chain follows the circle. -/
theorem Walk.closes_of_not_acc (hsingle : ∀ s ∈ t, SingleReference t s.replacement)
    (h : Walk t seen x names) (hx : SingleReference t x)
    (hacc : ¬ Acc (fun y x => Refers t x y) x) : Closes (seen ++ names) := by
  induction h with
  | deadEnd hq =>
    obtain ⟨s, hs, hin, -⟩ := exists_not_acc hacc
    exact absurd hin (hq s hs)
  | again s hs hin hold => exact closes_concat_iff.2 hold
  | next s hs hin hnew h ih =>
    obtain ⟨s', hs', hin', hmore⟩ := exists_not_acc hacc
    obtain rfl := hx s hs s' hs' hin hin'
    have hcloses := ih (hsingle s' hs) hmore
    simpa using hcloses

end Resolve

namespace Resolver

open Resolve

variable {cs : List Constant}

/-- Without a limit of the run, passes that settle do so in time. -/
theorem not_settled_of_expand? (r : Resolver) (hmax : r.config.maxPasses = none)
    (hnames : ∀ c ∈ cs, PlainName c.name) {turn : Turn} (hturn : turn ∈ r.turns cs)
    (h : expand? turn.table (r.limit cs) turn.constant.rawValue = none) (k : Nat) :
    ¬ Settled turn.table k turn.constant.rawValue := by
  intro hk
  have hlimit : r.limit cs = (table cs).length + 1 := by
    simp [Resolver.limit, ResolverConfig.passLimit, hmax]
  have hlength : turn.table.length = (table cs).length := by
    simpa using congrArg List.length (table_of_mem_turns hturn)
  have hsettled := settled_length (enclosing_of_mem_turns hnames hturn) hk
  exact expand?_eq_none_iff.1 h _ (by omega) hsettled

/-- The chain of a constant that is reported as cyclic starts with its name, and each further name
stands in the text of the one before it. Its last name comes earlier as well exactly if no name that
is not the constant's has a text without names; so it does where no text has two names. In any case
there are names that run in a circle. -/
theorem cyclic_chain (r : Resolver) (cs : List Constant) (hmax : r.config.maxPasses = none)
    (hnames : ∀ c ∈ cs, Identifier c.name) {origin : Origin} {chain : List Text}
    (h : (r.run cs).failure = some (.cyclic origin chain)) :
    ∃ turn ∈ r.turns cs,
      resolveConstant turn.table (r.limit cs) turn.constant = .error (.cyclic origin chain) ∧
      ∃ names, chain = turn.constant.name :: names ∧
        Leads turn.table turn.constant.rawValue names ∧
        (Closes chain ↔ ∀ s ∈ turn.table, s.name ∈ names → s.name ≠ turn.constant.name →
          ¬ Quiet turn.table s.replacement) ∧
        (SingleReference turn.table turn.constant.rawValue →
          (∀ s ∈ turn.table, SingleReference turn.table s.replacement) → Closes chain) ∧
        ∃ circle, Leads turn.table turn.constant.rawValue circle ∧ Closes circle := by
  have hplain : ∀ c ∈ cs, PlainName c.name := fun c hc => (hnames c hc).properName.plainName
  obtain ⟨turn, hturn, herror⟩ := exists_turn_of_failure h
  obtain ⟨hnone, -, rfl⟩ := resolveConstant_eq_cyclic_iff.1 herror
  have hnever := not_settled_of_expand? r hmax hplain hturn hnone
  have hquiet : ¬ Quiet turn.table turn.constant.rawValue := fun hq =>
    hnever 0 (settled_zero_iff.2 hq)
  have hacc : ¬ Acc (fun y x => Refers turn.table x y) turn.constant.rawValue := by
    intro hacc
    obtain ⟨k, hk⟩ := exists_settled_of_acc (enclosing_of_mem_turns hplain hturn) hacc
    exact hnever k hk
  have hunique : (turn.table.map Substitution.name).Nodup := by
    rw [table_of_mem_turns hturn, table_map_name]
    exact nodup_of_descending (descending_order _)
  obtain ⟨names, hchain, hwalk⟩ := exists_walk_referenceChain turn.table turn.constant
  have hcloses := hwalk.closes_iff hunique (List.nodup_singleton _) hquiet
  obtain ⟨circle, hleads, hcircle⟩ := exists_closes_of_not_acc hacc []
  refine ⟨turn, hturn, herror, names, hchain, hwalk.leads, ?_, ?_, circle, hleads, hcircle⟩
  · rw [hchain]
    simpa using hcloses
  · intro hx hsingle
    rw [hchain]
    exact hwalk.closes_of_not_acc hsingle hx hacc

/-- Two constants that refer to each other, behind one that is left alone. -/
theorem cyclic_chain_pair :
    let define (name value : String) : Constant := .define name value "" 0 ""
    let cs := [define "C" "1", define "A" "(B + 1)", define "B" "A"]
    let r : Resolver := .new ⟨none, true⟩
    let origin : Origin := ⟨"A", "", 0⟩
    let chain : List Text := ["A", "B", "A"]
    r.config.maxPasses = none ∧ (∀ c ∈ cs, Identifier c.name) ∧
    (r.run cs).failure = some (.cyclic origin chain) ∧
    ∃ turn ∈ r.turns cs,
      resolveConstant turn.table (r.limit cs) turn.constant = .error (.cyclic origin chain) ∧
      ∃ names, chain = turn.constant.name :: names ∧
        Leads turn.table turn.constant.rawValue names ∧
        (Closes chain ↔ ∀ s ∈ turn.table, s.name ∈ names → s.name ≠ turn.constant.name →
          ¬ Quiet turn.table s.replacement) ∧
        (SingleReference turn.table turn.constant.rawValue →
          (∀ s ∈ turn.table, SingleReference turn.table s.replacement) → Closes chain) ∧
        ∃ circle, Leads turn.table turn.constant.rawValue circle ∧ Closes circle := by
  intro define cs r origin chain
  have hnames : ∀ c ∈ cs, Identifier c.name := by decide
  have h : (r.run cs).failure = some (.cyclic origin chain) := by decide +kernel
  exact ⟨rfl, hnames, h, cyclic_chain r cs rfl hnames h⟩

/-- The first name in `A + B` is `B`, whose text is a number, while `A` refers to itself. -/
theorem not_always_closes :
    ¬ ∀ (r : Resolver) (cs : List Constant), r.config.maxPasses = none →
      (∀ c ∈ cs, Identifier c.name) → (∀ c ∈ cs, c.isResolved = false) →
      ∀ origin chain, (r.run cs).failure = some (.cyclic origin chain) →
        ∃ turn ∈ r.turns cs, ∃ names, origin = turn.constant.origin ∧
          chain = turn.constant.name :: names ∧
          Leads turn.table turn.constant.rawValue names ∧ Closes chain := by
  intro hcloses
  let define (name value : String) : Constant := .define name value "" 0 ""
  let cs := [define "X" "A + B", define "A" "A", define "B" "1"]
  let r : Resolver := .new .standard
  have h : (r.run cs).failure = some (.cyclic ⟨"X", "", 0⟩ ["X", "B"]) := by decide +kernel
  obtain ⟨-, -, -, -, -, -, hchain⟩ := hcloses r cs rfl (by decide) (by decide) _ _ h
  have hnodup : (["X", "B"] : List Text).Nodup := by decide
  exact not_closes_of_nodup hnodup hchain

end Resolver

end HeaderConstants
