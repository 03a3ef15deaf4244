import HeaderConstants.Proofs.Text.Search
import HeaderConstants.Resolve.Resolver

/-!
# Passes

What a pass does to a text and what repeated passes lead to. A character that no name holds cuts
the text into parts that all passes treat apart.

* `Resolve.afterPasses`, `Resolve.Settled`: passes without a limit, and the end of their changes;
* `Resolve.Rewrites`, `Resolve.Replaces`: one replacement after another, and one step of them;
* `Resolve.pass_append_cons`, `Resolve.settled_append_cons`: passes on the two sides of a separator;
* `Resolve.expand?_eq_none_iff`, `Resolve.rewrites_of_expand?`: what the limited passes find;
* `Resolve.PassCount`: how many passes change a text.
-/

namespace HeaderConstants.Resolve
set_option autoImplicit false

open Text

variable {t : Table} {u v w : Text} {c : Char}

/-- No name of the table occurs in the text. -/
def Quiet (t : Table) (v : Text) : Prop := ∀ s ∈ t, ¬ s.name <:+: v

/-- No name of the table is empty or holds the character. -/
def Separates (t : Table) (c : Char) : Prop := ∀ s ∈ t, s.name ≠ [] ∧ c ∉ s.name

/-- The text after so many passes, whether they change something or not. -/
def afterPasses (t : Table) : Nat → Text → Text
  | 0, v => v
  | k + 1, v => afterPasses t k (pass t v).1

/-- The pass that follows so many passes changes nothing. -/
def Settled (t : Table) (k : Nat) (v : Text) : Prop := (pass t (afterPasses t k v)).2 = []

instance (t : Table) (k : Nat) (v : Text) : Decidable (Settled t k v) :=
  inferInstanceAs (Decidable (_ = _))

/-! ## One pass -/

theorem pass_cons_of_occurs {s : Substitution} (h : s.name <:+: v) :
    pass (s :: t) v = ((pass t (replaceAll s.name s.replacement v)).1,
      ⟨v, s.name, s.replacement⟩ :: (pass t (replaceAll s.name s.replacement v)).2) := by
  rw [pass, if_pos (occursIn_iff.2 h)]

theorem pass_cons_of_absent {s : Substitution} (h : ¬ s.name <:+: v) :
    pass (s :: t) v = pass t v := by
  rw [pass, if_neg (by rwa [occursIn_iff])]

theorem pass_steps_eq_nil_iff : (pass t v).2 = [] ↔ Quiet t v := by
  induction t with
  | nil => simp [pass, Quiet]
  | cons s t ih =>
    by_cases h : s.name <:+: v
    · simp [pass_cons_of_occurs h, Quiet, h]
    · rw [pass_cons_of_absent h, ih]
      simp [Quiet, h]

theorem pass_of_quiet (h : Quiet t v) : pass t v = (v, []) := by
  induction t with
  | nil => rfl
  | cons s t ih =>
    rw [pass_cons_of_absent (h s (List.mem_cons_self ..))]
    exact ih fun s' hs' => h s' (List.mem_cons_of_mem s hs')

/-- A name that does not occur is replaced without effect, so a pass is all replacements in turn. -/
theorem pass_cons {s : Substitution} (hs : s.name ≠ []) :
    (pass (s :: t) v).1 = (pass t (replaceAll s.name s.replacement v)).1 := by
  by_cases h : s.name <:+: v
  · rw [pass_cons_of_occurs h]
  · rw [pass_cons_of_absent h, replaceAll_of_absent hs h]

/-! ## Separators -/

theorem Separates.tail {s : Substitution} (h : Separates (s :: t) c) : Separates t c :=
  fun s' hs' => h s' (List.mem_cons_of_mem s hs')

theorem quiet_append_cons (h : Separates t c) :
    Quiet t (u ++ c :: w) ↔ Quiet t u ∧ Quiet t w := by
  constructor
  · intro hq
    refine ⟨fun s hs hu => hq s hs ?_, fun s hs hw => hq s hs ?_⟩
    · exact (infix_append_cons_iff (h s hs).1 (h s hs).2).2 (.inl hu)
    · exact (infix_append_cons_iff (h s hs).1 (h s hs).2).2 (.inr hw)
  · rintro ⟨hu, hw⟩ s hs hi
    rcases (infix_append_cons_iff (h s hs).1 (h s hs).2).1 hi with hi | hi
    · exact hu s hs hi
    · exact hw s hs hi

theorem pass_append_cons (h : Separates t c) :
    (pass t (u ++ c :: w)).1 = (pass t u).1 ++ c :: (pass t w).1 := by
  induction t generalizing u w with
  | nil => rfl
  | cons s t ih =>
    have hs := h s (List.mem_cons_self ..)
    rw [pass_cons hs.1, pass_cons hs.1, pass_cons hs.1, replaceAll_append_cons hs.1 hs.2,
      ih h.tail]

theorem afterPasses_append_cons (h : Separates t c) (k : Nat) :
    afterPasses t k (u ++ c :: w) = afterPasses t k u ++ c :: afterPasses t k w := by
  induction k generalizing u w with
  | zero => rfl
  | succ k ih => simp only [afterPasses, pass_append_cons h, ih]

/-! ## Repeated passes -/

theorem settled_iff_quiet {k : Nat} : Settled t k v ↔ Quiet t (afterPasses t k v) :=
  pass_steps_eq_nil_iff

theorem settled_zero_iff : Settled t 0 v ↔ Quiet t v := settled_iff_quiet

theorem settled_succ_iff {k : Nat} : Settled t (k + 1) v ↔ Settled t k (pass t v).1 := Iff.rfl

theorem settled_append_cons (h : Separates t c) (k : Nat) :
    Settled t k (u ++ c :: w) ↔ Settled t k u ∧ Settled t k w := by
  simp only [settled_iff_quiet, afterPasses_append_cons h, quiet_append_cons h]

theorem Settled.succ {k : Nat} (h : Settled t k v) : Settled t (k + 1) v := by
  induction k generalizing v with
  | zero => rwa [settled_succ_iff, pass_of_quiet (settled_zero_iff.1 h)]
  | succ k ih => exact ih h

theorem Settled.mono {k m : Nat} (h : Settled t k v) (hkm : k ≤ m) : Settled t m v := by
  induction hkm with
  | refl => exact h
  | step _ ih => exact ih.succ

theorem settled_nil (hne : ∀ s ∈ t, s.name ≠ []) (k : Nat) : Settled t k [] := by
  have hq : Quiet t [] := fun s hs h => hne s hs (List.infix_nil.1 h)
  exact (settled_zero_iff.2 hq).mono (Nat.zero_le k)

/-! ## Passes within a limit -/

theorem expand?_of_quiet (h : Quiet t v) (limit : Nat) : expand? t limit v = some ⟨v, [], 0⟩ := by
  rw [expand?, pass_of_quiet h]

theorem expand?_zero_of_not_quiet (h : ¬ Quiet t v) : expand? t 0 v = none := by
  have hs : (pass t v).2 ≠ [] := fun e => h (pass_steps_eq_nil_iff.1 e)
  rw [expand?]
  split
  · next heq => exact absurd (congrArg Prod.snd heq) hs
  · rfl

theorem expand?_succ_of_not_quiet (h : ¬ Quiet t v) (limit : Nat) :
    expand? t (limit + 1) v = (expand? t limit (pass t v).1).map fun e =>
      ⟨e.text, (pass t v).2 ++ e.steps, e.passes + 1⟩ := by
  have hs : (pass t v).2 ≠ [] := fun e => h (pass_steps_eq_nil_iff.1 e)
  rw [expand?]
  split
  · next heq => exact absurd (congrArg Prod.snd heq) hs
  · next heq => simp only [heq]

theorem expand?_eq_none_iff {limit : Nat} :
    expand? t limit v = none ↔ ∀ k ≤ limit, ¬ Settled t k v := by
  induction limit generalizing v with
  | zero =>
    by_cases hq : Quiet t v
    · simp [expand?_of_quiet hq, settled_zero_iff, hq]
    · simp [expand?_zero_of_not_quiet hq, settled_zero_iff, hq]
  | succ limit ih =>
    by_cases hq : Quiet t v
    · simp only [expand?_of_quiet hq, reduceCtorEq, false_iff]
      exact fun h => h 0 (Nat.zero_le _) (settled_zero_iff.2 hq)
    · rw [expand?_succ_of_not_quiet hq, Option.map_eq_none_iff, ih]
      constructor
      · intro h k hk
        cases k with
        | zero => rwa [settled_zero_iff]
        | succ k => exact h k (by omega)
      · intro h k hk
        exact h (k + 1) (by omega)

/-- A limit that lets the passes settle can be raised without effect. -/
theorem expand?_eq_of_settled {n m : Nat} (h : Settled t n v) (hnm : n ≤ m) :
    expand? t m v = expand? t n v := by
  induction n generalizing v m with
  | zero =>
    have hq := settled_zero_iff.1 h
    rw [expand?_of_quiet hq, expand?_of_quiet hq]
  | succ n ih =>
    by_cases hq : Quiet t v
    · rw [expand?_of_quiet hq, expand?_of_quiet hq]
    · obtain ⟨m, rfl⟩ : ∃ m', m = m' + 1 := ⟨m - 1, by omega⟩
      rw [expand?_succ_of_not_quiet hq, expand?_succ_of_not_quiet hq, ih h (by omega)]

/-- So many passes change the text, and no more do. -/
def PassCount (t : Table) (v : Text) (k : Nat) : Prop := Settled t k v ∧ ∀ j < k, ¬ Settled t j v

theorem passCount_of_expand? {limit : Nat} {e : Expansion} (h : expand? t limit v = some e) :
    PassCount t v e.passes ∧ e.passes ≤ limit := by
  induction limit generalizing v e with
  | zero =>
    by_cases hq : Quiet t v
    · rw [expand?_of_quiet hq] at h
      obtain rfl := Option.some.inj h
      exact ⟨⟨settled_zero_iff.2 hq, fun j hj => absurd hj (Nat.not_lt_zero j)⟩, Nat.le_refl 0⟩
    · rw [expand?_zero_of_not_quiet hq] at h
      exact absurd h (by simp)
  | succ limit ih =>
    by_cases hq : Quiet t v
    · rw [expand?_of_quiet hq] at h
      obtain rfl := Option.some.inj h
      exact ⟨⟨settled_zero_iff.2 hq, fun j hj => absurd hj (Nat.not_lt_zero j)⟩, Nat.zero_le _⟩
    · rw [expand?_succ_of_not_quiet hq, Option.map_eq_some_iff] at h
      obtain ⟨e, he, rfl⟩ := h
      obtain ⟨⟨hsettled, hbefore⟩, hle⟩ := ih he
      refine ⟨⟨settled_succ_iff.2 hsettled, fun j hj => ?_⟩, Nat.succ_le_succ hle⟩
      cases j with
      | zero => rwa [settled_zero_iff]
      | succ j => exact hbefore j (Nat.lt_of_succ_lt_succ hj)

/-! ## One replacement after another -/

/-- Replacements of names of the table that occur lead from one text to the other. -/
inductive Rewrites (t : Table) : Text → Text → Prop
  | refl (v : Text) : Rewrites t v v
  | step {s : Substitution} {v w : Text} (hs : s ∈ t) (hin : s.name <:+: v)
      (h : Rewrites t (replaceAll s.name s.replacement v) w) : Rewrites t v w

theorem Rewrites.trans (h : Rewrites t u v) (h' : Rewrites t v w) : Rewrites t u w := by
  induction h with
  | refl => exact h'
  | step hs hin h ih => exact .step hs hin (ih h')

theorem rewrites_pass {t' : Table} (hsub : t' ⊆ t) (v : Text) : Rewrites t v (pass t' v).1 := by
  induction t' generalizing v with
  | nil => exact .refl v
  | cons s t' ih =>
    have hs := hsub (List.mem_cons_self ..)
    have hsub' : t' ⊆ t := fun _ hx => hsub (List.mem_cons_of_mem s hx)
    by_cases h : s.name <:+: v
    · rw [pass_cons_of_occurs h]
      exact .step hs h (ih hsub' _)
    · rw [pass_cons_of_absent h]
      exact ih hsub' v

/-- The step replaces a name of the table that occurs, and replacements lead on to the text. -/
def Replaces (t : Table) (st : ResolutionStep) (w : Text) : Prop :=
  ∃ s ∈ t, st.symbol = s.name ∧ st.replacement = s.replacement ∧ s.name <:+: st.expression ∧
    Rewrites t (replaceAll s.name s.replacement st.expression) w

theorem Replaces.trans {st : ResolutionStep} (h : Replaces t st v) (h' : Rewrites t v w) :
    Replaces t st w := by
  obtain ⟨s, hs, hname, hrep, hin, hrw⟩ := h
  exact ⟨s, hs, hname, hrep, hin, hrw.trans h'⟩

/-- Each step of a pass is a replacement, and the rest of the pass goes on from its result. -/
theorem replaces_of_mem_pass {t' : Table} (hsub : t' ⊆ t) {st : ResolutionStep}
    (hst : st ∈ (pass t' v).2) : Replaces t st (pass t' v).1 := by
  induction t' generalizing v with
  | nil => exact absurd hst List.not_mem_nil
  | cons s t' ih =>
    have hs := hsub (List.mem_cons_self ..)
    have hsub' : t' ⊆ t := fun _ hx => hsub (List.mem_cons_of_mem s hx)
    by_cases h : s.name <:+: v
    · rw [pass_cons_of_occurs h] at hst ⊢
      rcases List.mem_cons.1 hst with rfl | hst
      · exact ⟨s, hs, rfl, rfl, h, rewrites_pass hsub' _⟩
      · exact ih hsub' hst
    · rw [pass_cons_of_absent h] at hst ⊢
      exact ih hsub' hst

/-- Repeated passes lead to a text without names, through every step. -/
theorem rewrites_of_expand? {limit : Nat} {e : Expansion} (h : expand? t limit v = some e) :
    Rewrites t v e.text ∧ Quiet t e.text ∧ ∀ st ∈ e.steps, Replaces t st e.text := by
  induction limit generalizing v e with
  | zero =>
    by_cases hq : Quiet t v
    · rw [expand?_of_quiet hq] at h
      obtain rfl := Option.some.inj h
      exact ⟨.refl v, hq, by simp⟩
    · rw [expand?_zero_of_not_quiet hq] at h
      exact absurd h (by simp)
  | succ limit ih =>
    by_cases hq : Quiet t v
    · rw [expand?_of_quiet hq] at h
      obtain rfl := Option.some.inj h
      exact ⟨.refl v, hq, by simp⟩
    · rw [expand?_succ_of_not_quiet hq, Option.map_eq_some_iff] at h
      obtain ⟨e', he', rfl⟩ := h
      obtain ⟨hrw, hquiet, hsteps⟩ := ih he'
      refine ⟨(rewrites_pass (fun _ hs => hs) v).trans hrw, hquiet, fun st hst => ?_⟩
      rcases List.mem_append.1 hst with hst | hst
      · exact (replaces_of_mem_pass (fun _ hs => hs) hst).trans hrw
      · exact hsteps st hst

end HeaderConstants.Resolve
