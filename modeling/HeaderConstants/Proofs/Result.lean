import Mathlib.Data.List.Forall2

/-!
# Results and failures

How the result of several steps that may fail comes about.
-/

namespace HeaderConstants
set_option autoImplicit false

variable {ε ε' α β : Type} {x : Except ε α} {a : α} {b : β}

theorem bind_eq_ok_iff {f : α → Except ε β} : (x >>= f) = .ok b ↔ ∃ a, x = .ok a ∧ f a = .ok b := by
  cases x with
  | error e => simp [bind, Except.bind]
  | ok a => simp [bind, Except.bind]

theorem bind_eq_error_iff {f : α → Except ε β} {e : ε} :
    (x >>= f) = .error e ↔ x = .error e ∨ ∃ a, x = .ok a ∧ f a = .error e := by
  cases x with
  | error e' => simp [bind, Except.bind]
  | ok a => simp [bind, Except.bind]

theorem map_eq_ok_iff {f : α → β} : x.map f = .ok b ↔ ∃ a, x = .ok a ∧ f a = b := by
  cases x <;> simp [Except.map]

theorem map_eq_error_iff {f : α → β} {e : ε} : x.map f = .error e ↔ x = .error e := by
  cases x <;> simp [Except.map]

theorem mapError_eq_ok_iff {f : ε → ε'} : x.mapError f = .ok a ↔ x = .ok a := by
  cases x with
  | error e =>
    change .error (f e) = Except.ok a ↔ _
    simp
  | ok a' =>
    change Except.ok a' = .ok a ↔ _
    simp

theorem mapError_eq_error_iff {f : ε → ε'} {e' : ε'} :
    x.mapError f = .error e' ↔ ∃ e, x = .error e ∧ f e = e' := by
  cases x with
  | error e =>
    change .error (f e) = Except.error e' ↔ _
    simp
  | ok a =>
    change .ok a = Except.error e' ↔ _
    simp

theorem toOption_eq_some_iff : x.toOption = some a ↔ x = .ok a := by
  cases x <;> simp [Except.toOption]

theorem throw_ne_ok {e : ε} : (throw e : Except ε α) ≠ .ok a := by
  simp [throw, throwThe, MonadExceptOf.throw]

/-- Steps give a list of results where each gives its own. -/
theorem mapM_eq_ok_iff {f : α → Except ε β} {xs : List α} {ys : List β} :
    xs.mapM f = .ok ys ↔ List.Forall₂ (fun x y => f x = .ok y) xs ys := by
  induction xs generalizing ys with
  | nil =>
    rw [List.forall₂_nil_left_iff]
    exact ⟨fun h => (Except.ok.inj h).symm, fun h => h ▸ rfl⟩
  | cons x xs ih =>
    rw [List.mapM_cons, bind_eq_ok_iff, List.forall₂_cons_left_iff]
    constructor
    · rintro ⟨y, hy, h⟩
      obtain ⟨more, hmore, h⟩ := bind_eq_ok_iff.1 h
      exact ⟨y, more, hy, ih.1 hmore, (Except.ok.inj h).symm⟩
    · rintro ⟨y, more, hy, hmore, rfl⟩
      exact ⟨y, hy, bind_eq_ok_iff.2 ⟨more, ih.2 hmore, rfl⟩⟩

/-- Steps fail with what the first of them fails with that fails. -/
theorem mapM_eq_error_iff {f : α → Except ε β} {xs : List α} {e : ε} :
    xs.mapM f = .error e ↔ ∃ before x after, xs = before ++ x :: after ∧
      (∀ y ∈ before, ∃ z, f y = .ok z) ∧ f x = .error e := by
  induction xs with
  | nil =>
    refine iff_of_false (fun h => ?_) ?_
    · exact absurd h (by simp [pure, Except.pure])
    · rintro ⟨before, x, after, h, -⟩
      exact absurd h (by simp)
  | cons x xs ih =>
    rw [List.mapM_cons, bind_eq_error_iff]
    constructor
    · rintro (hx | ⟨y, hy, h⟩)
      · exact ⟨[], x, xs, rfl, List.forall_mem_nil _, hx⟩
      · have hmore : xs.mapM f = .error e := by
          rcases bind_eq_error_iff.1 h with h | ⟨ys, -, h⟩
          · exact h
          · exact absurd h (by simp [pure, Except.pure])
        obtain ⟨before, x', after, rfl, hbefore, hx'⟩ := ih.1 hmore
        exact ⟨x :: before, x', after, rfl, List.forall_mem_cons.2 ⟨⟨y, hy⟩, hbefore⟩, hx'⟩
    · rintro ⟨before, x', after, hsplit, hbefore, hx'⟩
      cases before with
      | nil =>
        obtain ⟨rfl, rfl⟩ := List.cons.inj hsplit
        exact .inl hx'
      | cons first before =>
        obtain ⟨rfl, rfl⟩ := List.cons.inj hsplit
        obtain ⟨⟨y, hy⟩, hbefore⟩ := List.forall_mem_cons.1 hbefore
        have hmore := ih.2 ⟨before, x', after, rfl, hbefore, hx'⟩
        exact .inr ⟨y, hy, bind_eq_error_iff.2 (.inl hmore)⟩

/-- Steps that all give a result give a list of results. -/
theorem exists_mapM_eq_ok {f : α → Except ε β} {xs : List α} (h : ∀ x ∈ xs, ∃ y, f x = .ok y) :
    ∃ ys, xs.mapM f = .ok ys := by
  induction xs with
  | nil => exact ⟨[], rfl⟩
  | cons x xs ih =>
    obtain ⟨y, hy⟩ := h x (List.mem_cons_self ..)
    obtain ⟨ys, hys⟩ := ih fun x' hx' => h x' (List.mem_cons_of_mem x hx')
    refine ⟨y :: ys, ?_⟩
    rw [List.mapM_cons, hy, hys]
    rfl

theorem mapM_map_eq_ok {γ : Type} {f : α → Except ε β} {p : γ → α} {g : γ → β} {xs : List γ}
    (h : ∀ x ∈ xs, f (p x) = .ok (g x)) : (xs.map p).mapM f = .ok (xs.map g) := by
  rw [mapM_eq_ok_iff, List.forall₂_map_left_iff, List.forall₂_map_right_iff, List.forall₂_same]
  exact h

theorem exists_of_mem_mapM {f : α → Except ε β} {xs : List α} {ys : List β}
    (h : xs.mapM f = .ok ys) {y : β} (hy : y ∈ ys) : ∃ x ∈ xs, f x = .ok y := by
  induction mapM_eq_ok_iff.1 h with
  | nil => exact absurd hy List.not_mem_nil
  | @cons x y' xs ys hx hmore ih =>
    rcases List.mem_cons.1 hy with rfl | hy
    · exact ⟨x, List.mem_cons_self .., hx⟩
    · obtain ⟨x', hx', hf⟩ := ih (mapM_eq_ok_iff.2 hmore) hy
      exact ⟨x', List.mem_cons_of_mem x hx', hf⟩

theorem exists_of_mapM {f : α → Except ε β} {xs : List α} {ys : List β}
    (h : xs.mapM f = .ok ys) {x : α} (hx : x ∈ xs) : ∃ y, f x = .ok y := by
  induction mapM_eq_ok_iff.1 h with
  | nil => exact absurd hx List.not_mem_nil
  | @cons x' y xs ys hy hmore ih =>
    rcases List.mem_cons.1 hx with rfl | hx
    · exact ⟨y, hy⟩
    · exact ih (mapM_eq_ok_iff.2 hmore) hx

/-! ## Results with a state -/

section State

variable {σ : Type} {s s' : σ} {m : ExceptT ε (StateM σ) α} {f : α → ExceptT ε (StateM σ) β} {e : ε}

theorem run_bind_of_ok (h : m.run.run s = (.ok a, s')) :
    (m >>= f).run.run s = (f a).run.run s' := by
  rw [ExceptT.run_bind, StateT.run_bind, h]
  rfl

theorem run_bind_of_error (h : m.run.run s = (.error e, s')) :
    (m >>= f).run.run s = (.error e, s') := by
  rw [ExceptT.run_bind, StateT.run_bind, h]
  rfl

end State

/-! ## Two results -/

section Related

variable {ε₁ ε₂ ε₃ ε₄ α₁ α₂ β₁ β₂ : Type} {E : ε₁ → ε₂ → Prop} {F : ε₃ → ε₄ → Prop}
  {P : α₁ → α₂ → Prop} {Q : β₁ → β₂ → Prop} {x : Except ε₁ α₁} {y : Except ε₂ α₂}

/-- Both results are successes and related, or both are failures and related. -/
def Related (E : ε₁ → ε₂ → Prop) (P : α₁ → α₂ → Prop) : Except ε₁ α₁ → Except ε₂ α₂ → Prop
  | .ok a, .ok b => P a b
  | .error e, .error f => E e f
  | _, _ => False

theorem Related.bind {f : α₁ → Except ε₁ β₁} {g : α₂ → Except ε₂ β₂} (h : Related E P x y)
    (hf : ∀ a b, P a b → Related E Q (f a) (g b)) : Related E Q (x >>= f) (y >>= g) := by
  cases x with
  | error e =>
    cases y with
    | error e' => exact h
    | ok b => exact h.elim
  | ok a =>
    cases y with
    | error e' => exact h.elim
    | ok b => exact hf a b h

theorem Related.mapError {f : ε₁ → ε₃} {g : ε₂ → ε₄} (h : Related E P x y)
    (hf : ∀ e e', E e e' → F (f e) (g e')) : Related F P (x.mapError f) (y.mapError g) := by
  cases x with
  | error e =>
    cases y with
    | error e' => exact hf e e' h
    | ok b => exact h.elim
  | ok a =>
    cases y with
    | error e' => exact h.elim
    | ok b => exact h

end Related

end HeaderConstants
