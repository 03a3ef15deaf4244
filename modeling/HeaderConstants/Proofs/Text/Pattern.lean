import HeaderConstants.Text.Pattern

/-!
# What a pattern matches

The texts that a pattern matches, and where a match ends: it never passes a character that the
pattern does not take and that is no word character, and in front of such a character the text ends
as far as the pattern can see.

* `Text.Pattern.Matches`: the texts of a pattern between two neighbours;
* `Text.Pattern.exists_matches_of_run`, `Text.Pattern.isSome_run_of_matches`: a match is one of
  them, and there is a match if one of them goes on to the end;
* `Text.Pattern.Spans`: the texts of a pattern, without regard to boundaries;
* `Text.Pattern.run_append_cons`: matching in front of a separator.
-/

namespace HeaderConstants.Text.Pattern
set_option autoImplicit false

/-- The last character that has been passed. -/
def last (before : Option Char) (w : Text) : Option Char := w.getLast?.or before

/-- The pattern has the text behind the character before it and in front of the rest. -/
def Matches : Pattern → Option Char → Text → Text → Prop
  | .nothing, _, w, _ => w = []
  | .one p, _, w, _ => ∃ c, w = [c] ∧ p c = true
  | .many p, _, w, _ => ∀ c ∈ w, p c = true
  | .boundary, before, w, rest => w = [] ∧ isWordBoundary before rest.head? = true
  | .either first second, before, w, rest => Matches first before w rest ∨
      Matches second before w rest
  | .andThen first second, before, w, rest => ∃ u v, w = u ++ v ∧
      Matches first before u (v ++ rest) ∧ Matches second (last before u) v rest

def Spans : Pattern → Text → Prop
  | .nothing, w => w = []
  | .one p, w => ∃ c, w = [c] ∧ p c = true
  | .many p, w => ∀ c ∈ w, p c = true
  | .boundary, w => w = []
  | .either first second, w => Spans first w ∨ Spans second w
  | .andThen first second, w => ∃ u v, w = u ++ v ∧ Spans first u ∧ Spans second v

/-- The pattern takes the character nowhere. -/
def Avoids (c : Char) : Pattern → Prop
  | .nothing => True
  | .one p => p c = false
  | .many p => p c = false
  | .boundary => True
  | .either first second => Avoids c first ∧ Avoids c second
  | .andThen first second => Avoids c first ∧ Avoids c second

variable {α β : Type} {q : Pattern} {p : Char → Bool} {a : α} {c : Char} {w : Text}

theorem last_cons (before : Option Char) (c : Char) (w : Text) :
    last before (c :: w) = last (some c) w := by
  cases w with
  | nil => rfl
  | cons d w => simp [last, List.getLast?_eq_some_getLast]

theorem last_append (before : Option Char) (u v : Text) :
    last before (u ++ v) = last (last before u) v := by
  simp [last, List.getLast?_append, Option.or_assoc]

theorem Matches.spans {before : Option Char} {rest : Text} (h : q.Matches before w rest) :
    q.Spans w := by
  induction q generalizing before w rest with
  | nothing => exact h
  | one p => exact h
  | many p => exact h
  | boundary => exact h.1
  | either first second ih₁ ih₂ => exact h.imp ih₁ ih₂
  | andThen first second ih₁ ih₂ =>
    obtain ⟨u, v, hw, hu, hv⟩ := h
    exact ⟨u, v, hw, ih₁ hu, ih₂ hv⟩

/-! ## Runs and matches -/

theorem exists_all_of_runMany {k : Cursor → Option α} {before : Option Char} {rest : Text}
    (h : runMany p k before rest = some a) :
    ∃ w more, rest = w ++ more ∧ (∀ c ∈ w, p c = true) ∧ k ⟨last before w, more⟩ = some a := by
  induction rest generalizing before with
  | nil => exact ⟨[], [], rfl, by simp, h⟩
  | cons d rest ih =>
    rw [runMany] at h
    have here (hk : k ⟨before, d :: rest⟩ = some a) :
        ∃ w more, d :: rest = w ++ more ∧ (∀ c ∈ w, p c = true) ∧
          k ⟨last before w, more⟩ = some a :=
      ⟨[], d :: rest, rfl, by simp, hk⟩
    split at h
    · next hd =>
      split at h
      · next hrun =>
        obtain ⟨w, more, hw, hall, hk⟩ := ih (hrun.trans h)
        refine ⟨d :: w, more, by rw [hw, List.cons_append], fun c hc => ?_, ?_⟩
        · rcases List.mem_cons.1 hc with rfl | hc
          · exact hd
          · exact hall c hc
        · rwa [last_cons]
      · exact here h
    · exact here h

/-- A match takes a text of the pattern, and goes on behind it. -/
theorem exists_matches_of_run {k : Cursor → Option α} {before : Option Char} {rest : Text}
    (h : q.run k ⟨before, rest⟩ = some a) :
    ∃ w more, rest = w ++ more ∧ q.Matches before w more ∧ k ⟨last before w, more⟩ = some a := by
  induction q generalizing k before rest with
  | nothing => exact ⟨[], rest, rfl, rfl, h⟩
  | one p =>
    cases rest with
    | nil => simp [run] at h
    | cons d rest =>
      simp only [run] at h
      split at h
      · next hd => exact ⟨[d], rest, rfl, ⟨d, rfl, hd⟩, h⟩
      · simp at h
  | many p => exact exists_all_of_runMany h
  | boundary =>
    simp only [run] at h
    split at h
    · next hboundary => exact ⟨[], rest, rfl, ⟨rfl, hboundary⟩, h⟩
    · simp at h
  | either first second ih₁ ih₂ =>
    simp only [run] at h
    split at h
    · next hrun =>
      obtain ⟨w, more, hw, hs, hk⟩ := ih₁ (hrun.trans h)
      exact ⟨w, more, hw, .inl hs, hk⟩
    · obtain ⟨w, more, hw, hs, hk⟩ := ih₂ h
      exact ⟨w, more, hw, .inr hs, hk⟩
  | andThen first second ih₁ ih₂ =>
    obtain ⟨u, middle, hu, hs₁, hrun⟩ := ih₁ h
    obtain ⟨v, more, rfl, hs₂, hk⟩ := ih₂ hrun
    exact ⟨u ++ v, more, by rw [hu, List.append_assoc], ⟨u, v, rfl, hs₁, hs₂⟩,
      by rwa [last_append]⟩

theorem isSome_runMany_of_all {k : Cursor → Option α} {before : Option Char} {rest : Text}
    (hw : ∀ c ∈ w, p c = true) (hk : (k ⟨last before w, rest⟩).isSome = true) :
    (runMany p k before (w ++ rest)).isSome = true := by
  induction w generalizing before with
  | nil =>
    cases rest with
    | nil => exact hk
    | cons d rest =>
      rw [List.nil_append, runMany]
      split
      · split
        · rfl
        · exact hk
      · exact hk
  | cons d w ih =>
    have hrest := ih (fun c hc => hw c (List.mem_cons_of_mem d hc)) (last_cons before d w ▸ hk)
    obtain ⟨a, ha⟩ := Option.isSome_iff_exists.1 hrest
    rw [List.cons_append, runMany, if_pos (hw d (List.mem_cons_self ..)), ha]
    rfl

/-- Where a text of the pattern goes on to the end, some match does. -/
theorem isSome_run_of_matches {k : Cursor → Option α} {before : Option Char} {rest : Text}
    (h : q.Matches before w rest) (hk : (k ⟨last before w, rest⟩).isSome = true) :
    (q.run k ⟨before, w ++ rest⟩).isSome = true := by
  induction q generalizing k before w rest with
  | nothing =>
    obtain rfl : w = [] := h
    exact hk
  | one p =>
    obtain ⟨c, rfl, hc⟩ := h
    show (if p c = true then k ⟨some c, rest⟩ else none).isSome = true
    rw [if_pos hc]
    exact hk
  | many p => exact isSome_runMany_of_all h hk
  | boundary =>
    obtain ⟨rfl, hboundary⟩ := h
    show (if isWordBoundary before rest.head? = true then k ⟨before, rest⟩ else none).isSome = true
    rw [if_pos hboundary]
    exact hk
  | either first second ih₁ ih₂ =>
    simp only [run]
    split
    · rfl
    · next hnone =>
      rcases h with h | h
      · exact absurd (ih₁ h hk) (by simp [hnone])
      · exact ih₂ h hk
  | andThen first second ih₁ ih₂ =>
    obtain ⟨u, v, rfl, hu, hv⟩ := h
    rw [List.append_assoc]
    exact ih₁ hu (ih₂ hv (last_append before u v ▸ hk))

/-! ## Matching in front of a separator -/

theorem isWordBoundary_append_cons (hc : isWordChar c = false) (before : Option Char) (v : Text) :
    isWordBoundary before (v ++ c :: w).head? = isWordBoundary before v.head? := by
  cases v with
  | nil => simp [isWordBoundary, hc]
  | cons d v => rfl

theorem runMany_append_cons (hp : p c = false) {k : Cursor → Option β} {k' : Cursor → Option α}
    {f : α → β} (hk : ∀ before v, k ⟨before, v ++ c :: w⟩ = (k' ⟨before, v⟩).map f)
    (before : Option Char) (v : Text) :
    runMany p k before (v ++ c :: w) = (runMany p k' before v).map f := by
  induction v generalizing before with
  | nil => simpa [runMany, hp] using hk before []
  | cons d v ih =>
    have hd := hk before (d :: v)
    rw [List.cons_append] at hd
    simp only [List.cons_append, runMany, ih, hd]
    split
    · cases runMany p k' (some d) v <;> rfl
    · rfl

theorem run_append_cons (hq : q.Avoids c) (hc : isWordChar c = false) {k : Cursor → Option β}
    {k' : Cursor → Option α} {f : α → β}
    (hk : ∀ before v, k ⟨before, v ++ c :: w⟩ = (k' ⟨before, v⟩).map f)
    (before : Option Char) (v : Text) :
    q.run k ⟨before, v ++ c :: w⟩ = (q.run k' ⟨before, v⟩).map f := by
  induction q generalizing k k' before v with
  | nothing => exact hk before v
  | one p =>
    have hpc : p c = false := hq
    cases v with
    | nil => simp [run, hpc]
    | cons d v =>
      simp only [List.cons_append, run, hk]
      split <;> rfl
  | many p => exact runMany_append_cons hq hk before v
  | boundary =>
    simp only [run, isWordBoundary_append_cons hc, hk]
    split <;> rfl
  | either first second ih₁ ih₂ =>
    simp only [run, ih₁ hq.1 hk, ih₂ hq.2 hk]
    cases run first k' ⟨before, v⟩ <;> rfl
  | andThen first second ih₁ ih₂ => exact ih₁ hq.1 (ih₂ hq.2 hk) before v

end HeaderConstants.Text.Pattern
