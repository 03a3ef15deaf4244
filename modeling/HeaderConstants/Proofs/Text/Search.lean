import HeaderConstants.Text.Search

/-!
# Replacement between separators

A character that a pattern does not hold is a separator for it: the pattern occurs on one side of
the separator or on the other, and a replacement acts on the two sides apart.

* `Text.occursIn_iff`: occurrence as an infix;
* `Text.replaceAll_append_cons`: a replacement on the two sides of a separator;
* `Text.exists_first_occurrence`: a replacement at the first occurrence and after it.
-/

namespace HeaderConstants.Text
set_option autoImplicit false

variable {p r t u w : Text} {c : Char}

/-- A run of characters up to the first that stops it. -/
theorem takeWhile_append_stop {q : Char → Bool} (hu : ∀ c ∈ u, q c = true)
    (hw : ∀ c ∈ w.head?, q c = false) :
    (u ++ w).takeWhile q = u ∧ (u ++ w).dropWhile q = w := by
  rw [List.takeWhile_append_of_pos hu, List.dropWhile_append_of_pos hu]
  cases w with
  | nil => exact ⟨List.append_nil u, rfl⟩
  | cons c w =>
    have hc : ¬ q c = true := by simp [hw c rfl]
    rw [List.takeWhile_cons_of_neg hc, List.dropWhile_cons_of_neg hc]
    exact ⟨List.append_nil u, rfl⟩

/-! ## Occurrences -/

theorem occursIn_iff : occursIn p t = true ↔ p <:+: t := by
  induction t with
  | nil => simp [occursIn]
  | cons c t ih => simp [occursIn, ih, List.infix_cons_iff]

theorem not_occursIn_iff : occursIn p t = false ↔ ¬ p <:+: t := by
  rw [← occursIn_iff, Bool.not_eq_true]

theorem isPrefixOf_append_cons (hc : c ∉ p) : p.isPrefixOf (u ++ c :: w) = p.isPrefixOf u := by
  induction u generalizing p with
  | nil =>
    cases p with
    | nil => rfl
    | cons d p =>
      have hd : d ≠ c := fun e => hc (e ▸ List.mem_cons_self ..)
      simp [List.isPrefixOf, hd]
  | cons a u ih =>
    cases p with
    | nil => rfl
    | cons d p => simp [List.isPrefixOf, ih (fun h => hc (List.mem_cons_of_mem d h))]

theorem infix_append_cons_iff (hp : p ≠ []) (hc : c ∉ p) :
    p <:+: u ++ c :: w ↔ p <:+: u ∨ p <:+: w := by
  induction u with
  | nil =>
    have hpre : ¬ p <+: c :: w := by
      rw [← List.isPrefixOf_iff_prefix, ← List.nil_append (c :: w), isPrefixOf_append_cons hc]
      simp [hp]
    simp [List.infix_cons_iff, hpre, hp]
  | cons a u ih =>
    have hpre : p <+: a :: u ++ c :: w ↔ p <+: a :: u := by
      rw [← List.isPrefixOf_iff_prefix, isPrefixOf_append_cons hc, List.isPrefixOf_iff_prefix]
    rw [List.cons_append, List.infix_cons_iff, ← List.cons_append, hpre, ih, ← or_assoc,
      ← List.infix_cons_iff]

/-! ## Replacement -/

theorem replaceAll_eq_replaceFrom (hp : p ≠ []) : replaceAll p r t = replaceFrom p r 0 t := by
  simp [replaceAll, hp]

theorem replaceAll_of_absent (hp : p ≠ []) (h : ¬ p <:+: t) : replaceAll p r t = t := by
  rw [replaceAll_eq_replaceFrom hp, replaceFrom_of_not_occursIn r (not_occursIn_iff.2 h)]

theorem replaceAll_nil (hp : p ≠ []) : replaceAll p r [] = [] :=
  replaceAll_of_absent hp (mt List.infix_nil.1 hp)

theorem replaceFrom_append_cons (hp : p ≠ []) (hc : c ∉ p) {skip : Nat} (hs : skip ≤ u.length) :
    replaceFrom p r skip (u ++ c :: w) = replaceFrom p r skip u ++ c :: replaceFrom p r 0 w := by
  induction u generalizing skip with
  | nil =>
    have hs0 : skip = 0 := by simpa using hs
    have hpre : p.isPrefixOf (c :: w) = false := by
      rw [← List.nil_append (c :: w), isPrefixOf_append_cons hc]
      cases p with
      | nil => exact absurd rfl hp
      | cons d p => rfl
    simp [hs0, replaceFrom, hpre]
  | cons a u ih =>
    cases skip with
    | succ skip => simpa [replaceFrom] using ih (by simpa using hs)
    | zero =>
      have hpre : p.isPrefixOf (a :: (u ++ c :: w)) = p.isPrefixOf (a :: u) := by
        rw [← List.cons_append, isPrefixOf_append_cons hc]
      simp only [List.cons_append, replaceFrom, hpre]
      split
      · next h =>
        have hlen := (List.isPrefixOf_iff_prefix.1 h).length_le
        rw [ih (by simp only [List.length_cons] at hlen; omega), List.append_assoc]
      · rw [ih (Nat.zero_le _), List.cons_append]

theorem replaceAll_append_cons (hp : p ≠ []) (hc : c ∉ p) :
    replaceAll p r (u ++ c :: w) = replaceAll p r u ++ c :: replaceAll p r w := by
  simp only [replaceAll_eq_replaceFrom hp]
  exact replaceFrom_append_cons hp hc (Nat.zero_le _)

theorem replaceAll_cons (hp : p ≠ []) (hc : c ∉ p) :
    replaceAll p r (c :: w) = c :: replaceAll p r w := by
  have h := replaceAll_append_cons (r := r) (u := []) (w := w) hp hc
  rwa [List.nil_append, replaceAll_nil hp] at h

/-- A replacement brings in no character but those of the replacing text. -/
theorem not_mem_replaceAll (hr : c ∉ r) (ht : c ∉ t) : c ∉ replaceAll p r t := by
  have hfrom : ∀ (skip : Nat) (t : Text), c ∉ t → c ∉ replaceFrom p r skip t := by
    intro skip t ht
    induction t generalizing skip with
    | nil => simp [replaceFrom]
    | cons d t ih =>
      rw [List.mem_cons, not_or] at ht
      cases skip with
      | succ skip => exact ih skip ht.2
      | zero =>
        rw [replaceFrom]
        split
        · rw [List.mem_append, not_or]
          exact ⟨hr, ih _ ht.2⟩
        · rw [List.mem_cons, not_or]
          exact ⟨ht.1, ih 0 ht.2⟩
  by_cases hp : p = []
  · subst hp
    simp only [replaceAll, List.isEmpty_nil, if_true, List.mem_append, List.mem_flatMap,
      List.mem_cons, not_or, not_exists, not_and]
    exact ⟨hr, fun d hd => ⟨fun h => ht (h ▸ hd), hr⟩⟩
  · rw [replaceAll_eq_replaceFrom hp]
    exact hfrom 0 t ht

theorem replaceAll_pattern_append (hp : p ≠ []) :
    replaceAll p r (p ++ w) = r ++ replaceAll p r w := by
  obtain ⟨d, p, rfl⟩ := List.exists_cons_of_ne_nil hp
  have hd : (d :: p).isPrefixOf (d :: p ++ w) = true := by simp
  simp only [replaceAll_eq_replaceFrom hp]
  simpa [replaceFrom, hd] using replaceFrom_skip (d :: p) r p w

theorem replaceAll_cons_of_not_isPrefix (h : ¬ p <+: c :: w) :
    replaceAll p r (c :: w) = c :: replaceAll p r w := by
  have hp : p ≠ [] := fun e => h (e ▸ List.nil_prefix)
  rw [replaceAll_eq_replaceFrom hp, replaceAll_eq_replaceFrom hp, replaceFrom,
    if_neg (mt List.isPrefixOf_iff_prefix.1 h)]

/-- Up to its first occurrence a pattern is absent, and the replacement goes on behind it. -/
theorem exists_first_occurrence (hp : p ≠ []) (h : p <:+: t) :
    ∃ u w, t = u ++ p ++ w ∧ ¬ p <:+: u ∧
      ∀ r, replaceAll p r t = u ++ r ++ replaceAll p r w := by
  induction t with
  | nil => exact absurd (List.infix_nil.1 h) hp
  | cons c t ih =>
    by_cases hpre : p <+: c :: t
    · obtain ⟨w, hw⟩ := hpre
      refine ⟨[], w, hw.symm, by simpa using hp, fun r => ?_⟩
      rw [← hw, replaceAll_pattern_append hp, List.nil_append]
    · obtain ⟨u, w, rfl, hu, hr⟩ := ih ((List.infix_cons_iff.1 h).resolve_left hpre)
      have hcu : ¬ p <:+: c :: u := by
        rw [List.infix_cons_iff, not_or]
        refine ⟨fun hp' => hpre (hp'.trans ?_), hu⟩
        simp [List.append_assoc]
      refine ⟨c :: u, w, rfl, hcu, fun r => ?_⟩
      rw [replaceAll_cons_of_not_isPrefix hpre, hr]
      rfl

end HeaderConstants.Text
