import Mathlib.Data.Fintype.Card
import Mathlib.Order.Monotone.Basic
import HeaderConstants.Proofs.Resolve.Passes

/-!
# How many passes can change a text

A replacement goes into parentheses, which no plain name holds, so the text that a name brings in
develops on its own: first under the rest of the pass, then under whole passes, in the same way
wherever it came in. After one pass nothing but such texts can change. The names whose texts settle
within `k` passes therefore determine those whose texts settle within `k + 1`, and as long as there
are new ones each pass adds a name.

* `Resolve.brought`: the text that a name brings in, at the end of the pass that brought it;
* `Resolve.exists_hits`: a text settles with the texts of the names that a pass hits in it;
* `Resolve.settled_length`: passes that ever settle do so within the number of names.
-/

namespace HeaderConstants

/-- A name that can be told apart from parentheses: neither empty nor holding one. -/
def PlainName (name : Text) : Prop := name ≠ [] ∧ '(' ∉ name ∧ ')' ∉ name

instance (name : Text) : Decidable (PlainName name) := inferInstanceAs (Decidable (_ ∧ _))

namespace Resolve
set_option autoImplicit false

open Text

variable {t : Table} {u v w x : Text}

/-- The names are plain, and what replaces them stands in parentheses. -/
def Enclosing (t : Table) : Prop :=
  ∀ s ∈ t, PlainName s.name ∧ ∃ body, s.replacement = '(' :: body ++ [')']

theorem Enclosing.open_separates (h : Enclosing t) : Separates t '(' :=
  fun s hs => ⟨(h s hs).1.1, (h s hs).1.2.1⟩

theorem Enclosing.close_separates (h : Enclosing t) : Separates t ')' :=
  fun s hs => ⟨(h s hs).1.1, (h s hs).1.2.2⟩

theorem Enclosing.mono {t' : Table} (h : Enclosing t) (hsub : t' ⊆ t) : Enclosing t' :=
  fun s hs => h s (hsub hs)

/-- Around a group in parentheses a text settles part by part. -/
theorem settled_pass_group (ht : Enclosing t) {t' : Table} (hsub : t' ⊆ t) (k : Nat)
    (u body w : Text) :
    Settled t k (pass t' (u ++ ('(' :: body ++ [')']) ++ w)).1 ↔
      Settled t k (pass t' u).1 ∧ Settled t k (pass t' ('(' :: body ++ [')'])).1 ∧
        Settled t k (pass t' w).1 := by
  have ht' := ht.mono hsub
  have hnil := settled_nil (fun s hs => (ht s hs).1.1) k
  have hpass : (pass t' []).1 = [] := by
    rw [pass_of_quiet fun s hs h => (ht' s hs).1.1 (List.infix_nil.1 h)]
  have h1 : u ++ ('(' :: body ++ [')']) ++ w = u ++ '(' :: (body ++ ')' :: w) := by simp
  have h2 : '(' :: body ++ [')'] = [] ++ '(' :: (body ++ ')' :: []) := by simp
  rw [h1, h2, pass_append_cons ht'.open_separates, pass_append_cons ht'.close_separates,
    pass_append_cons ht'.open_separates, pass_append_cons ht'.close_separates, hpass,
    settled_append_cons ht.open_separates, settled_append_cons ht.close_separates,
    settled_append_cons ht.open_separates, settled_append_cons ht.close_separates]
  simp [hnil]

/-- A pass that starts with a name that occurs: the text before the occurrence and the replacement
are left to the names that follow. -/
theorem exists_settled_pass_cons (ht : Enclosing t) {s : Substitution} {t' : Table} (hs : s ∈ t)
    (hsub : t' ⊆ t) (h : s.name <:+: x) :
    ∃ u w, x = u ++ s.name ++ w ∧ ¬ s.name <:+: u ∧ ∀ k, Settled t k (pass (s :: t') x).1 ↔
      Settled t k (pass t' u).1 ∧ Settled t k (pass t' s.replacement).1 ∧
        Settled t k (pass (s :: t') w).1 := by
  have hne := (ht s hs).1.1
  obtain ⟨body, hbody⟩ := (ht s hs).2
  obtain ⟨u, w, rfl, hu, hr⟩ := exists_first_occurrence hne h
  refine ⟨u, w, rfl, hu, fun k => ?_⟩
  rw [pass_cons hne, pass_cons hne, hr, hbody]
  exact settled_pass_group ht hsub k u body _

/-! ## The texts that names bring in -/

/-- What stands for the `j`-th name, after the rest of the pass that brought it in. -/
def brought (t : Table) (j : Fin t.length) : Text := (pass (t.drop (j + 1)) t[j].replacement).1

/-- Whether a text settles is up to the names that a pass hits in it: with none it is settled at
once, else one pass later than the last of their texts. The statement is about the rest of a pass,
for texts without the names before. -/
theorem exists_hits_of_drop (ht : Enclosing t) (i : Nat) (x : Text) (hx : Quiet (t.take i) x) :
    ∃ H : Set (Fin t.length), (H = ∅ ↔ Quiet t x) ∧ (∀ j ∈ H, t[j].name <:+: x) ∧
      ∀ k, Settled t k (pass (t.drop i) x).1 ↔ ∀ j ∈ H, Settled t k (brought t j) := by
  by_cases hi : t.length ≤ i
  · rw [List.take_of_length_le hi] at hx
    refine ⟨∅, by simp [hx], by simp, fun k => ?_⟩
    rw [List.drop_eq_nil_of_le hi, pass]
    simpa using (settled_zero_iff.2 hx).mono (Nat.zero_le k)
  have hlt : i < t.length := Nat.lt_of_not_le hi
  have hdrop : t.drop i = t[i] :: t.drop (i + 1) := List.drop_eq_getElem_cons hlt
  have htake : t.take (i + 1) = t.take i ++ [t[i]] := by
    rw [List.take_add_one, List.getElem?_eq_getElem hlt]; rfl
  have quiet_take : ∀ {y}, Quiet (t.take i) y → ¬ t[i].name <:+: y → Quiet (t.take (i + 1)) y := by
    intro y hy hn s hs
    rw [htake, List.mem_append, List.mem_singleton] at hs
    rcases hs with hs | rfl
    · exact hy s hs
    · exact hn
  have hs := List.getElem_mem hlt
  rw [hdrop]
  by_cases hinf : t[i].name <:+: x
  · obtain ⟨u, w, he, hu, hsplit⟩ :=
      exists_settled_pass_cons ht hs (List.drop_subset (i + 1) t) hinf
    have hxu : Quiet (t.take i) u :=
      fun s hs' h => hx s hs' (h.trans ⟨[], t[i].name ++ w, by simp [he]⟩)
    have hxw : Quiet (t.take i) w :=
      fun s hs' h => hx s hs' (h.trans ⟨u ++ t[i].name, [], by simp [he]⟩)
    have hlen : w.length < x.length := by
      have hpos := List.length_pos_of_ne_nil (ht _ hs).1.1
      simp only [he, List.length_append]
      omega
    obtain ⟨Hu, _, hinu, hHu⟩ := exists_hits_of_drop ht (i + 1) u (quiet_take hxu hu)
    obtain ⟨Hw, _, hinw, hHw⟩ := exists_hits_of_drop ht i w hxw
    refine ⟨Hu ∪ {⟨i, hlt⟩} ∪ Hw, ?_, ?_, fun k => ?_⟩
    · refine iff_of_false ?_ fun hq => hq _ hs hinf
      exact Set.nonempty_iff_ne_empty.1 ⟨⟨i, hlt⟩, by simp⟩
    · rintro j ((hj | rfl) | hj)
      · exact (hinu j hj).trans ⟨[], t[i].name ++ w, by simp [he]⟩
      · exact hinf
      · exact (hinw j hj).trans ⟨u ++ t[i].name, [], by simp [he]⟩
    · have hw := hHw k
      rw [hdrop] at hw
      have hi : Settled t k (pass (t.drop (i + 1)) t[i].replacement).1 ↔
          Settled t k (brought t ⟨i, hlt⟩) := Iff.rfl
      rw [hsplit k, hHu k, hw, hi]
      simp only [Set.mem_union, Set.mem_singleton_iff, or_imp, forall_and, forall_eq, and_assoc]
  · rw [pass_cons_of_absent hinf]
    exact exists_hits_of_drop ht (i + 1) x (quiet_take hx hinf)
termination_by (t.length - i, x.length)
decreasing_by
  · exact Prod.Lex.left _ _ (by omega)
  · exact Prod.Lex.right _ hlen
  · exact Prod.Lex.left _ _ (by omega)

theorem exists_hits (ht : Enclosing t) (x : Text) :
    ∃ H : Set (Fin t.length), (H = ∅ ↔ Settled t 0 x) ∧ (∀ j ∈ H, t[j].name <:+: x) ∧
      ∀ k, Settled t (k + 1) x ↔ ∀ j ∈ H, Settled t k (brought t j) := by
  obtain ⟨H, hnil, hin, hk⟩ := exists_hits_of_drop ht 0 x (by simp [Quiet])
  exact ⟨H, by rw [hnil, settled_zero_iff], hin, hk⟩

/-- The names whose texts have settled with fewer than `k` changing passes. -/
def settledNames (t : Table) : Nat → Finset (Fin t.length)
  | 0 => ∅
  | k + 1 => Finset.univ.filter fun j => Settled t k (brought t j)

theorem mem_settledNames_succ {k : Nat} {j : Fin t.length} :
    j ∈ settledNames t (k + 1) ↔ Settled t k (brought t j) := by
  simp [settledNames]

theorem exists_settled_iff_subset (ht : Enclosing t) (x : Text) :
    ∃ H : Set (Fin t.length), ∀ k, Settled t k x ↔ H ⊆ settledNames t k := by
  obtain ⟨H, hnil, -, hk⟩ := exists_hits ht x
  refine ⟨H, fun k => ?_⟩
  cases k with
  | zero => rw [← hnil]; simp [settledNames]
  | succ k =>
    rw [hk k]
    exact forall₂_congr fun j _ => by rw [Finset.mem_coe, mem_settledNames_succ]

theorem settledNames_mono (t : Table) : Monotone (settledNames t) := by
  refine monotone_nat_of_le_succ fun k j hj => ?_
  cases k with
  | zero => simp [settledNames] at hj
  | succ k => exact mem_settledNames_succ.2 (mem_settledNames_succ.1 hj).succ

/-- Once no name is new, none will be: a text settles through the names that it brings in. -/
theorem settledNames_stable (ht : Enclosing t) {k : Nat}
    (h : settledNames t k = settledNames t (k + 1)) :
    settledNames t (k + 1) = settledNames t (k + 2) := by
  ext j
  obtain ⟨H, hH⟩ := exists_settled_iff_subset ht (brought t j)
  rw [mem_settledNames_succ, mem_settledNames_succ, hH, hH, h]

theorem settledNames_length (ht : Enclosing t) (k : Nat) :
    settledNames t k ⊆ settledNames t t.length := by
  rcases Nat.le_total k t.length with hk | hk
  · exact settledNames_mono t hk
  have hcard : (settledNames t k).card = (settledNames t t.length).card := by
    refine Nat.stabilises_of_monotone (f := fun k => (settledNames t k).card) ?_ ?_ ?_ hk
    · exact fun a b hab => Finset.card_le_card (settledNames_mono t hab)
    · exact fun m => (Finset.card_le_univ _).trans_eq (Fintype.card_fin _)
    · intro m hm
      have heq := Finset.eq_of_subset_of_card_le (settledNames_mono t (Nat.le_succ m)) hm.ge
      exact congrArg Finset.card (settledNames_stable ht heq)
  exact (Finset.eq_of_subset_of_card_le (settledNames_mono t hk) hcard.le).ge

/-- Passes that ever settle do so with no more changing passes than there are names. -/
theorem settled_length (ht : Enclosing t) {k : Nat} (h : Settled t k x) : Settled t t.length x := by
  obtain ⟨H, hH⟩ := exists_settled_iff_subset ht x
  rw [hH] at h ⊢
  exact h.trans (settledNames_length ht k)

/-- From the number of names on, the limit does not matter. -/
theorem expand?_eq_of_length_le (ht : Enclosing t) {m : Nat} (hm : t.length ≤ m) :
    expand? t m x = expand? t t.length x := by
  by_cases h : Settled t t.length x
  · exact expand?_eq_of_settled h hm
  · have hnever : ∀ k, ¬ Settled t k x := fun k hk => h (settled_length ht hk)
    rw [expand?_eq_none_iff.2 fun k _ => hnever k, expand?_eq_none_iff.2 fun k _ => hnever k]

end Resolve

end HeaderConstants
