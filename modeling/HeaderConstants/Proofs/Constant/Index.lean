import HeaderConstants.Constant.Set
import Mathlib.Data.List.Nodup

/-!
# The places of names

The index of a set has every name once, with the place of its last constant. The first constant of a
name is the one that is found, so that the index and the lookup agree where no name comes twice.

* `ConstantSet.mem_index_iff`: the places that any set's index has;
* `ConstantSet.mem_index_iff_of_nodup`, `ConstantSet.find?_eq_some_iff_index`: distinct names.
-/

namespace HeaderConstants.ConstantSet
set_option autoImplicit false

variable {p entry : Text × Nat} {entries : List (Text × Nat)} {names : List Text} {name : Text}
  {s : ConstantSet} {c : Constant} {i k : Nat}

/-- The entries are in the order of their names, each name once. -/
abbrev InOrder (entries : List (Text × Nat)) : Prop :=
  entries.Pairwise fun p q => p.1.precedes q.1 = true

theorem mem_map_fst_placeInOrder :
    name ∈ (placeInOrder entry entries).map Prod.fst ↔
      name = entry.1 ∨ name ∈ entries.map Prod.fst := by
  induction entries with
  | nil => simp [placeInOrder]
  | cons other more ih =>
    rw [placeInOrder]
    by_cases hsame : other.1 = entry.1
    · rw [if_pos hsame]
      simp only [List.map_cons, List.mem_cons, hsame]
      tauto
    · rw [if_neg hsame]
      split
      · rw [List.map_cons, List.mem_cons, ih, List.map_cons, List.mem_cons]
        tauto
      · rw [List.map_cons, List.mem_cons]

theorem mem_placeInOrder_of_mem (h : p ∈ entries) : p ∈ placeInOrder entry entries := by
  induction entries with
  | nil => exact absurd h List.not_mem_nil
  | cons other more ih =>
    rw [placeInOrder]
    split
    · exact h
    · split
      · rcases List.mem_cons.1 h with rfl | h
        · exact List.mem_cons_self ..
        · exact List.mem_cons_of_mem _ (ih h)
      · exact List.mem_cons_of_mem _ h

theorem mem_placeInOrder (h : p ∈ placeInOrder entry entries) : p = entry ∨ p ∈ entries := by
  induction entries with
  | nil => exact .inl (List.mem_singleton.1 h)
  | cons other more ih =>
    rw [placeInOrder] at h
    split at h
    · exact .inr h
    · split at h
      · rcases List.mem_cons.1 h with rfl | h
        · exact .inr (List.mem_cons_self ..)
        · exact (ih h).imp_right (List.mem_cons_of_mem _)
      · exact List.mem_cons.1 h

theorem InOrder.placeInOrder (h : InOrder entries) (entry : Text × Nat) :
    InOrder (placeInOrder entry entries) := by
  induction entries with
  | nil => exact List.pairwise_singleton ..
  | cons other more ih =>
    obtain ⟨hother, hmore⟩ := List.pairwise_cons.1 h
    rw [ConstantSet.placeInOrder]
    by_cases hsame : other.1 = entry.1
    · rw [if_pos hsame]
      exact h
    · rw [if_neg hsame]
      by_cases hbefore : other.1.precedes entry.1 = true
      · rw [if_pos hbefore]
        refine List.pairwise_cons.2 ⟨fun p hp => ?_, ih hmore⟩
        rcases mem_placeInOrder hp with rfl | hp
        · exact hbefore
        · exact hother p hp
      · rw [if_neg hbefore]
        have hafter : entry.1.precedes other.1 = true :=
          (Text.precedes_connex hsame).resolve_left hbefore
        refine List.pairwise_cons.2 ⟨fun p hp => ?_, h⟩
        rcases List.mem_cons.1 hp with rfl | hp
        · exact hafter
        · exact Text.precedes_trans hafter (hother p hp)

theorem InOrder.nodup (h : InOrder entries) : (entries.map Prod.fst).Nodup := by
  rw [List.Nodup, List.pairwise_map]
  refine h.imp fun {p q} hpq hsame => ?_
  rw [hsame, Text.precedes_irrefl] at hpq
  exact Bool.noConfusion hpq

/-- An entry comes in unless there is one of its name. -/
theorem mem_placeInOrder_iff (h : InOrder entries) :
    p ∈ placeInOrder entry entries ↔
      p ∈ entries ∨ p = entry ∧ entry.1 ∉ entries.map Prod.fst := by
  constructor
  · intro hp
    rcases mem_placeInOrder hp with rfl | hmem
    · -- where the name is there already, its entry stayed, and no name comes twice
      by_cases hthere : p.1 ∈ entries.map Prod.fst
      · obtain ⟨q, hq, hname⟩ := List.mem_map.1 hthere
        have hnodup := (h.placeInOrder p).nodup
        have hqp : q = p :=
          List.inj_on_of_nodup_map hnodup (mem_placeInOrder_of_mem hq) hp hname
        exact .inl (hqp ▸ hq)
      · exact .inr ⟨rfl, hthere⟩
    · exact .inl hmem
  · rintro (hp | ⟨rfl, hnew⟩)
    · exact mem_placeInOrder_of_mem hp
    · have hthere : p.1 ∈ (placeInOrder p entries).map Prod.fst :=
        mem_map_fst_placeInOrder.2 (.inl rfl)
      obtain ⟨q, hq, hname⟩ := List.mem_map.1 hthere
      rcases mem_placeInOrder hq with rfl | hmem
      · exact hq
      · exact absurd (List.mem_map.2 ⟨q, hmem, hname⟩) hnew

/-! ## The index -/

theorem inOrder_foldr (entries : List (Text × Nat)) : InOrder (entries.foldr placeInOrder []) := by
  induction entries with
  | nil => exact .nil
  | cons entry more ih => exact ih.placeInOrder entry

theorem mem_map_fst_foldr :
    name ∈ (entries.foldr placeInOrder []).map Prod.fst ↔ name ∈ entries.map Prod.fst := by
  induction entries with
  | nil => rfl
  | cons entry more ih =>
    rw [List.foldr_cons, mem_map_fst_placeInOrder, ih, List.map_cons, List.mem_cons]

theorem mem_foldr_zipIdx :
    (name, i) ∈ (names.zipIdx k).foldr placeInOrder [] ↔
      ∃ before after, names = before ++ name :: after ∧ i = k + before.length ∧ name ∉ after := by
  induction names generalizing k with
  | nil => simp
  | cons first more ih =>
    have hfirst : first ∉ ((more.zipIdx (k + 1)).foldr placeInOrder []).map Prod.fst ↔
        first ∉ more := by
      rw [mem_map_fst_foldr, List.zipIdx_map_fst]
    rw [List.zipIdx_cons, List.foldr_cons, mem_placeInOrder_iff (inOrder_foldr _), ih, hfirst]
    constructor
    · rintro (⟨before, after, rfl, rfl, hnew⟩ | ⟨heq, hnew⟩)
      · exact ⟨first :: before, after, rfl, by rw [List.length_cons]; omega, hnew⟩
      · obtain ⟨rfl, rfl⟩ := Prod.mk.inj heq
        exact ⟨[], more, rfl, rfl, hnew⟩
    · rintro ⟨before, after, hnames, rfl, hnew⟩
      cases before with
      | nil =>
        obtain ⟨rfl, rfl⟩ := List.cons.inj hnames
        exact .inr ⟨rfl, hnew⟩
      | cons first' before =>
        obtain ⟨rfl, rfl⟩ := List.cons.inj hnames
        exact .inl ⟨before, after, rfl, by rw [List.length_cons]; omega, hnew⟩

theorem nodup_index (s : ConstantSet) : (s.index.map Prod.fst).Nodup :=
  (inOrder_foldr s.names.zipIdx).nodup

/-- A name has the place after which it does not come again. -/
theorem mem_index_iff :
    (name, i) ∈ s.index ↔
      ∃ before after, s.names = before ++ name :: after ∧ i = before.length ∧ name ∉ after := by
  rw [index, mem_foldr_zipIdx]
  simp only [Nat.zero_add]

/-! ## Distinct names -/

theorem mem_index_iff_of_nodup (h : s.names.Nodup) :
    (name, i) ∈ s.index ↔ s.names[i]? = some name := by
  rw [mem_index_iff]
  constructor
  · rintro ⟨before, after, hnames, rfl, -⟩
    rw [hnames, List.getElem?_append_right (Nat.le_refl _), Nat.sub_self]
    rfl
  · intro hi
    obtain ⟨hlt, hname⟩ := List.getElem?_eq_some_iff.1 hi
    have hsplit : s.names = s.names.take i ++ name :: s.names.drop (i + 1) := by
      rw [← hname, List.getElem_cons_drop, List.take_append_drop]
    refine ⟨_, _, hsplit, (List.length_take_of_le (Nat.le_of_lt hlt)).symm, fun hagain => ?_⟩
    rw [hsplit, List.nodup_middle, List.nodup_cons] at h
    exact h.1 (List.mem_append_right _ hagain)

theorem size_index (h : s.names.Nodup) : s.index.length = s.size := by
  have hperm : (s.index.map Prod.fst).Perm s.names := by
    rw [List.perm_ext_iff_of_nodup (nodup_index s) h]
    intro name
    rw [index, mem_map_fst_foldr, List.zipIdx_map_fst]
  have hlength := hperm.length_eq
  rwa [List.length_map, names, List.length_map] at hlength

theorem find?_eq_some_iff_mem (h : s.names.Nodup) :
    s.find? name = some c ↔ c ∈ s.constants ∧ c.name = name := by
  constructor
  · intro hfound
    exact ⟨List.mem_of_find?_eq_some hfound, by simpa using List.find?_some hfound⟩
  · rintro ⟨hc, rfl⟩
    obtain ⟨d, hd⟩ : ∃ d, s.find? c.name = some d := by
      rw [← Option.isSome_iff_exists, find?, List.find?_isSome]
      exact ⟨c, hc, by simp⟩
    have hname : d.name = c.name := by simpa using List.find?_some hd
    rw [hd, List.inj_on_of_nodup_map h (List.mem_of_find?_eq_some hd) hc hname]

/-- What is found of a name is at the place that the index has for it. -/
theorem find?_eq_some_iff_index (h : s.names.Nodup) :
    s.find? name = some c ↔ ∃ i, (name, i) ∈ s.index ∧ s.constants[i]? = some c := by
  simp only [find?_eq_some_iff_mem h, mem_index_iff_of_nodup h, names, List.getElem?_map,
    Option.map_eq_some_iff]
  constructor
  · rintro ⟨hc, rfl⟩
    obtain ⟨i, hi⟩ := List.mem_iff_getElem?.1 hc
    exact ⟨i, ⟨c, hi, rfl⟩, hi⟩
  · rintro ⟨i, ⟨d, hd, rfl⟩, hc⟩
    obtain rfl := Option.some.inj (hd.symm.trans hc)
    exact ⟨List.mem_of_getElem? hc, rfl⟩

end HeaderConstants.ConstantSet
