import HeaderConstants.Proofs.Resolve.Turn
import HeaderConstants.Proofs.Expr.Value

/-!
# Values in the place of names

A text in which every name with an underscore has a known value needs one pass. The names are tried
in descending order, so a name that another one starts comes first, and each replacement hits whole
words only. What is put in is a number, which has no underscore and is no place for a further name.
The pass leaves the text with the values in the place of the names.

* `Resolve.inlined`: a text with values in the place of names;
* `Resolve.Inlines`: the tables that put the values in;
* `Resolve.pass_eq_inlined`, `Resolve.exists_expansion_of_inlines`: one pass is enough.
-/

namespace HeaderConstants.Resolve
set_option autoImplicit false

open Text HeaderConstants.Expr

variable {value? : Text → Option UInt64} {n w x : Text} {c : Char} {v : UInt64} {limit : Nat}
  {t : Table} {s : Substitution}

/-- A word with a value gives way to the value in parentheses. -/
def inlinedSegment (value? : Text → Option UInt64) : Segment → Text
  | .word w => (value? w).elim w fun v => group (HexLiteral.text v)
  | .mark c => [c]

/-- The text with the values of its words in their places. -/
def inlined (value? : Text → Option UInt64) (x : Text) : Text :=
  (segments x).flatMap (inlinedSegment value?)

/-- Only words with an underscore have values. -/
def Underscored (value? : Text → Option UInt64) : Prop := ∀ w v, value? w = some v → '_' ∈ w

theorem underscore_not_mem_hexLiteral (v : UInt64) : '_' ∉ HexLiteral.text v := by
  intro h
  have hne := HexLiteral.of_mem_text (p := (· ≠ '_')) (by decide) (by decide) h
  exact hne rfl

theorem inlined_of_no_values (h : ∀ w, .word w ∈ segments x → value? w = none) :
    inlined value? x = x := by
  unfold inlined
  induction x using word_induction with
  | nil => rfl
  | mark c rest hc ih =>
    rw [segments_cons_mark hc] at h ⊢
    rw [List.flatMap_cons, ih fun w hw => h w (List.mem_cons_of_mem _ hw)]
    rfl
  | word w rest hw hrest ih =>
    rw [segments_word_append hw hrest] at h ⊢
    rw [List.flatMap_cons, ih fun w hw => h w (List.mem_cons_of_mem _ hw), inlinedSegment,
      h w (List.mem_cons_self ..)]
    rfl

/-- A word without a value stays. -/
theorem mem_inlined_of_mem_word (hw : .word w ∈ segments x) (hnone : value? w = none)
    (hc : c ∈ w) : c ∈ inlined value? x := by
  refine List.mem_flatMap.2 ⟨_, hw, ?_⟩
  rw [inlinedSegment, hnone]
  exact hc

/-- To replace whole words by their value does not change the text with all values. -/
theorem inlined_replaceAll (hvalues : Underscored value?) (hn : IsWord n) (hv : value? n = some v)
    (h : ∀ w, .word w ∈ segments x → n <:+: w → w = n) :
    inlined value? (replaceAll n (group (HexLiteral.text v)) x) = inlined value? x := by
  have hnone : value? (HexLiteral.text v) = none :=
    Option.eq_none_iff_forall_ne_some.2 fun u hu =>
      underscore_not_mem_hexLiteral v (hvalues _ u hu)
  unfold inlined
  rw [segments_replaceAll_of_whole hn h, List.flatMap_assoc]
  congr 1
  funext first
  cases first with
  | mark c => simp [Segment.replace, inlinedSegment]
  | word w =>
    by_cases hw : w = n
    · subst hw
      simp [Segment.replace, inlinedSegment, hv, hnone, segments_of_isWord (isWord_hexLiteral v),
        group]
    · simp [Segment.replace, hw]

/-! ## One pass -/

/-- The names are words with an underscore in descending order, each replaced by its value if it has
one; inside a name with a value each occurs at the start. -/
structure Inlines (value? : Text → Option UInt64) (t : Table) : Prop where
  descending : Descending (t.map Substitution.name)
  names : ∀ s ∈ t, IsWord s.name ∧ '_' ∈ s.name
  values : ∀ s ∈ t, ∀ v, value? s.name = some v → s.replacement = group (HexLiteral.text v)
  prefixes : ∀ s ∈ t, ∀ w v, value? w = some v → s.name <:+: w → s.name <+: w

/-- Every word with an underscore has a value and a place in the table. -/
def Covered (value? : Text → Option UInt64) (t : Table) (x : Text) : Prop :=
  ∀ w, .word w ∈ segments x → '_' ∈ w →
    (∃ v, value? w = some v) ∧ w ∈ t.map Substitution.name

theorem Inlines.tail (h : Inlines value? (s :: t)) :
    Inlines value? t where
  descending := (List.pairwise_cons.1 h.descending).2
  names s' hs' := h.names s' (List.mem_cons_of_mem s hs')
  values s' hs' := h.values s' (List.mem_cons_of_mem s hs')
  prefixes s' hs' := h.prefixes s' (List.mem_cons_of_mem s hs')

/-- The first name occurs as a whole word only: a longer word that it starts would come before. -/
theorem eq_of_infix_of_covered (h : Inlines value? (s :: t))
    (hx : Covered value? (s :: t) x) (hw : .word w ∈ segments x) (hinf : s.name <:+: w) :
    w = s.name := by
  have hs := List.mem_cons_self (a := s) (l := t)
  obtain ⟨⟨v, hv⟩, hmem⟩ := hx w hw (hinf.subset (h.names s hs).2)
  obtain ⟨rest, hrest⟩ := h.prefixes s hs w v hv hinf
  refine Classical.byContradiction fun hne => ?_
  have hlater : w ∈ t.map Substitution.name :=
    (List.mem_cons.1 hmem).resolve_left hne
  have hbefore : w.precedes s.name = true := (List.pairwise_cons.1 h.descending).1 w hlater
  cases rest with
  | nil => exact hne (by simpa using hrest.symm)
  | cons d rest =>
    have hself := precedes_trans (hrest ▸ precedes_append s.name d rest) hbefore
    rw [precedes_irrefl] at hself
    exact Bool.false_ne_true hself

theorem Covered.tail (h : Covered value? (s :: t) x)
    (hs : ∀ w, .word w ∈ segments x → '_' ∈ w → w ≠ s.name) : Covered value? t x := by
  intro w hw hmarked
  obtain ⟨hv, hmem⟩ := h w hw hmarked
  exact ⟨hv, (List.mem_cons.1 hmem).resolve_left (hs w hw hmarked)⟩

/-- Where a name gives way to a number, every other name stays. -/
theorem Covered.replaceAll (h : Covered value? (s :: t) x) (hs : IsWord s.name)
    (hwhole : ∀ w, .word w ∈ segments x → s.name <:+: w → w = s.name) (v : UInt64) :
    Covered value? t (replaceAll s.name (group (HexLiteral.text v)) x) := by
  intro w hw hmarked
  rw [segments_replaceAll_of_whole hs hwhole] at hw
  obtain ⟨first, hfirst, hw⟩ := List.mem_flatMap.1 hw
  cases first with
  | mark c => exact absurd hw (by simp [Segment.replace])
  | word u =>
    by_cases hu : u = s.name
    · rw [Segment.replace, if_pos hu, segments_of_isWord (isWord_hexLiteral v)] at hw
      obtain rfl : w = HexLiteral.text v := by simpa using hw
      exact absurd hmarked (underscore_not_mem_hexLiteral v)
    · obtain rfl : w = u := by simpa [Segment.replace, hu] using hw
      obtain ⟨hv, hmem⟩ := h w hfirst hmarked
      exact ⟨hv, (List.mem_cons.1 hmem).resolve_left hu⟩

/-- A pass puts the values of all names in their places. -/
theorem pass_eq_inlined (hvalues : Underscored value?) (h : Inlines value? t)
    (hx : Covered value? t x) : (pass t x).1 = inlined value? x := by
  induction t generalizing x with
  | nil =>
    refine (inlined_of_no_values fun w hw => ?_).symm
    refine Option.eq_none_iff_forall_ne_some.2 fun v hv => ?_
    exact absurd (hx w hw (hvalues w v hv)).2 List.not_mem_nil
  | cons s t ih =>
    have hs := List.mem_cons_self (a := s) (l := t)
    have hname := (h.names s hs).1
    have hwhole : ∀ w, .word w ∈ segments x → s.name <:+: w → w = s.name :=
      fun w hw hinf => eq_of_infix_of_covered h hx hw hinf
    cases hv : value? s.name with
    | some v =>
      rw [pass_cons hname.1, h.values s hs v hv, ih h.tail (hx.replaceAll hname hwhole v),
        inlined_replaceAll hvalues hname hv hwhole]
    | none =>
      have hother : ∀ w, .word w ∈ segments x → '_' ∈ w → w ≠ s.name := by
        rintro w hw hmarked rfl
        obtain ⟨⟨v, hv'⟩, -⟩ := hx _ hw hmarked
        exact absurd (hv.symm.trans hv') (by simp)
      have habsent : ¬ s.name <:+: x := fun hinf => by
        obtain ⟨w, hw, hinw⟩ := (infix_iff_exists_word hname).1 hinf
        exact hother w hw (hinw.subset (h.names s hs).2) (hwhole w hw hinw)
      rw [pass_cons_of_absent habsent, ih h.tail (hx.tail hother)]

theorem quiet_of_underscore_not_mem (hnames : ∀ s ∈ t, '_' ∈ s.name) (hx : '_' ∉ x) : Quiet t x :=
  fun s hs hinf => hx (hinf.subset (hnames s hs))

/-- The passes end after the first one, in the text with the values. -/
theorem exists_expansion_of_inlines (hvalues : Underscored value?) (h : Inlines value? t)
    (hx : Covered value? t x) (hend : '_' ∉ inlined value? x) (hlimit : 1 ≤ limit) :
    ∃ e, expand? t limit x = some e ∧ e.text = inlined value? x ∧ e.passes ≤ 1 := by
  have hpass := pass_eq_inlined hvalues h hx
  by_cases hq : Quiet t x
  · rw [pass_of_quiet hq] at hpass
    exact ⟨_, expand?_of_quiet hq limit, hpass, Nat.zero_le 1⟩
  · obtain ⟨limit, rfl⟩ : ∃ m, limit = m + 1 := ⟨limit - 1, by omega⟩
    have hquiet : Quiet t (inlined value? x) :=
      quiet_of_underscore_not_mem (fun s hs => (h.names s hs).2) hend
    rw [expand?_succ_of_not_quiet hq, hpass, expand?_of_quiet hquiet]
    exact ⟨_, rfl, rfl, Nat.le_refl 1⟩

end HeaderConstants.Resolve
