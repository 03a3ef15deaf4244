import HeaderConstants.Proofs.Header.DefinitionForm
import HeaderConstants.Proofs.Header.Tokenize
import HeaderConstants.Proofs.Text.Jam

/-!
# Stray parentheses

A token has as many opening parentheses as closing ones, but they need not match. A closing one that
closes nothing is stray, and a line with a stray one is read all the same if opening ones further on
make up for it. A token without a stray parenthesis has blanks inside its own groups only, and a value
without one leaves the grouping around it as it is.

* `Header.exists_first_stray`, `Header.exists_innermost_open`: the two ends of a group;
* `Header.inGroup_or_stray`: where a blank of a token stands;
* `Header.leadingToken?_append_eq_none_iff`: which beginnings of a token are refused;
* `Header.nesting_of_tokens`, `Header.not_always_nested`: these together, and a token that has a
  stray parenthesis.
-/

namespace HeaderConstants.Header
set_option autoImplicit false

open Text

variable {b c : Char} {d : Int} {p s t u v w line token : Text} {e : Definition}
  {offset stop : Nat}

/-- Each prefix of the text has at least as many opening parentheses as closing ones. -/
def IsNested (t : Text) : Prop := ∀ u, u <+: t → u.count ')' ≤ u.count '('

/-- A closing parenthesis stands where nothing is open. -/
def HasStray (t : Text) : Prop := ∃ u v, t = u ++ ')' :: v ∧ u.count '(' = u.count ')'

/-- The character between two texts is in a group: a parenthesis is opened before it and closed
behind it, and what is between these two is nested and closes all that it opens. -/
def InGroup (u : Text) (c : Char) (v : Text) : Prop :=
  ∃ u₁ u₂ v₁ v₂, u = u₁ ++ '(' :: u₂ ∧ v = v₁ ++ ')' :: v₂ ∧ IsNested (u₂ ++ c :: v₁) ∧
    (u₂ ++ c :: v₁).count '(' = (u₂ ++ c :: v₁).count ')'

/-! ## Nested texts -/

theorem isNested_iff : IsNested t ↔ ∀ u, u <+: t → 0 ≤ net u := by
  refine forall_congr' fun u => imp_congr_right fun _ => ?_
  rw [net]
  omega

theorem IsNested.net_nonneg (h : IsNested t) : 0 ≤ net t :=
  isNested_iff.1 h t (List.prefix_refl t)

theorem eq_of_nesting_pos (h : 0 < nesting c) : c = '(' ∧ nesting c = 1 := by
  by_cases hc : c = '('
  · exact ⟨hc, by rw [hc]; rfl⟩
  · rw [nesting, if_neg hc] at h
    split at h <;> omega

theorem eq_of_nesting_neg (h : nesting c < 0) : c = ')' ∧ nesting c = -1 := by
  by_cases hc : c = ')'
  · exact ⟨hc, by rw [hc]; rfl⟩
  · rw [nesting, if_neg hc] at h
    split at h <;> omega

theorem IsNested.append (hu : IsNested u) (hnet : 0 ≤ net u) (hv : IsNested v) :
    IsNested (u ++ v) := by
  rw [isNested_iff] at hu hv ⊢
  intro q hq
  obtain ⟨s, hs⟩ := hq
  rcases List.append_eq_append_iff.1 hs with ⟨more, hmore, -⟩ | ⟨more, rfl, hmore⟩
  · exact hu q ⟨more, hmore.symm⟩
  · have hmore := hv more ⟨s, hmore.symm⟩
    rw [net_append]
    omega

theorem isNested_of_isBlank (hb : isBlank b = true) : IsNested [b] := by
  refine isNested_iff.2 fun q hq => ?_
  rcases List.prefix_cons_iff.1 hq with rfl | ⟨q', rfl, hq'⟩
  · exact Int.le_refl 0
  · obtain rfl := List.prefix_nil.1 hq'
    simp [nesting_of_isBlank hb]

/-- Where the closing parentheses from some depth on are too many, a first one of them is. -/
theorem exists_first_below (hd : 0 ≤ d) (hp : p <+: t) (hnet : d + net p < 0) :
    ∃ u v, t = u ++ ')' :: v ∧ d + net u = 0 ∧ ∀ q, q <+: u → 0 ≤ d + net q := by
  induction t generalizing d p with
  | nil =>
    obtain rfl := List.prefix_nil.1 hp
    rw [net_nil] at hnet
    omega
  | cons c t ih =>
    cases p with
    | nil =>
      rw [net_nil] at hnet
      omega
    | cons c' p =>
      obtain ⟨rfl, hprefix⟩ := List.cons_prefix_cons.1 hp
      rw [net_cons] at hnet
      by_cases hbelow : d + nesting c' < 0
      · obtain ⟨rfl, hnesting⟩ := eq_of_nesting_neg (by omega : nesting c' < 0)
        refine ⟨[], t, rfl, by rw [net_nil]; omega, fun q hq => ?_⟩
        obtain rfl := List.prefix_nil.1 hq
        rw [net_nil]
        omega
      · have hmore : d + nesting c' + net p < 0 := by omega
        obtain ⟨u, v, rfl, hu, hq⟩ := ih (Int.not_lt.1 hbelow) hprefix hmore
        refine ⟨c' :: u, v, rfl, by rw [net_cons]; omega, fun q hq' => ?_⟩
        cases q with
        | nil =>
          rw [net_nil]
          omega
        | cons c'' q =>
          obtain ⟨rfl, htail⟩ := List.cons_prefix_cons.1 hq'
          have hnext := hq q htail
          rw [net_cons]
          omega

/-- A text that is not nested has a first stray parenthesis. -/
theorem exists_first_stray (h : ¬ IsNested t) :
    ∃ u v, t = u ++ ')' :: v ∧ IsNested u ∧ net u = 0 := by
  simp only [isNested_iff, not_forall, Int.not_le] at h
  obtain ⟨p, hp, hnet⟩ := h
  obtain ⟨u, v, ht, hu, hq⟩ := exists_first_below (Int.le_refl 0) hp (by omega)
  refine ⟨u, v, ht, isNested_iff.2 fun q hq' => ?_, by omega⟩
  have hle := hq q hq'
  omega

theorem isNested_iff_not_hasStray : IsNested t ↔ ¬ HasStray t := by
  constructor
  · rintro h ⟨u, v, rfl, hlevel⟩
    have hle := isNested_iff.1 h (u ++ [')']) ⟨v, by simp⟩
    rw [net_append, net_eq_zero_iff.2 hlevel] at hle
    exact absurd hle (by decide)
  · intro h
    refine Classical.byContradiction fun hnested => h ?_
    obtain ⟨u, v, ht, -, hnet⟩ := exists_first_stray hnested
    exact ⟨u, v, ht, net_eq_zero_iff.1 hnet⟩

/-- The last parenthesis that is still open at the end of a text. -/
theorem exists_innermost_open (hs : s <:+ t) (hnet : 0 < net s) :
    ∃ u v, t = u ++ '(' :: v ∧ IsNested v ∧ net v = 0 := by
  induction t generalizing s with
  | nil =>
    obtain rfl := List.suffix_nil.1 hs
    simp at hnet
  | cons c t ih =>
    by_cases hmore : ∃ s, s <:+ t ∧ 0 < net s
    · obtain ⟨s', hs', hnet'⟩ := hmore
      obtain ⟨u, v, rfl, hv⟩ := ih hs' hnet'
      exact ⟨c :: u, v, rfl, hv⟩
    · have hle : ∀ s, s <:+ t → net s ≤ 0 := fun s' hs' =>
        Int.not_lt.1 fun hpos => hmore ⟨s', hs', hpos⟩
      have ht := hle t (List.suffix_refl t)
      rcases List.suffix_cons_iff.1 hs with rfl | hs
      · rw [net_cons] at hnet
        obtain ⟨rfl, hnesting⟩ := eq_of_nesting_pos (by omega : 0 < nesting c)
        have hzero : net t = 0 := by omega
        refine ⟨[], t, rfl, isNested_iff.2 fun q hq => ?_, hzero⟩
        -- what a prefix opens the rest of the text closes
        obtain ⟨s, rfl⟩ := hq
        have hrest := hle s (List.suffix_append q s)
        rw [net_append] at hzero
        omega
      · exact absurd hnet (Int.not_lt.2 (hle s hs))

/-! ## Blanks of a token -/

/-- A blank of a token stands inside a group of the token, or a stray parenthesis comes before it. -/
theorem inGroup_or_stray (ht : IsSingle (u ++ b :: v)) (hb : isBlank b = true) :
    InGroup u b v ∨ HasStray u := by
  by_cases hnested : IsNested u
  · left
    have hne := ht.uneven u b v rfl hb
    have hpos : 0 < net u := by
      have hle := hnested.net_nonneg
      rw [Ne, ← net_eq_zero_iff] at hne
      omega
    have hlevel := net_eq_zero_iff.2 ht.level
    rw [net_append, net_cons, nesting_of_isBlank hb] at hlevel
    have hv : ¬ IsNested v := fun h => by
      have hle := h.net_nonneg
      omega
    -- the group is from the last parenthesis open before the blank to the first stray one behind it
    obtain ⟨u₁, u₂, hu, hu₂, hnet₂⟩ := exists_innermost_open (List.suffix_refl u) hpos
    obtain ⟨v₁, v₂, hv, hv₁, hnet₁⟩ := exists_first_stray hv
    have hbody : IsNested (u₂ ++ ([b] ++ v₁)) :=
      hu₂.append (Int.le_of_eq hnet₂.symm)
        ((isNested_of_isBlank hb).append (by simp [nesting_of_isBlank hb]) hv₁)
    refine ⟨u₁, u₂, v₁, v₂, hu, hv, hbody, net_eq_zero_iff.1 ?_⟩
    rw [net_append, net_cons, nesting_of_isBlank hb, hnet₂, hnet₁]
    rfl
  · right
    obtain ⟨u', v', hu, -, hnet⟩ := exists_first_stray hnested
    exact ⟨u', v', hu, net_eq_zero_iff.1 hnet⟩

/-! ## Reading behind a stray parenthesis -/

/-- The beginning of a token is refused if nothing that follows makes up for its parentheses. -/
theorem leadingToken?_append_eq_none_iff (hw : ∀ c ∈ w, isBlank c = true) (hs : IsRun s) :
    leadingToken? (w ++ (s ++ v)) = none ↔ ∀ v₁ v₂, v = v₁ ++ v₂ → StartsBlank v₂ →
      (s ++ v₁).count '(' ≠ (s ++ v₁).count ')' := by
  have hstarts : ∃ c rest, s ++ v = c :: rest ∧ isBlank c = false := by
    obtain ⟨c, rest, rfl, hc⟩ := hs.starts
    exact ⟨c, rest ++ v, rfl, hc⟩
  have htrim : trimStart (s ++ v) = s ++ v := by
    obtain ⟨c, rest, hcons, hc⟩ := hstarts
    rw [hcons]
    exact trimStart_of_head (by simpa using hc)
  have hopen : leadingToken? (w ++ (s ++ v)) = none ↔ IsOpen (s ++ v) := by
    rw [leadingToken?_eq_none_iff]
    constructor
    · rintro ⟨w', r, hw', hsplit, hr⟩
      have hsame := congrArg trimStart hsplit
      rw [trimStart_append_of_blanks hw, trimStart_append_of_blanks hw', htrim,
        hr.trimStart_eq] at hsame
      rwa [hsame]
    · intro h
      exact ⟨w, s ++ v, hw, rfl, h⟩
  rw [hopen]
  constructor
  · rintro h v₁ v₂ rfl hv₂
    rcases startsBlank_iff.1 hv₂ with rfl | ⟨b, more, rfl, hb⟩
    · simpa using h.unlevel
    · exact h.uneven (s ++ v₁) b more (by simp) hb
  · intro h
    refine ⟨⟨hstarts, fun p b q hsplit hb => ?_⟩, h v [] (by simp) (by simp [StartsBlank])⟩
    rcases List.append_eq_append_iff.1 hsplit with ⟨more, rfl, hmore⟩ | ⟨more, rfl, hmore⟩
    · exact h more (b :: q) hmore (by simpa [StartsBlank] using hb)
    · cases more with
      | nil =>
        rw [List.append_nil] at h
        have hv : v = b :: q := by simpa using hmore.symm
        simpa using h [] v rfl (by simpa [hv, StartsBlank] using hb)
      | cons b' more =>
        obtain ⟨rfl, -⟩ := List.cons.inj hmore
        exact hs.uneven p b more rfl hb

theorem tokenAt_eq_error_iff :
    tokenAt (u ++ t) (byteLength u) = .error (.unbalanced (u ++ t)) ↔ leadingToken? t = none := by
  rw [tokenAt, ← unread, unread_byteLength]
  cases leadingToken? t with
  | none => simp
  | some pair => simp

/-! ## Values in an expression -/

theorem isSingle_of_tokenAt (h : tokenAt line offset = .ok (token, stop)) :
    token = [] ∨ IsSingle token := by
  obtain ⟨u, hline, hu⟩ := exists_read line offset
  by_cases hne : unread line offset = []
  · rw [tokenAt_of_unread_eq_nil hne] at h
    exact .inl (Prod.mk.inj (Except.ok.inj h)).1.symm
  · obtain ⟨t, ht⟩ : ∃ t, unread line offset = t := ⟨_, rfl⟩
    rw [ht] at hline hu hne
    rw [hline, ← hu hne] at h
    obtain ⟨w, rest, -, -, hbefore, -⟩ := tokenAt_eq_ok_iff.1 h
    exact hbefore.imp And.left And.left

theorem HasForm.value (h : HasForm line e) : e.value = [] ∨ IsSingle e.value := by
  obtain ⟨w₁, w₂, rest, -, -, -, -, hlast⟩ := h
  exact hlast.imp And.left And.left

/-- The group made of a text is closed at its end and not before, if the text is nested. -/
theorem isNested_iff_group :
    IsNested t ↔ ∀ u v, group t = u ++ v → u ≠ [] → v ≠ [] → u.count ')' < u.count '(' := by
  have hopen : ∀ q : Text, ('(' :: q).count ')' < ('(' :: q).count '(' ↔
      q.count ')' ≤ q.count '(' := by
    intro q
    rw [List.count_cons_self, List.count_cons_of_ne (by decide)]
    omega
  constructor
  · intro h u v hsplit hu hv
    obtain ⟨c, q, rfl⟩ := List.exists_cons_of_ne_nil hu
    obtain ⟨rfl, hbody⟩ := List.cons.inj hsplit
    obtain ⟨v', c, rfl⟩ := (List.eq_nil_or_concat v).resolve_left hv
    have hlast : t ++ [')'] = (q ++ v') ++ [c] := by
      rw [List.append_assoc]
      exact hbody.trans (congrArg (q ++ ·) List.concat_eq_append)
    exact (hopen q).2 (h q ⟨v', (List.append_inj' hlast rfl).1.symm⟩)
  · intro h q hq
    obtain ⟨s, rfl⟩ := hq
    refine (hopen q).1 (h ('(' :: q) (s ++ [')']) ?_ (by simp) (by simp))
    simp [group]

/-- A token has as many opening parentheses as closing ones, and these match unless one is stray: a
blank of the token is in a group, or a stray parenthesis comes before it. Behind a stray parenthesis a
line is refused exactly if no text from there to a blank, or to the end, opens one parenthesis more
than it closes. A value has a stray parenthesis exactly if it closes the group that is put around it. -/
theorem nesting_of_tokens (line : Text) :
    (∀ offset token stop, tokenAt line offset = .ok (token, stop) →
      token.count '(' = token.count ')' ∧ (IsNested token ↔ ¬ HasStray token) ∧
      ∀ u b v, token = u ++ b :: v → isBlank b = true → InGroup u b v ∨ HasStray u) ∧
    (∀ before w u v, line = before ++ w ++ u ++ ')' :: v → (∀ c ∈ w, isBlank c = true) →
      IsRun (u ++ [')']) → u.count '(' = u.count ')' →
      (tokenAt line (byteLength before) = .error (.unbalanced line) ↔
        ∀ v₁ v₂, v = v₁ ++ v₂ → StartsBlank v₂ → v₁.count '(' ≠ v₁.count ')' + 1)) ∧
    ∀ d, parseDefinition line = .ok d →
      d.value.count '(' = d.value.count ')' ∧
      (¬ HasStray d.value ↔ ∀ u v, group d.value = u ++ v → u ≠ [] → v ≠ [] →
        u.count ')' < u.count '(') := by
  refine ⟨fun offset token stop h => ?_, fun before w u v hline hw hrun hlevel => ?_,
    fun d h => ?_⟩
  · rcases isSingle_of_tokenAt h with rfl | hsingle
    · exact ⟨rfl, isNested_iff_not_hasStray, fun u b v hsplit => by simp at hsplit⟩
    · refine ⟨hsingle.level, isNested_iff_not_hasStray, fun u b v hsplit hb => ?_⟩
      rw [hsplit] at hsingle
      exact inGroup_or_stray hsingle hb
  · have hfront : line = before ++ (w ++ (u ++ [')'] ++ v)) := by
      rw [hline]
      simp
    rw [hfront, tokenAt_eq_error_iff, leadingToken?_append_eq_none_iff hw hrun]
    refine forall₄_congr fun v₁ v₂ _ _ => ?_
    simp only [Ne, ← net_eq_zero_iff, net_append, net_cons, net_nil] at hlevel ⊢
    have hclose : nesting ')' = -1 := rfl
    rw [hlevel, hclose, net]
    omega
  · rw [← isNested_iff_not_hasStray]
    refine ⟨?_, isNested_iff_group⟩
    rcases (parseDefinition_eq_ok_iff.1 h).value with hnil | hsingle
    · rw [hnil]
      rfl
    · exact hsingle.level

theorem not_always_nested :
    parseDefinition "#define CKA_X 1) | (2" = .ok ⟨"CKA_X", "1) | (2"⟩ ∧
    tokenAt "#define CKA_X 1) | (2" 14 = .ok ("1) | (2", 21) ∧
    HasStray "1) | (2" ∧ ¬ IsNested "1) | (2" ∧ ¬ InGroup "1)" ' ' "| (2" := by
  have hstray : HasStray "1) | (2" := ⟨"1", " | (2", rfl, rfl⟩
  refine ⟨rfl, rfl, hstray, fun h => isNested_iff_not_hasStray.1 h hstray, ?_⟩
  rintro ⟨u₁, u₂, v₁, v₂, hu, -⟩
  have hopen : '(' ∈ ("1)" : Text) := by
    rw [hu]
    simp
  exact absurd hopen (by decide)

end HeaderConstants.Header
