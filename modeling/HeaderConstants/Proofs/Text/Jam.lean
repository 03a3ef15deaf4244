import HeaderConstants.Proofs.Text.Segment

/-!
# Jammed operands

In an expression a word or a closing parenthesis ends an operand, and a word or an opening
parenthesis begins one. Where an operand stands right beside a parenthesis that belongs to another,
the text is jammed. When a group in parentheses replaces a name inside a longer word, the text is
jammed afterwards, and no later replacement of that kind can undo this. A text that is never jammed
has therefore had whole words replaced only.

* `Text.Jammed.replaceAll`: jammed texts stay jammed;
* `Text.segments_replaceAll_of_whole`: replacing a name that occurs as a whole word only;
* `Text.segments_replaceAll`: an unjammed replacement acts on whole words.
-/

namespace HeaderConstants.Text
set_option autoImplicit false

def EndsOperand (t : Text) : Prop := ∃ c ∈ t.getLast?, isNameChar c = true ∨ c = ')'

def BeginsOperand (t : Text) : Prop := ∃ c ∈ t.head?, isNameChar c = true ∨ c = '('

/-- Somewhere two operands meet at a parenthesis with nothing between them. -/
def Jammed (t : Text) : Prop :=
  (∃ u w, t = u ++ '(' :: w ∧ EndsOperand u) ∨ ∃ u w, t = u ++ ')' :: w ∧ BeginsOperand w

variable {n r t u w : Text}

/-- A text between parentheses. -/
def group (body : Text) : Text := '(' :: body ++ [')']

theorem endsOperand_append (hw : EndsOperand w) : EndsOperand (u ++ w) := by
  obtain ⟨c, hc, h⟩ := hw
  refine ⟨c, ?_, h⟩
  rw [Option.mem_def] at hc ⊢
  rw [List.getLast?_append, hc]
  rfl

theorem beginsOperand_append (hu : BeginsOperand u) : BeginsOperand (u ++ w) := by
  obtain ⟨c, hc, h⟩ := hu
  refine ⟨c, ?_, h⟩
  rw [Option.mem_def] at hc ⊢
  rw [List.head?_append, hc]
  rfl

theorem IsWord.endsOperand (hw : IsWord w) : EndsOperand w :=
  ⟨w.getLast hw.1, List.getLast?_eq_some_getLast hw.1, .inl (hw.2 _ (List.getLast_mem hw.1))⟩

theorem IsWord.beginsOperand (hw : IsWord w) : BeginsOperand w :=
  ⟨w.head hw.1, List.head?_eq_some_head hw.1, .inl (hw.2 _ (List.head_mem hw.1))⟩

theorem group_endsOperand (body : Text) : EndsOperand (group body) :=
  ⟨')', List.getLast?_concat, .inr rfl⟩

theorem group_beginsOperand (body : Text) : BeginsOperand (group body) :=
  ⟨'(', by simp [group], .inr rfl⟩

theorem Jammed.append (h : Jammed t) (u w : Text) : Jammed (u ++ t ++ w) := by
  rcases h with ⟨a, b, rfl, ha⟩ | ⟨a, b, rfl, hb⟩
  · exact .inl ⟨u ++ a, b ++ w, by simp, endsOperand_append ha⟩
  · exact .inr ⟨u ++ a, b ++ w, by simp, beginsOperand_append hb⟩

/-! ## Jammed texts stay jammed -/

theorem endsOperand_replaceAll {t : Text} (hn : n ≠ []) (h : EndsOperand t) :
    EndsOperand (replaceAll n (group r) t) := by
  by_cases hinf : n <:+: t
  · obtain ⟨u, w, he, -, hr⟩ := exists_first_occurrence hn hinf
    have hlen : w.length < t.length := by
      have hpos := List.length_pos_iff.2 hn
      simp only [he, List.length_append]
      omega
    rw [hr]
    by_cases hw : w = []
    · rw [hw, replaceAll_nil hn, List.append_nil]
      exact endsOperand_append (group_endsOperand r)
    · obtain ⟨c, hc, hend⟩ := h
      rw [he, Option.mem_def, List.getLast?_append, List.getLast?_eq_some_getLast hw] at hc
      have hwend : EndsOperand w := ⟨c, (List.getLast?_eq_some_getLast hw).trans hc, hend⟩
      exact endsOperand_append (endsOperand_replaceAll hn hwend)
  · rwa [replaceAll_of_absent hn hinf]
termination_by t.length

theorem beginsOperand_replaceAll (hn : n ≠ []) (h : BeginsOperand t) :
    BeginsOperand (replaceAll n (group r) t) := by
  by_cases hinf : n <:+: t
  · obtain ⟨u, w, rfl, -, hr⟩ := exists_first_occurrence hn hinf
    rw [hr, List.append_assoc]
    cases u with
    | nil => exact beginsOperand_append (u := group r) (group_beginsOperand r)
    | cons a u => exact h
  · rwa [replaceAll_of_absent hn hinf]

theorem Jammed.replaceAll (hn : IsWord n) (h : Jammed t) : Jammed (replaceAll n (group r) t) := by
  rcases h with ⟨u, w, rfl, hu⟩ | ⟨u, w, rfl, hw⟩
  · rw [replaceAll_append_cons hn.1 (hn.mark_not_mem (by decide))]
    exact .inl ⟨_, _, rfl, endsOperand_replaceAll hn.1 hu⟩
  · rw [replaceAll_append_cons hn.1 (hn.mark_not_mem (by decide))]
    exact .inr ⟨_, _, rfl, beginsOperand_replaceAll hn.1 hw⟩

/-! ## Replacement of whole words -/

/-- A word that holds the name is the name, unless replacing the name jams the word. -/
theorem eq_of_infix_of_not_jammed (hn : IsWord n) (hw : IsWord w) (hinf : n <:+: w)
    (h : ¬ Jammed (replaceAll n (group r) w)) : w = n := by
  obtain ⟨u, v, rfl, -, hr⟩ := exists_first_occurrence hn.1 hinf
  rw [hr] at h
  have hu : u = [] := Classical.byContradiction fun hne => by
    have hword : IsWord u := ⟨hne, fun c hc => hw.2 c (by simp [hc])⟩
    exact h (.inl ⟨u, r ++ ')' :: replaceAll n (group r) v, by simp [group], hword.endsOperand⟩)
  have hv : v = [] := Classical.byContradiction fun hne => by
    have hword : IsWord v := ⟨hne, fun c hc => hw.2 c (by simp [hc])⟩
    exact h (.inr ⟨u ++ '(' :: r, replaceAll n (group r) v, by simp [group],
      beginsOperand_replaceAll hn.1 hword.beginsOperand⟩)
  simp [hu, hv]

/-- What becomes of a segment when a word gives way to a group. -/
def Segment.replace (n r : Text) : Segment → List Segment
  | .word w => if w = n then .mark '(' :: segments r ++ [.mark ')'] else [.word w]
  | .mark c => [.mark c]

theorem segments_group_append (r t : Text) :
    segments (group r ++ t) = .mark '(' :: segments r ++ .mark ')' :: segments t := by
  have h : group r ++ t = '(' :: (r ++ ')' :: t) := by simp [group]
  rw [h, segments_cons_mark (by decide), segments_append_mark (by decide), List.cons_append]

theorem replaceAll_word_append (hn : IsWord n)
    (hw : ∀ c ∈ t.head?, isNameChar c = false) :
    replaceAll n (group r) (w ++ t) = replaceAll n (group r) w ++ replaceAll n (group r) t := by
  cases t with
  | nil => simp [replaceAll_nil hn.1]
  | cons c t =>
    have hc := hn.mark_not_mem (hw c rfl)
    rw [replaceAll_append_cons hn.1 hc, replaceAll_cons hn.1 hc]

/-- A replacement starts with the mark that the text starts with. -/
theorem head?_replaceAll (hn : IsWord n) (ht : ∀ c ∈ t.head?, isNameChar c = false) :
    ∀ c ∈ (replaceAll n r t).head?, isNameChar c = false := by
  cases t with
  | nil => simp [replaceAll_nil hn.1]
  | cons c t =>
    rw [replaceAll_cons hn.1 (hn.mark_not_mem (ht c rfl))]
    simpa using ht

theorem replaceAll_self (hn : n ≠ []) : replaceAll n r n = r := by
  have h := replaceAll_pattern_append (r := r) (w := []) hn
  rwa [List.append_nil, replaceAll_nil hn, List.append_nil] at h

/-- Where every word that holds the name is the name, the words that are the name give way to the
group and all others stay. -/
theorem segments_replaceAll_of_whole (hn : IsWord n)
    (h : ∀ w, .word w ∈ segments t → n <:+: w → w = n) :
    segments (replaceAll n (group r) t) = (segments t).flatMap (Segment.replace n r) := by
  induction t using word_induction with
  | nil =>
    rw [replaceAll_nil hn.1]
    simp [segments]
  | mark c rest hc ih =>
    rw [segments_cons_mark hc] at h ⊢
    rw [replaceAll_cons hn.1 (hn.mark_not_mem hc), segments_cons_mark hc, List.flatMap_cons,
      ih fun w hw => h w (List.mem_cons_of_mem _ hw)]
    rfl
  | word w rest hw hrest ih =>
    rw [segments_word_append hw hrest] at h ⊢
    rw [replaceAll_word_append hn hrest, List.flatMap_cons,
      ← ih fun v hv => h v (List.mem_cons_of_mem _ hv)]
    by_cases he : w = n
    · rw [he, replaceAll_self hn.1, segments_group_append]
      simp [Segment.replace]
    · have habs : ¬ n <:+: w := fun hinf => he (h w (List.mem_cons_self ..) hinf)
      rw [replaceAll_of_absent hn.1 habs, segments_word_append hw (head?_replaceAll hn hrest)]
      simp [Segment.replace, he]

theorem eq_of_mem_segments_of_not_jammed (hn : IsWord n)
    (h : ¬ Jammed (replaceAll n (group r) t)) (hw : .word w ∈ segments t) (hinf : n <:+: w) :
    w = n := by
  induction t using word_induction with
  | nil => simp [segments] at hw
  | mark c rest hc ih =>
    rw [replaceAll_cons hn.1 (hn.mark_not_mem hc)] at h
    rw [segments_cons_mark hc] at hw
    exact ih (fun hj => h (by simpa using hj.append [c] [])) (by simpa using hw)
  | word v rest hv hrest ih =>
    rw [replaceAll_word_append hn hrest] at h
    rw [segments_word_append hv hrest] at hw
    rcases List.mem_cons.1 hw with hw | hw
    · obtain rfl := Segment.word.inj hw
      have hword : ¬ Jammed (replaceAll n (group r) w) := fun hj =>
        h (by simpa using hj.append [] (replaceAll n (group r) rest))
      exact eq_of_infix_of_not_jammed hn hv hinf hword
    · refine ih (fun hj => h ?_) hw
      simpa using hj.append (replaceAll n (group r) v) []

/-- If a replacement leaves no jam, every word that holds the name is the name, and the words that
are the name give way to the group. -/
theorem segments_replaceAll (hn : IsWord n) (h : ¬ Jammed (replaceAll n (group r) t)) :
    (∀ w, .word w ∈ segments t → n <:+: w → w = n) ∧
      segments (replaceAll n (group r) t) = (segments t).flatMap (Segment.replace n r) := by
  have hwhole : ∀ w, .word w ∈ segments t → n <:+: w → w = n :=
    fun _ hw hinf => eq_of_mem_segments_of_not_jammed hn h hw hinf
  exact ⟨hwhole, segments_replaceAll_of_whole hn hwhole⟩

end HeaderConstants.Text
