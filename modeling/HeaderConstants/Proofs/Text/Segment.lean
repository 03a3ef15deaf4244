import HeaderConstants.Proofs.Text.Search
import HeaderConstants.Text.Word

/-!
# Words and marks

A text is a sequence of words, the maximal runs of name characters, and of marks, all other
characters. A nonempty pattern of name characters occurs in a text inside one of its words.

* `Text.segments`: the words and marks of a text in order;
* `Text.word_induction`: induction on a text word by word;
* `Text.infix_iff_exists_word`: occurrence inside words.
-/

namespace HeaderConstants.Text
set_option autoImplicit false

inductive Segment where
  | word (w : Text)
  | mark (c : Char)
  deriving DecidableEq, Repr

/-- A name character before a sequence of segments joins a first word. -/
def joinWord (c : Char) : List Segment → List Segment
  | .word w :: more => .word (c :: w) :: more
  | more => .word [c] :: more

def segments : Text → List Segment
  | [] => []
  | c :: rest => if isNameChar c then joinWord c (segments rest) else .mark c :: segments rest

/-- A nonempty run of name characters. -/
def IsWord (w : Text) : Prop := w ≠ [] ∧ ∀ c ∈ w, isNameChar c = true

instance (w : Text) : Decidable (IsWord w) :=
  decidable_of_iff (w ≠ [] ∧ w.all isNameChar = true) (by rw [IsWord, List.all_eq_true])

variable {p t u w rest : Text} {c : Char}

theorem IsWord.mark_not_mem (hw : IsWord w) (hc : isNameChar c = false) : c ∉ w := by
  intro hmem
  rw [hw.2 c hmem] at hc
  exact Bool.noConfusion hc

/-! ## Cutting a text -/

theorem segments_cons_mark (hc : isNameChar c = false) :
    segments (c :: t) = .mark c :: segments t := by
  simp [segments, hc]

theorem joinWord_append_mark (d : Char) (s more : List Segment) :
    joinWord d (s ++ .mark c :: more) = joinWord d s ++ .mark c :: more := by
  match s with
  | [] => rfl
  | .word _ :: _ => rfl
  | .mark _ :: _ => rfl

theorem segments_append_mark (hc : isNameChar c = false) :
    segments (u ++ c :: w) = segments u ++ .mark c :: segments w := by
  induction u with
  | nil => exact segments_cons_mark hc
  | cons a u ih =>
    simp only [List.cons_append, segments, ih, joinWord_append_mark]
    split <;> rfl

theorem segments_of_isWord (hw : IsWord w) : segments w = [.word w] := by
  obtain ⟨hne, hall⟩ := hw
  induction w with
  | nil => exact absurd rfl hne
  | cons a w ih =>
    have ha := hall a (List.mem_cons_self ..)
    cases w with
    | nil => simp [segments, joinWord, ha]
    | cons b w =>
      have hb := ih (List.cons_ne_nil b w) fun d hd => hall d (List.mem_cons_of_mem a hd)
      rw [segments, if_pos ha, hb, joinWord]

theorem segments_word_append (hw : IsWord w) (hrest : ∀ c ∈ rest.head?, isNameChar c = false) :
    segments (w ++ rest) = .word w :: segments rest := by
  cases rest with
  | nil => rw [List.append_nil, segments_of_isWord hw, segments]
  | cons c rest =>
    have hc := hrest c rfl
    rw [segments_append_mark hc, segments_of_isWord hw, segments_cons_mark hc]
    rfl

/-- A text that starts with a name character is its first word and what comes behind it. -/
theorem first_word (hc : isNameChar c = true) (rest : Text) :
    c :: rest = (c :: rest.takeWhile isNameChar) ++ rest.dropWhile isNameChar ∧
      IsWord (c :: rest.takeWhile isNameChar) ∧
      ∀ d ∈ (rest.dropWhile isNameChar).head?, isNameChar d = false := by
  refine ⟨?_, ⟨List.cons_ne_nil _ _, List.forall_mem_cons.2 ⟨hc, ?_⟩⟩, fun d hd => ?_⟩
  · rw [List.cons_append, List.takeWhile_append_dropWhile]
  · exact List.all_eq_true.1 List.all_takeWhile
  · have hhead := List.head?_dropWhile_not isNameChar rest
    rwa [Option.mem_def.1 hd] at hhead

/-- Induction on a text from its first word or mark on. -/
@[elab_as_elim]
theorem word_induction {motive : Text → Prop} (nil : motive [])
    (mark : ∀ c rest, isNameChar c = false → motive rest → motive (c :: rest))
    (word : ∀ w rest, IsWord w → (∀ c ∈ rest.head?, isNameChar c = false) → motive rest →
      motive (w ++ rest)) (t : Text) : motive t := by
  match t with
  | [] => exact nil
  | c :: rest =>
    cases hc : isNameChar c with
    | false => exact mark c rest hc (word_induction nil mark word rest)
    | true =>
      obtain ⟨hsplit, hword, hrest⟩ := first_word hc rest
      have hlen : (rest.dropWhile isNameChar).length < (c :: rest).length :=
        Nat.lt_succ_of_le (List.dropWhile_suffix _).length_le
      rw [hsplit]
      exact word _ _ hword hrest (word_induction nil mark word (rest.dropWhile isNameChar))
termination_by t.length
decreasing_by
  · exact Nat.lt_succ_self rest.length
  · exact hlen

/-! ## Words of a text -/

theorem infix_of_mem_segments (h : .word w ∈ segments t) : w <:+: t := by
  induction t using word_induction with
  | nil => simp [segments] at h
  | mark c rest hc ih =>
    rw [segments_cons_mark hc] at h
    exact (ih (by simpa using h)).trans (List.suffix_cons c rest).isInfix
  | word v rest hv hrest ih =>
    rw [segments_word_append hv hrest] at h
    rcases List.mem_cons.1 h with h | h
    · exact Segment.word.inj h ▸ (List.prefix_append v rest).isInfix
    · exact (ih h).trans (List.suffix_append v rest).isInfix

theorem isWord_of_mem_segments (h : .word w ∈ segments t) : IsWord w := by
  induction t using word_induction with
  | nil => simp [segments] at h
  | mark c rest hc ih =>
    rw [segments_cons_mark hc] at h
    exact ih (by simpa using h)
  | word v rest hv hrest ih =>
    rw [segments_word_append hv hrest] at h
    rcases List.mem_cons.1 h with h | h
    · exact Segment.word.inj h ▸ hv
    · exact ih h

theorem mem_segments_append_iff (hrest : ∀ c ∈ rest.head?, isNameChar c = false) :
    .word w ∈ segments (u ++ rest) ↔ .word w ∈ segments u ∨ .word w ∈ segments rest := by
  cases rest with
  | nil => simp [segments]
  | cons c rest =>
    have hc := hrest c rfl
    rw [segments_append_mark hc, segments_cons_mark hc, List.mem_append]

theorem infix_word_append_iff (hp : IsWord p) (hrest : ∀ c ∈ rest.head?, isNameChar c = false) :
    p <:+: w ++ rest ↔ p <:+: w ∨ p <:+: rest := by
  cases rest with
  | nil => simp [hp.1]
  | cons c rest =>
    have hc := hp.mark_not_mem (hrest c rfl)
    rw [infix_append_cons_iff hp.1 hc, ← List.nil_append (c :: rest),
      infix_append_cons_iff hp.1 hc (u := []), List.infix_nil, or_iff_right hp.1]

theorem infix_iff_exists_word (hp : IsWord p) :
    p <:+: t ↔ ∃ w, .word w ∈ segments t ∧ p <:+: w := by
  refine ⟨fun h => ?_, fun ⟨w, hw, h⟩ => h.trans (infix_of_mem_segments hw)⟩
  induction t using word_induction with
  | nil => exact absurd (List.infix_nil.1 h) hp.1
  | mark c rest hc ih =>
    have hrest : p <:+: rest := by
      have h' := (infix_append_cons_iff (u := []) hp.1 (hp.mark_not_mem hc)).1 h
      exact h'.resolve_left fun h => hp.1 (List.infix_nil.1 h)
    obtain ⟨w, hw, hpw⟩ := ih hrest
    exact ⟨w, by rw [segments_cons_mark hc]; exact List.mem_cons_of_mem _ hw, hpw⟩
  | word v rest hv hrest ih =>
    rw [segments_word_append hv hrest]
    rcases (infix_word_append_iff hp hrest).1 h with h | h
    · exact ⟨v, List.mem_cons_self .., h⟩
    · obtain ⟨w, hw, hpw⟩ := ih h
      exact ⟨w, List.mem_cons_of_mem _ hw, hpw⟩

end HeaderConstants.Text
