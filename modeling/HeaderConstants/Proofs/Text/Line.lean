import HeaderConstants.Emit.Document
import HeaderConstants.Text.Line

/-!
# Lines and blanks

A text is cut at its line feeds, so no line holds one, and lines that hold none and end in no
carriage return can be written one under the other and be read again. Trimming only drops characters
at the ends.

* `Text.not_mem_of_mem_lines`: what a line does not hold;
* `Text.lines_unlines`, `Text.splitAtFeeds_unlines`: lines written and read;
* `Text.trimStart_of_head`, `Text.trimEnd_of_getLast`: texts with nothing to trim.
-/

namespace HeaderConstants.Text
set_option autoImplicit false

variable {p : Char → Bool} {c : Char} {t u line piece : Text} {ls pieces : List Text}

/-! ## Trimming -/

theorem trimStart_of_head (h : ∀ c ∈ t.head?, isBlank c = false) : trimStart t = t := by
  cases t with
  | nil => rfl
  | cons c t =>
    have hc : isBlank c = false := h c rfl
    rw [trimStart, List.dropWhile_cons_of_neg (by simp [hc])]

theorem trimEnd_of_getLast (h : ∀ c ∈ t.getLast?, isBlank c = false) : trimEnd t = t := by
  have hreverse : trimStart t.reverse = t.reverse :=
    trimStart_of_head (by rwa [List.head?_reverse])
  rw [trimStart] at hreverse
  rw [trimEnd, hreverse, List.reverse_reverse]

theorem trimStart_cons_of_isBlank (hc : isBlank c = true) : trimStart (c :: t) = trimStart t := by
  rw [trimStart, List.dropWhile_cons_of_pos hc]
  rfl

theorem exists_blanks_trimStart (t : Text) :
    ∃ s, t = s ++ trimStart t ∧ ∀ c ∈ s, isBlank c = true :=
  ⟨t.takeWhile isBlank, List.takeWhile_append_dropWhile.symm, List.all_eq_true.1 List.all_takeWhile⟩

theorem exists_blanks_trimEnd (t : Text) :
    ∃ s, t = trimEnd t ++ s ∧ ∀ c ∈ s, isBlank c = true := by
  obtain ⟨s, hs, hblank⟩ := exists_blanks_trimStart t.reverse
  refine ⟨s.reverse, ?_, fun c hc => hblank c (List.mem_reverse.1 hc)⟩
  rw [trimEnd, ← trimStart, ← List.reverse_append, ← hs, List.reverse_reverse]

theorem head?_trimStart (t : Text) : ∀ c ∈ (trimStart t).head?, isBlank c = false := by
  intro c hc
  have hhead := List.head?_dropWhile_not isBlank t
  rwa [← trimStart, Option.mem_def.1 hc] at hhead

theorem getLast?_trimEnd (t : Text) : ∀ c ∈ (trimEnd t).getLast?, isBlank c = false := by
  rw [trimEnd, List.getLast?_reverse]
  exact head?_trimStart t.reverse

theorem trimStart_subset (t : Text) : trimStart t ⊆ t := (List.dropWhile_suffix isBlank).subset

theorem trimEnd_subset (t : Text) : trimEnd t ⊆ t := by
  intro c hc
  rw [trimEnd, List.mem_reverse] at hc
  exact List.mem_reverse.1 ((List.dropWhile_suffix isBlank).subset hc)

/-- A text with nothing to trim at its end stays as it is in front of another. -/
theorem prefix_trimEnd_append (h : ∀ c ∈ u.getLast?, isBlank c = false) (t : Text) :
    u <+: trimEnd (u ++ t) := by
  have hu : u.reverse.dropWhile isBlank = u.reverse := by
    rw [← List.reverse_eq_iff]
    exact trimEnd_of_getLast h
  rw [trimEnd, List.reverse_append, List.dropWhile_append]
  split
  · exact ⟨[], by rw [hu, List.reverse_reverse, List.append_nil]⟩
  · rw [List.reverse_append, List.reverse_reverse]
    exact List.prefix_append u _

theorem trimStart_append_of_blanks {s : Text} (hs : ∀ c ∈ s, isBlank c = true) (t : Text) :
    trimStart (s ++ t) = trimStart t :=
  List.dropWhile_append_of_pos hs

theorem trimEnd_append_of_blanks {s : Text} (hs : ∀ c ∈ s, isBlank c = true) (t : Text) :
    trimEnd (t ++ s) = trimEnd t := by
  have hreverse : ∀ c ∈ s.reverse, isBlank c = true := fun c hc => hs c (List.mem_reverse.1 hc)
  rw [trimEnd, List.reverse_append, List.dropWhile_append_of_pos hreverse, trimEnd]

/-- What is not trimmed at either of its ends stays, whatever follows it. -/
theorem exists_trim_append {s : Text} (hs : ∀ c ∈ s, isBlank c = true) (hu : u ≠ [])
    (hhead : ∀ c ∈ u.head?, isBlank c = false) (hlast : ∀ c ∈ u.getLast?, isBlank c = false)
    (t : Text) : ∃ rest, rest <+: t ∧ trim (s ++ u ++ t) = u ++ rest := by
  have hstart : trimStart (u ++ t) = u ++ t := by
    obtain ⟨d, v, rfl⟩ := List.exists_cons_of_ne_nil hu
    exact trimStart_of_head hhead
  obtain ⟨rest, hrest⟩ := prefix_trimEnd_append hlast t
  obtain ⟨w, hw, -⟩ := exists_blanks_trimEnd (u ++ t)
  rw [← hrest, List.append_assoc] at hw
  refine ⟨rest, ⟨w, (List.append_cancel_left hw).symm⟩, ?_⟩
  rw [trim, List.append_assoc, trimStart_append_of_blanks hs, hstart, hrest]

theorem trimEnd_append (h : trimEnd t ≠ []) (u : Text) : trimEnd (u ++ t) = u ++ trimEnd t := by
  obtain ⟨s, hs, hblank⟩ := exists_blanks_trimEnd t
  have hsplit : u ++ t = u ++ trimEnd t ++ s := by rw [List.append_assoc, ← hs]
  rw [hsplit, trimEnd_append_of_blanks hblank]
  refine trimEnd_of_getLast fun c hc => ?_
  have hlast := List.getLast?_eq_some_getLast h
  rw [List.getLast?_append, hlast, Option.some_or] at hc
  exact getLast?_trimEnd t c (hlast.trans hc)

/-- The two ends of a text are trimmed apart. -/
theorem trimStart_trimEnd (t : Text) : trimStart (trimEnd t) = trim t := by
  obtain ⟨s, hs, hblank⟩ := exists_blanks_trimStart t
  have hhead := head?_trimStart t
  rw [trim]
  cases hstart : trimStart t with
  | nil =>
    rw [hstart, List.append_nil] at hs
    rw [hs, ← List.nil_append s, trimEnd_append_of_blanks hblank]
    rfl
  | cons c rest =>
    have hc : isBlank c = false := hhead c (by rw [hstart]; rfl)
    obtain ⟨more, hmore⟩ : [c] <+: trimEnd (c :: rest) :=
      prefix_trimEnd_append (u := [c]) (by simpa using hc) rest
    have hne : trimEnd (c :: rest) ≠ [] := by simp [← hmore]
    rw [hs, hstart, trimEnd_append hne, trimStart_append_of_blanks hblank, ← hmore]
    exact trimStart_of_head (by simpa using hc)

theorem trim_trim (t : Text) : trim (trim t) = trim t := by
  have hstart : trimStart (trim t) = trim t := by
    refine trimStart_of_head ?_
    rw [← trimStart_trimEnd]
    exact head?_trimStart (trimEnd t)
  have hend : trimEnd (trim t) = trim t := trimEnd_of_getLast (getLast?_trimEnd (trimStart t))
  rw [trim, hstart, hend]

theorem trim_subset (t : Text) : trim t ⊆ t :=
  fun _ hc => trimStart_subset t (trimEnd_subset _ hc)

/-! ## Pieces -/

theorem beq_eq_false_of_mem (hc : c ∉ u) : ∀ d ∈ u, (d == c) = false := by
  intro d hd
  rw [beq_eq_false_iff_ne]
  rintro rfl
  exact hc hd

theorem splitWhere_cons_of_neg (hc : p c = false) :
    ∃ piece more, splitWhere p t = piece :: more ∧
      splitWhere p (c :: t) = (c :: piece) :: more := by
  cases hsplit : splitWhere p t with
  | nil => exact absurd hsplit (splitWhere_ne_nil p t)
  | cons piece more => exact ⟨piece, more, rfl, by simp [splitWhere, hc, hsplit]⟩

/-- No piece holds a character at which the text was cut. -/
theorem not_of_mem_splitWhere (hpiece : piece ∈ splitWhere p t) (hc : c ∈ piece) :
    p c = false := by
  induction t generalizing piece with
  | nil =>
    rw [splitWhere, List.mem_singleton] at hpiece
    rw [hpiece] at hc
    exact absurd hc List.not_mem_nil
  | cons d t ih =>
    cases hd : p d with
    | true =>
      rw [splitWhere, if_pos hd] at hpiece
      rcases List.mem_cons.1 hpiece with rfl | hpiece
      · exact absurd hc List.not_mem_nil
      · exact ih hpiece hc
    | false =>
      obtain ⟨first, more, hsplit, hcons⟩ := @splitWhere_cons_of_neg p d t hd
      rw [hcons] at hpiece
      rcases List.mem_cons.1 hpiece with rfl | hpiece
      · rcases List.mem_cons.1 hc with rfl | hc
        · exact hd
        · exact ih (hsplit ▸ List.mem_cons_self ..) hc
      · exact ih (hsplit ▸ List.mem_cons_of_mem first hpiece) hc

theorem splitWhere_of_forall (hu : ∀ d ∈ u, p d = false) : splitWhere p u = [u] := by
  induction u with
  | nil => rfl
  | cons d u ih =>
    obtain ⟨hd, hu⟩ := List.forall_mem_cons.1 hu
    obtain ⟨piece, more, hsplit, hcons⟩ := @splitWhere_cons_of_neg p d u hd
    rw [ih hu] at hsplit
    obtain ⟨rfl, rfl⟩ := List.cons.inj hsplit
    exact hcons

theorem splitWhere_append_cons (hu : ∀ d ∈ u, p d = false) (hc : p c = true) :
    splitWhere p (u ++ c :: t) = u :: splitWhere p t := by
  induction u with
  | nil => rw [List.nil_append, splitWhere, if_pos hc]
  | cons d u ih =>
    obtain ⟨hd, hu⟩ := List.forall_mem_cons.1 hu
    obtain ⟨piece, more, hsplit, hcons⟩ := @splitWhere_cons_of_neg p d (u ++ c :: t) hd
    rw [ih hu] at hsplit
    obtain ⟨rfl, rfl⟩ := List.cons.inj hsplit
    exact hcons

/-- A cut leaves the pieces on both sides as they are. -/
theorem splitWhere_append (u : Text) (hc : p c = true) :
    splitWhere p (u ++ c :: t) = splitWhere p u ++ splitWhere p t := by
  induction u with
  | nil => simp [splitWhere, hc]
  | cons d u ih =>
    rw [List.cons_append]
    cases hd : p d with
    | true => rw [splitWhere, splitWhere, if_pos hd, if_pos hd, ih, List.cons_append]
    | false =>
      obtain ⟨piece, more, hsplit, hcons⟩ := @splitWhere_cons_of_neg p d u hd
      obtain ⟨piece', more', hsplit', hcons'⟩ := @splitWhere_cons_of_neg p d (u ++ c :: t) hd
      rw [ih, hsplit, List.cons_append] at hsplit'
      obtain ⟨rfl, rfl⟩ := List.cons.inj hsplit'
      rw [hcons, hcons', List.cons_append]

theorem length_splitWhere (p : Char → Bool) (t : Text) :
    (splitWhere p t).length = t.countP p + 1 := by
  induction t with
  | nil => rfl
  | cons d t ih =>
    cases hd : p d with
    | true => rw [splitWhere, if_pos hd, List.length_cons, ih, List.countP_cons_of_pos hd]
    | false =>
      obtain ⟨piece, more, hsplit, hcons⟩ := @splitWhere_cons_of_neg p d t hd
      rw [hsplit] at ih
      rw [hcons, List.countP_cons_of_neg (by simp [hd])]
      exact ih

/-! ## Lines -/

theorem splitAtFeeds_append (u t : Text) :
    splitAtFeeds (u ++ '\n' :: t) = splitAtFeeds u ++ splitAtFeeds t :=
  splitWhere_append u rfl

theorem length_splitAtFeeds (t : Text) : (splitAtFeeds t).length = t.count '\n' + 1 :=
  length_splitWhere _ t

theorem not_mem_of_mem_splitAtFeeds (hpiece : piece ∈ splitAtFeeds t) : '\n' ∉ piece :=
  fun hfeed => Bool.noConfusion (not_of_mem_splitWhere hpiece hfeed)

theorem splitAtFeeds_append_cons (hu : '\n' ∉ u) :
    splitAtFeeds (u ++ '\n' :: t) = u :: splitAtFeeds t := by
  rw [splitAtFeeds, splitWhere_append_cons (beq_eq_false_of_mem hu) rfl, ← splitAtFeeds]

theorem unlines_cons (line : Text) (ls : List Text) :
    Emit.unlines (line :: ls) = line ++ '\n' :: Emit.unlines ls := by
  simp [Emit.unlines]

/-- The pieces of a text, each with a line feed behind it, are the text with one behind it. -/
theorem unlines_splitAtFeeds (t : Text) : Emit.unlines (splitAtFeeds t) = t ++ ['\n'] := by
  induction t with
  | nil => rfl
  | cons c t ih =>
    rw [splitAtFeeds] at ih ⊢
    cases hc : (c == '\n') with
    | true =>
      rw [splitWhere, if_pos hc, unlines_cons, ih, List.nil_append, eq_of_beq hc, List.cons_append]
    | false =>
      obtain ⟨piece, more, hsplit, hcons⟩ := @splitWhere_cons_of_neg (· == '\n') c t hc
      rw [hsplit, unlines_cons] at ih
      rw [hcons, unlines_cons, List.cons_append, ih, List.cons_append]

/-- Lines without line feeds are the pieces of the text that they make, and nothing comes after
the last one. -/
theorem splitAtFeeds_unlines (h : ∀ line ∈ ls, '\n' ∉ line) :
    splitAtFeeds (Emit.unlines ls) = ls ++ [[]] := by
  induction ls with
  | nil => rfl
  | cons line more ih =>
    obtain ⟨hline, hmore⟩ := List.forall_mem_cons.1 h
    rw [unlines_cons, splitAtFeeds_append_cons hline, ih hmore, List.cons_append]

/-- A carriage return is trimmed like any other blank. -/
theorem trimEnd_withoutReturn (line : Text) : trimEnd (withoutReturn line) = trimEnd line := by
  rw [withoutReturn]
  split
  · next hlast =>
    obtain ⟨start, rfl⟩ := List.getLast?_eq_some_iff.1 hlast
    have hblank : isBlank '\r' = true := by decide
    rw [List.dropLast_concat, trimEnd, trimEnd, List.reverse_concat,
      List.dropWhile_cons_of_pos hblank]
  · rfl

theorem withoutReturn_subset (line : Text) : withoutReturn line ⊆ line := by
  rw [withoutReturn]
  split
  · exact List.dropLast_subset line
  · exact List.Subset.refl line

theorem closeLines_cons (hpieces : pieces ≠ []) :
    closeLines (line :: pieces) = withoutReturn line :: closeLines pieces := by
  cases pieces with
  | nil => exact absurd rfl hpieces
  | cons next more => rfl

/-- There are no more lines than characters. -/
theorem length_lines_le (t : Text) : (lines t).length ≤ t.length := by
  rw [lines, splitAtFeeds]
  induction t with
  | nil => exact Nat.le_refl 0
  | cons c t ih =>
    cases hc : (c == '\n') with
    | true =>
      rw [splitWhere, if_pos hc, closeLines_cons (splitWhere_ne_nil _ t)]
      exact Nat.succ_le_succ ih
    | false =>
      obtain ⟨piece, more, hsplit, hcons⟩ := @splitWhere_cons_of_neg (· == '\n') c t hc
      rw [hsplit] at ih
      rw [hcons]
      cases more with
      | nil => exact Nat.succ_le_succ (Nat.zero_le _)
      | cons next more =>
        rw [closeLines_cons (List.cons_ne_nil next more), List.length_cons] at ih ⊢
        exact Nat.le_succ_of_le ih

/-- Every line is a piece, or one without its carriage return. -/
theorem exists_piece_of_mem_closeLines (hline : line ∈ closeLines pieces) :
    ∃ piece ∈ pieces, line ⊆ piece := by
  induction pieces with
  | nil => exact absurd hline List.not_mem_nil
  | cons piece more ih =>
    cases more with
    | nil =>
      rw [closeLines] at hline
      split at hline
      · exact absurd hline List.not_mem_nil
      · rw [List.mem_singleton] at hline
        exact ⟨piece, List.mem_cons_self .., hline ▸ List.Subset.refl piece⟩
    | cons next more =>
      rw [closeLines_cons (List.cons_ne_nil next more)] at hline
      rcases List.mem_cons.1 hline with rfl | hline
      · exact ⟨piece, List.mem_cons_self .., withoutReturn_subset piece⟩
      · obtain ⟨other, hother, hsubset⟩ := ih hline
        exact ⟨other, List.mem_cons_of_mem piece hother, hsubset⟩

theorem not_mem_of_mem_lines (hline : line ∈ lines t) : '\n' ∉ line := by
  intro hfeed
  obtain ⟨piece, hpiece, hsubset⟩ := exists_piece_of_mem_closeLines hline
  exact not_mem_of_mem_splitAtFeeds hpiece (hsubset hfeed)

theorem lines_append_cons (hu : '\n' ∉ u) :
    lines (u ++ '\n' :: t) = withoutReturn u :: lines t := by
  have hpieces : splitAtFeeds t ≠ [] := splitWhere_ne_nil _ t
  rw [lines, splitAtFeeds_append_cons hu, closeLines_cons hpieces]
  rfl

/-- Lines that can be told apart again when they stand one under the other. -/
def IsLine (line : Text) : Prop := '\n' ∉ line ∧ line.getLast? ≠ some '\r'

theorem lines_unlines (h : ∀ line ∈ ls, IsLine line) : lines (Emit.unlines ls) = ls := by
  induction ls with
  | nil => rfl
  | cons line more ih =>
    obtain ⟨⟨hfeed, hreturn⟩, hmore⟩ := List.forall_mem_cons.1 h
    rw [unlines_cons, lines_append_cons hfeed, withoutReturn, if_neg hreturn, ih hmore]

end HeaderConstants.Text
