import HeaderConstants.Expr.Evaluate
import HeaderConstants.Proofs.Expr.Literal
import HeaderConstants.Proofs.Numeral.Hex
import HeaderConstants.Proofs.Result
import HeaderConstants.Proofs.Text.WordRun

/-!
# Suffixes run by run

Suffixes are looked for from the left with alternatives and repetitions, and yet the search comes to
a simple rule: a run of word characters that is a literal and a suffix loses the suffix, every other
run stays, and so do the characters between the runs. What is left falls into the runs in the same
way, so that dropping suffixes twice is dropping them once.

* `Expr.withoutSuffix`: what is left of one run;
* `Expr.cut_stripSuffixes`, `Expr.stripSuffixes_eq`: the runs that are left of a text, and the text;
* `Expr.suffixes_dropped_by_runs`: the rule and what follows from it.
-/

namespace HeaderConstants.Expr
set_option autoImplicit false

open Text Suffix

variable {c : Char} {lit s t w : Text} {ps : List Text}

/-- The suffixes, and no suffix. -/
def suffixes : List Text :=
  [] :: unsignedLetters.flatMap (fun u => ([] :: longLetters).map (u ++ ·)) ++
    longLetters.flatMap (fun l => ([] :: unsignedLetters).map (l ++ ·))

theorem isSuffix_iff : IsSuffix s ↔ suffixes.contains s = true := by
  simp only [List.contains_iff_mem, suffixes, List.cons_append, List.mem_cons, List.mem_append,
    List.mem_flatMap, List.mem_map]
  constructor
  · rintro (_ | ⟨hu, hl⟩ | ⟨hl, hu⟩)
    · exact .inl rfl
    · exact .inr (.inl ⟨_, hu, _, List.mem_cons.1 hl, rfl⟩)
    · exact .inr (.inr ⟨_, hl, _, List.mem_cons.1 hu, rfl⟩)
  · rintro (rfl | ⟨u, hu, l, hl, rfl⟩ | ⟨l, hl, u, hu, rfl⟩)
    · exact .none
    · exact .unsigned hu (List.mem_cons.2 hl)
    · exact .long hl (List.mem_cons.2 hu)

instance (s : Text) : Decidable (IsSuffix s) := decidable_of_iff _ isSuffix_iff.symm

theorem isLiteral_iff : IsLiteral w ↔
    (∃ digits ∈ HexLiteral.digits? w, digits ≠ [] ∧ digits.all isHexDigit = true) ∨
      (w ≠ [] ∧ w.all Char.isDigit = true) := by
  simp only [IsLiteral, Option.mem_def, HexLiteral.digits?_eq_some_iff, List.all_eq_true]
  refine or_congr_left ⟨?_, ?_⟩
  · rintro ⟨x, digits, hw, hx, hdigits⟩
    exact ⟨digits, ⟨x, hw, hx⟩, hdigits⟩
  · rintro ⟨digits, ⟨x, hw, hx⟩, hdigits⟩
    exact ⟨x, digits, hw, hx, hdigits⟩

instance (w : Text) : Decidable (IsLiteral w) := decidable_of_iff _ isLiteral_iff.symm

/-! ## One run -/

/-- A literal with a suffix loses the suffix, every other text stays. -/
def withoutSuffix (w : Text) : Text :=
  if IsLiteral (w.takeWhile isLiteralChar) ∧ IsSuffix (w.dropWhile isLiteralChar) then
    w.takeWhile isLiteralChar
  else w

/-- The text is a literal with a suffix. -/
def IsSuffixed (w : Text) : Prop := ∃ lit s, w = lit ++ s ∧ IsLiteral lit ∧ IsSuffix s ∧ s ≠ []

theorem withoutSuffix_append (hlit : IsLiteral lit) (hs : IsSuffix s) :
    withoutSuffix (lit ++ s) = lit := by
  have hstop : ∀ c ∈ s.head?, isLiteralChar c = false := by
    intro c hc
    rw [← Bool.not_eq_true]
    intro hchar
    have hletter := hs.isLetter c (List.mem_of_mem_head? hc)
    rw [not_isLetter_of_isLiteralChar hchar] at hletter
    exact Bool.noConfusion hletter
  obtain ⟨htake, hdrop⟩ := takeWhile_append_stop hlit.isLiteralChar hstop
  rw [withoutSuffix, htake, hdrop, if_pos ⟨hlit, hs⟩]

theorem withoutSuffix_of_not_isSuffixed (h : ¬ IsSuffixed w) : withoutSuffix w = w := by
  rw [withoutSuffix]
  split
  · next hform =>
    have hsplit : w.takeWhile isLiteralChar ++ w.dropWhile isLiteralChar = w :=
      List.takeWhile_append_dropWhile
    have hnone : w.dropWhile isLiteralChar = [] := Classical.byContradiction fun hne =>
      h ⟨_, _, hsplit.symm, hform.1, hform.2, hne⟩
    rw [hnone, List.append_nil] at hsplit
    exact hsplit
  · rfl

theorem withoutSuffix_of_isLiteral (h : IsLiteral w) : withoutSuffix w = w := by
  have hbare := withoutSuffix_append h .none
  rwa [List.append_nil] at hbare

/-- What is left of a run is all of it, or a literal. -/
theorem withoutSuffix_cases (w : Text) :
    withoutSuffix w = w ∨ ∃ lit s, w = lit ++ s ∧ IsLiteral lit ∧ withoutSuffix w = lit := by
  by_cases h : IsSuffixed w
  · obtain ⟨lit, s, rfl, hlit, hs, -⟩ := h
    exact .inr ⟨lit, s, rfl, hlit, withoutSuffix_append hlit hs⟩
  · exact .inl (withoutSuffix_of_not_isSuffixed h)

theorem withoutSuffix_withoutSuffix (w : Text) :
    withoutSuffix (withoutSuffix w) = withoutSuffix w := by
  rcases withoutSuffix_cases w with h | ⟨lit, s, -, hlit, h⟩
  · rw [h, h]
  · rw [h, withoutSuffix_of_isLiteral hlit]

theorem not_isSuffixed_of_not_digit (h : ∀ c ∈ w.head?, c.isDigit = false) : ¬ IsSuffixed w := by
  rintro ⟨lit, s, rfl, hlit, -⟩
  obtain ⟨c, hc, hdigit⟩ := hlit.isDigit_head?
  have hfirst := h c (by rw [Option.mem_def, List.head?_append, Option.mem_def.1 hc]; rfl)
  rw [hdigit] at hfirst
  exact Bool.noConfusion hfirst

theorem withoutSuffix_mark (hc : isWordChar c = false) : withoutSuffix [c] = [c] := by
  refine withoutSuffix_of_not_isSuffixed (not_isSuffixed_of_not_digit fun d hd => ?_)
  rw [← Option.some.inj hd]
  exact not_isDigit_of_not_isNameChar (not_isNameChar_of_not_isWordChar hc)

theorem isWordRun_withoutSuffix (hw : IsWordRun w) : IsWordRun (withoutSuffix w) := by
  rcases withoutSuffix_cases w with h | ⟨lit, s, -, hlit, h⟩
  · rwa [h]
  · rw [h]
    exact ⟨hlit.isWord.1, fun c hc => isWordChar_of_isNameChar (hlit.isWord.2 c hc)⟩

theorem isSuffixed_of_match? {found : Cursor × Cursor} (hw : IsWordRun w)
    (h : match? ⟨none, w⟩ = some found) : IsSuffixed w := by
  obtain ⟨lit, hlit, hspans, hsuffix, -⟩ := exists_spans_of_match?_run hw.2 h
  exact ⟨lit, _, hlit, isLiteral_of_spans hspans, isSuffix_of_spans hsuffix,
    (spans_suffix hsuffix).1⟩

theorem stripSuffixes_run (hw : IsWordRun w) : stripSuffixes w = withoutSuffix w := by
  by_cases h : IsSuffixed w
  · obtain ⟨lit, s, rfl, hlit, hs, -⟩ := h
    rw [stripSuffixes_literal hlit hs, withoutSuffix_append hlit hs]
  · have hnone : match? ⟨none, w⟩ = none := by
      rw [Option.eq_none_iff_forall_ne_some]
      exact fun found hfound => h (isSuffixed_of_match? hw hfound)
    obtain ⟨c, w, rfl⟩ := List.exists_cons_of_ne_nil hw.1
    obtain ⟨hc, hmore⟩ := List.forall_mem_cons.1 hw.2
    have hword : (some c).any isWordChar = true := hc
    obtain ⟨before, hinside⟩ := stripFrom_inside hword hmore []
    rw [withoutSuffix_of_not_isSuffixed h, stripSuffixes, stripFrom, hnone]
    simpa [stripFrom] using hinside

/-! ## All runs of a text -/

theorem stripSuffixes_run_append (hw : IsWordRun w) (ht : ∀ c ∈ t.head?, isWordChar c = false) :
    stripSuffixes (w ++ t) = withoutSuffix w ++ stripSuffixes t := by
  cases t with
  | nil =>
    rw [List.append_nil, stripSuffixes_run hw]
    exact (List.append_nil _).symm
  | cons c t =>
    rw [stripSuffixes_append_cons (ht c rfl), stripSuffixes_cons (ht c rfl), stripSuffixes_run hw]

theorem head?_stripSuffixes (ht : ∀ c ∈ t.head?, isWordChar c = false) :
    ∀ c ∈ (stripSuffixes t).head?, isWordChar c = false := by
  cases t with
  | nil => exact ht
  | cons c t =>
    rw [stripSuffixes_cons (ht c rfl)]
    exact ht

/-- The runs of a text without its suffixes are what is left of its runs. -/
theorem cut_stripSuffixes (h : Cut t ps) : Cut (stripSuffixes t) (ps.map withoutSuffix) := by
  induction h with
  | nil => exact .nil
  | mark hc h ih =>
    rw [List.map_cons, withoutSuffix_mark hc, stripSuffixes_cons hc]
    exact .mark hc ih
  | run hw ht h ih =>
    rw [List.map_cons, stripSuffixes_run_append hw ht]
    exact .run (isWordRun_withoutSuffix hw) (head?_stripSuffixes ht) ih

theorem stripSuffixes_eq (t : Text) : stripSuffixes t = ((pieces t).map withoutSuffix).flatten :=
  (cut_stripSuffixes (cut_pieces t)).flatten_eq.symm

theorem stripSuffixes_stripSuffixes (t : Text) :
    stripSuffixes (stripSuffixes t) = stripSuffixes t := by
  have htwice : (pieces t).map (withoutSuffix ∘ withoutSuffix) = (pieces t).map withoutSuffix :=
    List.map_congr_left fun w _ => withoutSuffix_withoutSuffix w
  have hpieces := (cut_stripSuffixes (cut_pieces t)).pieces_eq
  rw [stripSuffixes_eq (stripSuffixes t), hpieces, List.map_map, htwice, ← stripSuffixes_eq]

/-- Nothing is dropped exactly where no run is a literal with a suffix. -/
theorem stripSuffixes_eq_self_iff : stripSuffixes t = t ↔ ∀ w ∈ pieces t, ¬ IsSuffixed w := by
  constructor
  · intro h w hw hsuffixed
    have hsame : (pieces t).map withoutSuffix = (pieces t).map id := by
      rw [← (cut_stripSuffixes (cut_pieces t)).pieces_eq, h, List.map_id]
    obtain ⟨lit, s, rfl, hlit, hs, hne⟩ := hsuffixed
    have hkept := List.map_inj_left.1 hsame _ hw
    rw [withoutSuffix_append hlit hs] at hkept
    exact hne (by simpa using hkept)
  · intro h
    have hsame : (pieces t).map withoutSuffix = (pieces t).map id :=
      List.map_congr_left fun w hw => withoutSuffix_of_not_isSuffixed (h w hw)
    rw [stripSuffixes_eq, hsame, List.map_id, (cut_pieces t).flatten_eq]

theorem evaluate_stripSuffixes {v : UInt64} :
    evaluate (stripSuffixes t) = .ok v ↔ evaluate t = .ok v := by
  simp only [evaluate, stripSuffixes_stripSuffixes, bind_eq_ok_iff, mapError_eq_ok_iff]

/-- Dropping suffixes acts on each run of word characters by itself: a literal loses the suffix
behind it, and a run that is no literal with a suffix stays, as a literal by itself and every name
does. What is left of the runs are the runs of the result, so that a second time drops nothing, and
a text has the value that it has without its suffixes. -/
theorem suffixes_dropped_by_runs :
    (∀ t, Cut t (pieces t) ∧ stripSuffixes t = ((pieces t).map withoutSuffix).flatten ∧
      Cut (stripSuffixes t) ((pieces t).map withoutSuffix)) ∧
    (∀ lit s, IsLiteral lit → IsSuffix s → withoutSuffix (lit ++ s) = lit) ∧
    (∀ w, ¬ IsSuffixed w → withoutSuffix w = w) ∧
    (∀ w, IsLiteral w ∨ (∀ c ∈ w.head?, c.isDigit = false) → withoutSuffix w = w) ∧
    (∀ t, stripSuffixes (stripSuffixes t) = stripSuffixes t) ∧
    ∀ t v, evaluate t = .ok v ↔ evaluate (stripSuffixes t) = .ok v := by
  refine ⟨fun t => ⟨cut_pieces t, stripSuffixes_eq t, cut_stripSuffixes (cut_pieces t)⟩,
    fun _ _ => withoutSuffix_append, fun _ => withoutSuffix_of_not_isSuffixed, fun w hw => ?_,
    stripSuffixes_stripSuffixes, fun _ _ => evaluate_stripSuffixes.symm⟩
  rcases hw with hliteral | hname
  · exact withoutSuffix_of_isLiteral hliteral
  · exact withoutSuffix_of_not_isSuffixed (not_isSuffixed_of_not_digit hname)

/-- A word character that is no name character keeps the suffix beside it, on either side. -/
theorem suffixes_dropped_by_runs_neighbours :
    let t : Text := "\u00e91L + 0x1FuLL*_1u<<7ULu|5l\u00e9-09lU"
    pieces t = ["\u00e91L", " ", "+", " ", "0x1FuLL", "*", "_1u", "<", "<", "7ULu", "|",
      "5l\u00e9", "-", "09lU"] ∧
    stripSuffixes t = "\u00e91L + 0x1F*_1u<<7ULu|5l\u00e9-09" ∧
    IsLiteral "0x1F" ∧ IsSuffix "uLL" ∧ withoutSuffix ("0x1F".toList ++ "uLL".toList) = "0x1F" := by
  intro t
  obtain ⟨hruns, hsuffixed, -⟩ := suffixes_dropped_by_runs
  have hpieces : pieces t = ["\u00e91L", " ", "+", " ", "0x1FuLL", "*", "_1u", "<", "<", "7ULu",
      "|", "5l\u00e9", "-", "09lU"] := by decide +kernel
  have hliteral : IsLiteral "0x1F" := by decide
  have hsuffix : IsSuffix "uLL" := by decide
  refine ⟨hpieces, ?_, hliteral, hsuffix, hsuffixed _ _ hliteral hsuffix⟩
  rw [(hruns t).2.1, hpieces]
  decide +kernel

end HeaderConstants.Expr
