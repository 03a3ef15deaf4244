import HeaderConstants.Expr.Evaluate
import HeaderConstants.Proofs.Expr.Tokens

/-!
# Names in an expression

A name is never a token: a text that would have one is refused with it. The name is a word of the
text, and also of the text from before its suffixes were dropped, because a suffix ends a word that
starts with a digit, and every other word stays as it is.

* `Expr.mem_segments_of_tokens`: the name for which a text has no tokens;
* `Expr.mem_segments_of_stripSuffixes`: names of a text without its suffixes;
* `Expr.mem_segments_of_evaluate`: the name for which a text has no value.
-/

namespace HeaderConstants.Expr
set_option autoImplicit false

open Text Suffix

variable {c : Char} {t s w rest : Text} {before : Option Char}

/-! ## Tokens -/

theorem literalToken_ne_name : literalToken w ≠ .error (.name s) := by
  unfold literalToken
  split <;> simp

/-- What is left behind a sign has no words but those of the text. -/
theorem mem_segments_of_sign? {token : Token} (hs : sign? t = some (token, rest))
    (hw : .word w ∈ segments rest) : .word w ∈ segments t := by
  match t with
  | [] => simp [sign?] at hs
  | [c] =>
    simp only [sign?, Option.map_eq_some_iff, Prod.mk.injEq] at hs
    obtain ⟨_, -, -, rfl⟩ := hs
    exact absurd hw (by simp [segments])
  | c :: d :: more =>
    simp only [sign?] at hs
    split at hs
    · next hdouble =>
      obtain ⟨rfl, rfl⟩ := Prod.mk.inj (Option.some.inj hs)
      obtain ⟨⟨hc, -⟩, hd, -⟩ := mark_of_double (double?_eq_some_iff.1 hdouble)
      rw [segments_cons_mark hc, segments_cons_mark hd]
      simp [hw]
    · simp only [Option.map_eq_some_iff, Prod.mk.injEq] at hs
      obtain ⟨_, hsingle, rfl, rfl⟩ := hs
      rw [segments_cons_mark (mark_of_single (single?_eq_some_iff.1 hsingle)).1]
      exact List.mem_cons_of_mem _ hw

/-- The name that ends the reading is a word of the text and starts like a name. -/
theorem mem_segments_of_tokens (h : tokens t = .error (.name s)) :
    .word s ∈ segments t ∧ ∃ c ∈ s.head?, isNameStart c = true := by
  induction t using tokens.induct with
  | case1 => exact absurd h (by simp [tokens])
  | case2 c rest hb ih =>
    obtain ⟨hs, hstart⟩ := ih (tokens_of_isBlank hb ▸ h)
    rw [segments_cons_mark (not_isNameChar_of_isBlank hb)]
    exact ⟨List.mem_cons_of_mem _ hs, hstart⟩
  | case3 c rest hb hd ih =>
    rw [tokens_of_isDigit hd] at h
    have hmore : tokens (rest.dropWhile isNameChar) = .error (.name s) := by
      rcases bind_eq_error_iff.1 h with h | ⟨token, -, h⟩
      · exact absurd h literalToken_ne_name
      · rcases bind_eq_error_iff.1 h with h | ⟨more, -, h⟩
        · exact h
        · exact absurd h (by simp [pure, Except.pure])
    obtain ⟨hs, hstart⟩ := ih hmore
    obtain ⟨hsplit, -, hrest⟩ := first_word (isNameChar_of_isDigit hd) rest
    rw [hsplit, mem_segments_append_iff hrest]
    exact ⟨.inr hs, hstart⟩
  | case4 c rest hb hd hc =>
    rw [tokens_of_isNameStart hc] at h
    obtain rfl : c :: rest.takeWhile isNameChar = s := by simpa using h
    obtain ⟨hsplit, hword, hrest⟩ := first_word (isNameChar_of_isNameStart hc) rest
    refine ⟨?_, c, rfl, hc⟩
    rw [hsplit, segments_word_append hword hrest]
    exact List.mem_cons_self ..
  | case5 c rest hb hd hs token rest' hsign ih =>
    have hc : isNameChar c = false := not_isNameChar_of_neither hd hs
    rw [tokens_of_mark hc (by simpa using hb), hsign] at h
    have hmore : tokens rest' = .error (.name s) := by
      rcases bind_eq_error_iff.1 h with h | ⟨more, -, h⟩
      · exact h
      · exact absurd h (by simp [pure, Except.pure])
    obtain ⟨hin, hstart⟩ := ih hmore
    exact ⟨mem_segments_of_sign? hsign hin, hstart⟩
  | case6 c rest hb hd hs hsign =>
    have hc : isNameChar c = false := not_isNameChar_of_neither hd hs
    rw [tokens_of_mark hc (by simpa using hb), hsign] at h
    exact absurd h (by simp)

/-! ## Suffixes -/

theorem head?_stripFrom (hrest : ∀ c ∈ rest.head?, isNameChar c = false) :
    ∀ c ∈ (stripFrom before 0 rest).head?, isNameChar c = false := by
  cases rest with
  | nil => simp [stripFrom]
  | cons c rest =>
    rw [stripFrom_mark (hrest c rfl)]
    simpa using hrest

/-- A word loses nothing, or it starts with a digit. -/
theorem stripFrom_word (hw : IsWord w) (hrest : ∀ c ∈ rest.head?, isNameChar c = false)
    (before : Option Char) :
    ∃ w' before', stripFrom before 0 (w ++ rest) = w' ++ stripFrom before' 0 rest ∧ IsWord w' ∧
      (w' = w ∨ ∃ c ∈ w'.head?, c.isDigit = true) := by
  obtain ⟨c, v, rfl⟩ := List.exists_cons_of_ne_nil hw.1
  obtain ⟨hc, hmore⟩ := List.forall_mem_cons.1 hw.2
  rcases stripFrom_cases before c (v ++ rest) with h |
    ⟨lit, letters, more, before', hsplit, ⟨hlit, hdigit⟩, ⟨-, hletters⟩, hend, h⟩
  · have hchar : (some c).any isWordChar = true := isWordChar_of_isNameChar hc
    obtain ⟨before', hinside⟩ :=
      stripFrom_inside hchar (fun d hd => isWordChar_of_isNameChar (hmore d hd)) rest
    refine ⟨c :: v, before', ?_, hw, .inl rfl⟩
    rw [List.cons_append, h, hinside, List.cons_append]
  · -- the literal and its suffix are all of the word, because both end at the next mark
    have hwhole : IsWord (lit ++ letters) := by
      refine ⟨by simp [hlit.1], fun d hd => ?_⟩
      rcases List.mem_append.1 hd with hd | hd
      · exact hlit.2 d hd
      · exact isNameChar_of_isLetter (hletters d hd)
    have hmarks : ∀ d ∈ more.head?, isNameChar d = false := fun d hd =>
      not_isNameChar_of_not_isWordChar (hend d hd)
    have hsegments := congrArg segments hsplit
    rw [← List.cons_append, segments_word_append hw hrest,
      segments_word_append hwhole hmarks] at hsegments
    have hword : c :: v = lit ++ letters := Segment.word.inj (List.cons.inj hsegments).1
    rw [← List.cons_append, hword] at hsplit
    have hsame : rest = more := List.append_cancel_left hsplit
    refine ⟨lit, before', ?_, hlit, .inr hdigit⟩
    rw [List.cons_append, h, hsame]

/-- Dropping suffixes brings in no names. -/
theorem mem_segments_of_stripFrom (h : .word s ∈ segments (stripFrom before 0 t))
    (hs : ∃ c ∈ s.head?, isNameStart c = true) : .word s ∈ segments t := by
  induction t using word_induction generalizing before with
  | nil => exact h
  | mark c rest hc ih =>
    rw [stripFrom_mark hc, segments_cons_mark hc] at h
    rw [segments_cons_mark hc]
    exact List.mem_cons_of_mem _ (ih (by simpa using h))
  | word w rest hw hrest ih =>
    obtain ⟨w', before', hstrip, hword, hcase⟩ := stripFrom_word hw hrest before
    rw [hstrip, segments_word_append hword (head?_stripFrom hrest)] at h
    rw [segments_word_append hw hrest]
    rcases List.mem_cons.1 h with h | h
    · obtain rfl := Segment.word.inj h
      rcases hcase with rfl | ⟨d, hd, hdigit⟩
      · exact List.mem_cons_self ..
      · obtain ⟨c, hc, hstart⟩ := hs
        obtain rfl := Option.some.inj (hc.symm.trans hd)
        exact absurd hstart (by simp [not_isNameStart_of_isDigit hdigit])
    · exact List.mem_cons_of_mem _ (ih h)

/-! ## Values -/

/-- The symbol that leaves a text without value is a word of the text and starts like a name. -/
theorem mem_segments_of_evaluate (h : evaluate t = .error (.unresolvedSymbol s)) :
    .word s ∈ segments t ∧ ∃ c ∈ s.head?, isNameStart c = true := by
  have hname : tokens (stripSuffixes t) = .error (.name s) := by
    rw [evaluate] at h
    rcases bind_eq_error_iff.1 h with h | ⟨ts, -, h⟩
    · obtain ⟨cause, hcause, hsymbol⟩ := mapError_eq_error_iff.1 h
      cases cause with
      | name symbol =>
        obtain rfl : symbol = s := by simpa [LexError.evalError] using hsymbol
        exact hcause
      | fault cause => exact absurd hsymbol (by simp [LexError.evalError])
    · obtain ⟨cause, -, hsymbol⟩ := mapError_eq_error_iff.1 h
      exact absurd hsymbol (by simp)
  obtain ⟨hin, hstart⟩ := mem_segments_of_tokens hname
  exact ⟨mem_segments_of_stripFrom hin hstart, hstart⟩

end HeaderConstants.Expr
