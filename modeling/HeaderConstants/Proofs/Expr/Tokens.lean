import HeaderConstants.Proofs.Expr.Literal
import HeaderConstants.Proofs.Result

/-!
# What the tokens tell of a text

A text has the tokens that it is read as, unless a literal among them has more than 128 bits: a
literal goes on to the end of its word, and a sign of one character is not the start of a sign of
two. A text with tokens has no names, not even before it lost its suffixes. A parenthesis is a token
of its own, and the two sides of it are read apart. What ends an operand in the text is the last
token of an operand, and what begins one is the first.

* `Expr.Token.sign`: the signs;
* `Expr.Reads`, `Expr.tokens_eq_ok_iff`: how a text is read, sign by sign and literal by literal;
* `Expr.nameFree_of_tokens`: no word of the text is a name;
* `Expr.tokens_append_paren`: the two sides of a parenthesis.
-/

namespace HeaderConstants.Expr
set_option autoImplicit false

open Text

variable {c d : Char} {t t' u w : Text} {token : Token} {ts : List Token}

/-! ## Signs -/

/-- How a sign is written. A literal is no sign. -/
def Token.sign : Token → Text
  | int _ => []
  | leftParen => ['(']
  | rightParen => [')']
  | plus => ['+']
  | minus => ['-']
  | star => ['*']
  | slash => ['/']
  | percent => ['%']
  | shl => ['<', '<']
  | shr => ['>', '>']
  | amp => ['&']
  | pipe => ['|']
  | caret => ['^']
  | tilde => ['~']
  | not => ['!']
  | andAnd => ['&', '&']
  | orOr => ['|', '|']
  | eq => ['=', '=']
  | ne => ['!', '=']
  | lt => ['<']
  | gt => ['>']
  | le => ['<', '=']
  | ge => ['>', '=']

theorem single?_eq_some_iff : Token.single? c = some token ↔ token.sign = [c] := by
  constructor
  · intro h
    unfold Token.single? at h
    split at h
    all_goals first
      | exact Option.some.inj h ▸ rfl
      | exact absurd h (by simp)
  · intro h
    cases token <;> simp [Token.sign] at h <;> subst h <;> rfl

theorem double?_eq_some_iff : Token.double? c d = some token ↔ token.sign = [c, d] := by
  constructor
  · intro h
    unfold Token.double? at h
    split at h
    all_goals first
      | exact Option.some.inj h ▸ rfl
      | exact absurd h (by simp)
  · intro h
    cases token <;> simp [Token.sign] at h <;> obtain ⟨rfl, rfl⟩ := h <;> rfl

theorem double?_eq_none_iff :
    Token.double? c d = none ↔ ∀ longer : Token, longer.sign ≠ [c, d] := by
  simp only [Option.eq_none_iff_forall_ne_some, ne_eq, double?_eq_some_iff]

theorem int_ne_of_sign {n : Nat} (h : token.sign = c :: t) : token ≠ .int n := by
  rintro rfl
  exact absurd h (List.cons_ne_nil _ _).symm

theorem mark_of_single (h : token.sign = [c]) : isNameChar c = false ∧ isBlank c = false := by
  cases token <;> simp [Token.sign] at h <;> subst h <;> decide

theorem mark_of_double (h : token.sign = [c, d]) :
    (isNameChar c = false ∧ isBlank c = false) ∧ isNameChar d = false ∧ d ≠ ')' := by
  cases token <;> simp [Token.sign] at h <;> obtain ⟨rfl, rfl⟩ := h <;> decide

/-- The token of a parenthesis. -/
def paren? : Char → Option Token
  | '(' => some .leftParen
  | ')' => some .rightParen
  | _ => none

theorem paren?_open : paren? '(' = some .leftParen := rfl

theorem paren?_close : paren? ')' = some .rightParen := rfl

theorem paren_of_paren? (h : paren? c = some token) :
    Token.single? c = some token ∧ isWordChar c = false ∧ ∀ d, Token.double? d c = none ∧
      Token.double? c d = none := by
  unfold paren? at h
  split at h
  · obtain rfl := Option.some.inj h
    refine ⟨rfl, by decide, fun d => ⟨?_, ?_⟩⟩ <;> simp [Token.double?]
  · obtain rfl := Option.some.inj h
    refine ⟨rfl, by decide, fun d => ⟨?_, ?_⟩⟩ <;> simp [Token.double?]
  · exact absurd h (by simp)

/-! ## Reading from the left -/

theorem tokens_of_isBlank (hc : isBlank c = true) : tokens (c :: t) = tokens t := by
  rw [tokens, if_pos hc]

theorem tokens_of_isDigit (hc : c.isDigit = true) :
    tokens (c :: t) = (do
      let token ← literalToken (c :: t.takeWhile isNameChar)
      let more ← tokens (t.dropWhile isNameChar)
      pure (token :: more)) := by
  have hb := not_isBlank_of_isNameChar (isNameChar_of_isDigit hc)
  rw [tokens, if_neg (by simp [hb]), if_pos hc]

theorem tokens_of_isNameStart (hc : isNameStart c = true) :
    tokens (c :: t) = .error (.name (c :: t.takeWhile isNameChar)) := by
  have hb := not_isBlank_of_isNameChar (isNameChar_of_isNameStart hc)
  have hd : ¬ c.isDigit = true := fun h => by simp [not_isNameStart_of_isDigit h] at hc
  rw [tokens, if_neg (by simp [hb]), if_neg hd, if_pos hc]

theorem tokens_of_mark (hc : isNameChar c = false) (hb : isBlank c = false) :
    tokens (c :: t) = match sign? (c :: t) with
      | some (token, rest) => do
        let more ← tokens rest
        pure (token :: more)
      | none => .error (.fault (.unsupported c)) := by
  have hd := not_isDigit_of_not_isNameChar hc
  have hs := not_isNameStart_of_not_isNameChar hc
  rw [tokens, if_neg (by simp [hb]), if_neg (by simp [hd]), if_neg (by simp [hs])]
  split <;> simp_all

/-- The text is read as these tokens, each as long as it can be. -/
inductive Reads : Text → List Token → Prop
  | nil : Reads [] []
  | blank {c : Char} {t : Text} {ts : List Token} (hc : isBlank c = true) (h : Reads t ts) :
      Reads (c :: t) ts
  | literal {w t : Text} {n : Nat} {ts : List Token} (hw : Spells w n)
      (ht : ∀ c ∈ t.head?, isNameChar c = false) (h : Reads t ts) : Reads (w ++ t) (.int n :: ts)
  | single {c : Char} {t : Text} {token : Token} {ts : List Token} (hc : token.sign = [c])
      (ht : ∀ d ∈ t.head?, ∀ longer : Token, longer.sign ≠ [c, d]) (h : Reads t ts) :
      Reads (c :: t) (token :: ts)
  | double {c d : Char} {t : Text} {token : Token} {ts : List Token} (hc : token.sign = [c, d])
      (h : Reads t ts) : Reads (c :: d :: t) (token :: ts)

theorem Reads.sign {rest : Text} (h : Reads rest ts) (hs : sign? t = some (token, rest)) :
    Reads t (token :: ts) := by
  match t with
  | [] => simp [sign?] at hs
  | [c] =>
    simp only [sign?, Option.map_eq_some_iff, Prod.mk.injEq] at hs
    obtain ⟨_, hc, rfl, rfl⟩ := hs
    exact .single (single?_eq_some_iff.1 hc) (by simp) h
  | c :: d :: more =>
    simp only [sign?] at hs
    split at hs
    · next hc =>
      obtain ⟨rfl, rfl⟩ := Prod.mk.inj (Option.some.inj hs)
      exact .double (double?_eq_some_iff.1 hc) h
    · next hnone =>
      simp only [Option.map_eq_some_iff, Prod.mk.injEq] at hs
      obtain ⟨_, hc, rfl, rfl⟩ := hs
      exact .single (single?_eq_some_iff.1 hc) (by simpa using double?_eq_none_iff.1 hnone) h

theorem reads_of_tokens (h : tokens t = .ok ts) : Reads t ts := by
  induction t using tokens.induct generalizing ts with
  | case1 =>
    rw [tokens] at h
    exact Except.ok.inj h ▸ .nil
  | case2 c rest hb ih => exact .blank hb (ih (tokens_of_isBlank hb ▸ h))
  | case3 c rest hb hd ih =>
    obtain ⟨hsplit, -, hrest⟩ := first_word (isNameChar_of_isDigit hd) rest
    rw [tokens_of_isDigit hd, bind_eq_ok_iff] at h
    obtain ⟨token, htoken, h⟩ := h
    obtain ⟨more, hmore, h⟩ := bind_eq_ok_iff.1 h
    obtain rfl := Except.ok.inj h
    rw [literalToken] at htoken
    split at htoken
    · next hvalue =>
      obtain rfl := Except.ok.inj htoken
      rw [hsplit]
      exact .literal (literal?_eq_some_iff.1 hvalue).1 hrest (ih hmore)
    · exact absurd htoken (by simp)
  | case4 c rest hb hd hs =>
    rw [tokens_of_isNameStart hs] at h
    exact absurd h (by simp)
  | case5 c rest hb hd hs token rest' hsign ih =>
    have hc : isNameChar c = false := not_isNameChar_of_neither hd hs
    rw [tokens_of_mark hc (by simpa using hb), hsign] at h
    obtain ⟨more, hmore, h⟩ := bind_eq_ok_iff.1 h
    exact Except.ok.inj h ▸ (ih hmore).sign hsign
  | case6 c rest hb hd hs hsign =>
    have hc : isNameChar c = false := not_isNameChar_of_neither hd hs
    rw [tokens_of_mark hc (by simpa using hb), hsign] at h
    exact absurd h (by simp)

theorem sign?_of_single (hc : token.sign = [c])
    (ht : ∀ d ∈ t.head?, ∀ longer : Token, longer.sign ≠ [c, d]) :
    sign? (c :: t) = some (token, t) := by
  have hsingle := single?_eq_some_iff.2 hc
  cases t with
  | nil => simp [sign?, hsingle]
  | cons d t => simp [sign?, hsingle, double?_eq_none_iff.2 (ht d rfl)]

theorem tokens_of_sign (hc : isNameChar c = false) (hb : isBlank c = false)
    (hs : sign? (c :: t) = some (token, t')) :
    tokens (c :: t) = (do
      let more ← tokens t'
      pure (token :: more)) := by
  rw [tokens_of_mark hc hb, hs]

theorem tokens_of_spells {n : Nat} (hw : Spells w n) (ht : ∀ c ∈ t.head?, isNameChar c = false) :
    tokens (w ++ t) = (do
      let token ← literalToken w
      let more ← tokens t
      pure (token :: more)) := by
  have hword := hw.isWord
  obtain ⟨c, hc, hdigit⟩ := hw.isDigit_head?
  obtain ⟨w, rfl⟩ := List.head?_eq_some_iff.1 hc
  have hrest : ∀ d ∈ w, isNameChar d = true := fun d hd => hword.2 d (List.mem_cons_of_mem c hd)
  obtain ⟨htake, hdrop⟩ := takeWhile_append_stop hrest ht
  rw [List.cons_append, tokens_of_isDigit hdigit, htake, hdrop]

/-- The literals among the tokens have 128 bits. -/
def LiteralsFit (ts : List Token) : Prop := ∀ n, .int n ∈ ts → n < 2 ^ 127

theorem literalsFit_cons_iff :
    LiteralsFit (token :: ts) ↔ (∀ n, token = .int n → n < 2 ^ 127) ∧ LiteralsFit ts := by
  simp only [LiteralsFit, List.mem_cons, or_imp, forall_and, eq_comm]

/-- What is read has tokens if its literals have 128 bits, and has an invalid literal if not. -/
theorem Reads.tokens_cases (h : Reads t ts) :
    (LiteralsFit ts ∧ tokens t = .ok ts) ∨
      (¬ LiteralsFit ts ∧ ∃ w, tokens t = .error (.fault (.invalidLiteral w))) := by
  have sign {t t' : Text} {token : Token} {ts : List Token} (htoken : ∀ n, token ≠ .int n)
      (ht : tokens t = (do
        let more ← tokens t'
        pure (token :: more)))
      (ih : (LiteralsFit ts ∧ tokens t' = .ok ts) ∨
        (¬ LiteralsFit ts ∧ ∃ w, tokens t' = .error (.fault (.invalidLiteral w)))) :
      (LiteralsFit (token :: ts) ∧ tokens t = .ok (token :: ts)) ∨
        (¬ LiteralsFit (token :: ts) ∧ ∃ w, tokens t = .error (.fault (.invalidLiteral w))) := by
    rw [literalsFit_cons_iff, and_iff_right fun n he => absurd he (htoken n), ht]
    rcases ih with ⟨hfit, hmore⟩ | ⟨hfit, w, hmore⟩
    · exact .inl ⟨hfit, by rw [hmore]; rfl⟩
    · exact .inr ⟨hfit, w, by rw [hmore]; rfl⟩
  induction h with
  | nil => exact .inl ⟨by simp [LiteralsFit], by rw [tokens]⟩
  | blank hc h ih => rwa [tokens_of_isBlank hc]
  | @literal w t n ts hw ht h ih =>
    have hint : (∀ m, Token.int n = .int m → m < 2 ^ 127) ↔ n < 2 ^ 127 := by simp
    rw [tokens_of_spells hw ht, literalToken, literalsFit_cons_iff, hint]
    by_cases hn : n < 2 ^ 127
    · rw [literal?_eq_some_iff.2 ⟨hw, hn⟩, and_iff_right hn]
      rcases ih with ⟨hfit, hmore⟩ | ⟨hfit, w, hmore⟩
      · exact .inl ⟨hfit, by rw [hmore]; rfl⟩
      · exact .inr ⟨hfit, w, by rw [hmore]; rfl⟩
    · rw [hw.literal?_eq_none hn]
      exact .inr ⟨fun hfit => hn hfit.1, w, rfl⟩
  | single hc ht h ih =>
    obtain ⟨hname, hblank⟩ := mark_of_single hc
    have hsign := tokens_of_sign hname hblank (sign?_of_single hc ht)
    exact sign (fun n => int_ne_of_sign hc) hsign ih
  | @double c d t token ts hc h ih =>
    obtain ⟨⟨hname, hblank⟩, -⟩ := mark_of_double hc
    have hsign : sign? (c :: d :: t) = some (token, t) := by
      simp [sign?, double?_eq_some_iff.2 hc]
    exact sign (fun n => int_ne_of_sign hc) (tokens_of_sign hname hblank hsign) ih

/-- The tokens of a text are those that it is read as. -/
theorem tokens_eq_ok_iff : tokens t = .ok ts ↔ Reads t ts ∧ LiteralsFit ts := by
  constructor
  · intro hts
    have h := reads_of_tokens hts
    rcases h.tokens_cases with ⟨hfit, -⟩ | ⟨-, w, herror⟩
    · exact ⟨h, hfit⟩
    · exact absurd (hts.symm.trans herror) (by simp)
  · rintro ⟨h, hfit⟩
    rcases h.tokens_cases with ⟨-, hts⟩ | ⟨hwide, -⟩
    · exact hts
    · exact absurd hfit hwide

theorem Reads.unique {ts' : List Token} (h : Reads t ts) (hfit : LiteralsFit ts)
    (h' : Reads t ts') : ts = ts' := by
  have hts := tokens_eq_ok_iff.2 ⟨h, hfit⟩
  rcases h'.tokens_cases with ⟨-, hts'⟩ | ⟨-, w, herror⟩
  · exact Except.ok.inj (hts.symm.trans hts')
  · exact absurd (hts.symm.trans herror) (by simp)

/-! ## No names -/

/-- No word of the text is a name; the flag tells whether a word goes on from before. -/
def NameFree : Bool → Text → Prop
  | _, [] => True
  | inWord, c :: t => (inWord = false → isNameStart c = false) ∧ NameFree (isNameChar c) t

theorem NameFree.continued (h : NameFree false t) : NameFree true t := by
  cases t with
  | nil => trivial
  | cons c t => exact ⟨by simp, h.2⟩

theorem nameFree_true_append (hu : ∀ c ∈ u, isNameChar c = true) :
    NameFree true (u ++ w) ↔ NameFree true w := by
  induction u with
  | nil => rfl
  | cons c u ih =>
    rw [List.cons_append, NameFree, hu c (List.mem_cons_self ..),
      ih fun d hd => hu d (List.mem_cons_of_mem c hd)]
    simp

theorem nameFree_word_append (hu : IsWord u) {inWord : Bool} :
    NameFree inWord (u ++ w) ↔
      (inWord = false → ∀ c ∈ u.head?, isNameStart c = false) ∧ NameFree true w := by
  obtain ⟨c, u, rfl⟩ := List.exists_cons_of_ne_nil hu.1
  rw [List.cons_append, NameFree, hu.2 c (List.mem_cons_self ..),
    nameFree_true_append fun d hd => hu.2 d (List.mem_cons_of_mem c hd)]
  simp

theorem NameFree.of_stripped {inWord : Bool} (h : Stripped t t') (ht : NameFree inWord t') :
    NameFree inWord t := by
  induction h generalizing inWord with
  | nil => exact ht
  | keep c h ih => exact ⟨ht.1, ih ht.2⟩
  | drop hlit hne hletters h ih =>
    rw [nameFree_word_append hlit] at ht
    rw [List.append_assoc, nameFree_word_append hlit,
      nameFree_true_append fun c hc => Suffix.isNameChar_of_isLetter (hletters c hc)]
    exact ⟨ht.1, ih ht.2⟩

theorem Reads.nameFree (h : Reads t ts) : NameFree false t := by
  have mark {c : Char} {t : Text} (hc : isNameChar c = false) (ht : NameFree false t) :
      NameFree false (c :: t) := by
    exact ⟨fun _ => not_isNameStart_of_not_isNameChar hc, hc ▸ ht⟩
  induction h with
  | nil => trivial
  | blank hc h ih => exact mark (not_isNameChar_of_isBlank hc) ih
  | literal hw ht h ih =>
    rw [nameFree_word_append hw.isWord]
    refine ⟨fun _ c hc => ?_, ih.continued⟩
    obtain ⟨d, hd, hdigit⟩ := hw.isDigit_head?
    obtain rfl := Option.some.inj (hd.symm.trans hc)
    exact not_isNameStart_of_isDigit hdigit
  | single hc ht h ih => exact mark (mark_of_single hc).1 ih
  | double hc h ih =>
    have hmarks := mark_of_double hc
    exact mark hmarks.1.1 (mark hmarks.2.1 ih)

theorem NameFree.head?_of_mem_segments (h : NameFree false t) (hw : .word w ∈ segments t) :
    ∀ c ∈ w.head?, isNameStart c = false := by
  induction t using word_induction with
  | nil => simp [segments] at hw
  | mark c rest hc ih =>
    rw [segments_cons_mark hc] at hw
    exact ih (by simpa [NameFree, hc] using h.2) (by simpa using hw)
  | word v rest hv hrest ih =>
    rw [nameFree_word_append hv] at h
    rw [segments_word_append hv hrest] at hw
    rcases List.mem_cons.1 hw with hw | hw
    · exact Segment.word.inj hw ▸ h.1 rfl
    · refine ih ?_ hw
      cases rest with
      | nil => trivial
      | cons c rest =>
        exact ⟨fun _ => not_isNameStart_of_not_isNameChar (hrest c rfl), h.2.2⟩

/-- No word of a text that has tokens without its suffixes is a name. -/
theorem nameFree_of_tokens (h : tokens (stripSuffixes t) = .ok ts) : NameFree false t :=
  (reads_of_tokens h).nameFree.of_stripped (stripped_stripSuffixes t)

theorem Reads.underscore_not_mem (h : Reads t ts) : '_' ∉ t := by
  have hmark {c : Char} (hc : isNameChar c = false) : '_' ≠ c := by
    rintro rfl
    exact absurd hc (by decide)
  induction h with
  | nil => exact List.not_mem_nil
  | blank hc h ih =>
    exact List.not_mem_cons_of_ne_of_not_mem (hmark (not_isNameChar_of_isBlank hc)) ih
  | literal hw ht h ih =>
    refine fun hmem => (List.mem_append.1 hmem).elim (fun hmem => ?_) ih
    exact absurd (hw.isLiteralChar _ hmem) (by decide)
  | single hc ht h ih =>
    exact List.not_mem_cons_of_ne_of_not_mem (hmark (mark_of_single hc).1) ih
  | double hc h ih =>
    obtain ⟨⟨hfirst, -⟩, hsecond, -⟩ := mark_of_double hc
    exact List.not_mem_cons_of_ne_of_not_mem (hmark hfirst)
      (List.not_mem_cons_of_ne_of_not_mem (hmark hsecond) ih)

/-- A text that has tokens without its suffixes has no underscore. -/
theorem underscore_not_mem_of_tokens (h : tokens (stripSuffixes t) = .ok ts) : '_' ∉ t :=
  fun hmem => (reads_of_tokens h).underscore_not_mem
    ((stripped_stripSuffixes t).mem_of_not_isLetter hmem (by decide))

/-! ## The two sides of a parenthesis -/

theorem takeWhile_isNameChar_append_cons (hc : isNameChar c = false) :
    (u ++ c :: w).takeWhile isNameChar = u.takeWhile isNameChar := by
  induction u with
  | nil => simp [hc]
  | cons a u ih => simp only [List.cons_append, List.takeWhile_cons, ih]

theorem dropWhile_isNameChar_append_cons (hc : isNameChar c = false) :
    (u ++ c :: w).dropWhile isNameChar = u.dropWhile isNameChar ++ c :: w := by
  induction u with
  | nil => simp [hc]
  | cons a u ih =>
    simp only [List.cons_append, List.dropWhile_cons, ih]
    split <;> rfl

theorem sign?_append_cons (hd : ∀ d, Token.double? d c = none) (a : Char) :
    sign? (a :: (u ++ c :: w)) = (sign? (a :: u)).map (Prod.map id (· ++ c :: w)) := by
  cases u with
  | nil =>
    simp only [List.nil_append, sign?, hd]
    cases Token.single? a <;> rfl
  | cons b u =>
    simp only [List.cons_append, sign?]
    cases Token.double? a b with
    | some token => rfl
    | none => cases Token.single? a <;> rfl

theorem tokens_append_paren (hc : paren? c = some token) :
    tokens (u ++ c :: w) = (do
      let before ← tokens u
      let after ← tokens w
      pure (before ++ token :: after)) := by
  obtain ⟨hsingle, hword, hdouble⟩ := paren_of_paren? hc
  obtain ⟨hname, hblank⟩ := mark_of_single (single?_eq_some_iff.1 hsingle)
  induction u using tokens.induct with
  | case1 =>
    have hsign : sign? (c :: w) = some (token, w) := by
      cases w with
      | nil => rw [sign?, hsingle]; rfl
      | cons d w => rw [sign?, (hdouble d).2, hsingle]; rfl
    rw [List.nil_append, tokens_of_mark hname hblank, hsign, tokens]
    rfl
  | case2 a rest hb ih =>
    rw [List.cons_append, tokens_of_isBlank hb, tokens_of_isBlank hb, ih]
  | case3 a rest hb hd ih =>
    rw [List.cons_append, tokens_of_isDigit hd, tokens_of_isDigit hd,
      takeWhile_isNameChar_append_cons hname, dropWhile_isNameChar_append_cons hname, ih]
    simp only [bind_assoc, pure_bind, List.cons_append]
  | case4 a rest hb hd hs =>
    rw [List.cons_append, tokens_of_isNameStart hs, tokens_of_isNameStart hs,
      takeWhile_isNameChar_append_cons hname]
    rfl
  | case5 a rest hb hd hs first rest' hsign ih =>
    have ha : isNameChar a = false := not_isNameChar_of_neither hd hs
    have hab : isBlank a = false := by simpa using hb
    rw [List.cons_append, tokens_of_mark ha hab, tokens_of_mark ha hab,
      sign?_append_cons fun d => (hdouble d).1, hsign]
    simp only [Option.map_some, Prod.map, id, ih, bind_assoc, pure_bind, List.cons_append]
  | case6 a rest hb hd hs hsign =>
    have ha : isNameChar a = false := not_isNameChar_of_neither hd hs
    have hab : isBlank a = false := by simpa using hb
    rw [List.cons_append, tokens_of_mark ha hab, tokens_of_mark ha hab,
      sign?_append_cons fun d => (hdouble d).1, hsign]
    rfl

/-! ## The ends of operands -/

/-- The token ends an operand. -/
def EndToken : Token → Prop
  | .int _ => True
  | .rightParen => True
  | _ => False

/-- The token begins an operand that is no operator. -/
def StartToken : Token → Prop
  | .int _ => True
  | .leftParen => True
  | _ => False

theorem endToken_of_single (hc : token.sign = [c]) (h : isNameChar c = true ∨ c = ')') :
    EndToken token := by
  rcases h with hn | rfl
  · exact absurd hn (by simp [(mark_of_single hc).1])
  · obtain rfl : Token.rightParen = token := Option.some.inj (single?_eq_some_iff.2 hc)
    trivial

theorem startToken_of_single (hc : token.sign = [c]) (h : isNameChar c = true ∨ c = '(') :
    StartToken token := by
  rcases h with hn | rfl
  · exact absurd hn (by simp [(mark_of_single hc).1])
  · obtain rfl : Token.leftParen = token := Option.some.inj (single?_eq_some_iff.2 hc)
    trivial

theorem endsOperand_append_iff (hw : w ≠ []) : EndsOperand (u ++ w) ↔ EndsOperand w := by
  refine ⟨fun ⟨c, hc, h⟩ => ⟨c, ?_, h⟩, endsOperand_append⟩
  rw [Option.mem_def, List.getLast?_append, List.getLast?_eq_some_getLast hw] at hc
  exact (List.getLast?_eq_some_getLast hw).trans hc

theorem Reads.eq_nil (h : Reads [] ts) : ts = [] := by
  generalize he : ([] : Text) = t at h
  cases h with
  | nil => rfl
  | literal hw => exact absurd (List.append_eq_nil_iff.1 he.symm).1 hw.isWord.1
  | blank => exact absurd he (List.cons_ne_nil _ _).symm
  | single => exact absurd he (List.cons_ne_nil _ _).symm
  | double => exact absurd he (List.cons_ne_nil _ _).symm

theorem endsOperand_singleton_iff : EndsOperand [c] ↔ isNameChar c = true ∨ c = ')' := by
  simp [EndsOperand]

/-- The last token behind a first one is that of the rest of the text, if there is a rest. -/
theorem Reads.endToken_cons (h : Reads t ts) (ht : EndsOperand (u ++ t))
    (hu : EndsOperand u → EndToken token)
    (ih : EndsOperand t → ∃ last ∈ ts.getLast?, EndToken last) :
    ∃ last ∈ (token :: ts).getLast?, EndToken last := by
  by_cases ht0 : t = []
  · subst ht0
    rw [List.append_nil] at ht
    rw [h.eq_nil]
    exact ⟨token, rfl, hu ht⟩
  · obtain ⟨last, hlast, hend⟩ := ih ((endsOperand_append_iff ht0).1 ht)
    have hne : ts ≠ [] := fun he => by simp [he] at hlast
    exact ⟨last, by rwa [List.getLast?_cons_of_ne_nil hne], hend⟩

theorem Reads.endToken (h : Reads t ts) (ht : EndsOperand t) :
    ∃ last ∈ ts.getLast?, EndToken last := by
  induction h with
  | nil =>
    obtain ⟨c, hc, -⟩ := ht
    exact absurd hc (by simp)
  | @blank c t ts hc h ih =>
    by_cases ht0 : t = []
    · rw [ht0, endsOperand_singleton_iff, not_isNameChar_of_isBlank hc] at ht
      obtain rfl := ht.resolve_left (by simp)
      exact absurd hc (by decide)
    · exact ih ((endsOperand_append_iff (u := [c]) ht0).1 ht)
  | literal hw ht' h ih => exact h.endToken_cons ht (fun _ => trivial) ih
  | @single c t token ts hc ht' h ih =>
    refine h.endToken_cons (u := [c]) ht (fun hu => ?_) ih
    exact endToken_of_single hc (endsOperand_singleton_iff.1 hu)
  | @double c d t token ts hc h ih =>
    refine h.endToken_cons (u := [c, d]) ht (fun hu => ?_) ih
    obtain ⟨-, hd, hd'⟩ := mark_of_double hc
    have hlast : EndsOperand [d] := (endsOperand_append_iff (u := [c]) (by simp)).1 hu
    rw [endsOperand_singleton_iff, hd] at hlast
    exact absurd (hlast.resolve_left (by simp)) hd'

theorem Reads.startToken (h : Reads t ts) (ht : BeginsOperand t) :
    ∃ first ∈ ts.head?, StartToken first := by
  cases h with
  | nil =>
    obtain ⟨c, hc, -⟩ := ht
    exact absurd hc (by simp)
  | blank hc h =>
    obtain ⟨c, he, hbegin⟩ := ht
    obtain rfl := Option.some.inj he
    rw [not_isNameChar_of_isBlank hc] at hbegin
    obtain rfl := hbegin.resolve_left (by simp)
    exact absurd hc (by decide)
  | literal hw ht' h => exact ⟨_, rfl, trivial⟩
  | single hc ht' h =>
    obtain ⟨c, he, hbegin⟩ := ht
    obtain rfl := Option.some.inj he
    exact ⟨_, rfl, startToken_of_single hc hbegin⟩
  | @double _ _ _ token _ hc h =>
    obtain ⟨c, he, hbegin⟩ := ht
    obtain rfl := Option.some.inj he
    rw [(mark_of_double hc).1.1] at hbegin
    obtain rfl := hbegin.resolve_left (by simp)
    exact absurd hc (by cases token <;> simp [Token.sign])

end HeaderConstants.Expr
