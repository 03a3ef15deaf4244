import HeaderConstants.Json.Printer
import HeaderConstants.Json.Token
import HeaderConstants.Proofs.Numeral.Decimal
import HeaderConstants.Proofs.Text.Search

/-!
# Tokens of what is printed

A printed text is read character by character: one that is escaped comes back as itself or as the
unit that its escape names. A printed natural number is read up to the character behind it, which
must not go on with it.

* `Json.Reads`: the tokens of a text;
* `Json.quotedParts?_quoted`, `Json.partsText?_parts`: a quoted text;
* `Json.number?_decimal`: a natural number.
-/

namespace HeaderConstants.Json
set_option autoImplicit false

open Text

variable {c : Char} {t u rest : Text} {token : Token} {ts : List Token} {n : Nat}
  {parts : List Part}

/-- The text has these tokens, with spaces between them or without. -/
inductive Reads : Text → List Token → Prop
  | nil : Reads [] []
  | space {c : Char} {t : Text} {ts : List Token} (hc : isSpace c = true) (h : Reads t ts) :
      Reads (c :: t) ts
  | token {c : Char} {t rest : Text} {first : Token} {ts : List Token} (hc : isSpace c = false)
      (hfirst : token? (c :: t) = some (first, rest)) (hlen : rest.length ≤ t.length)
      (h : Reads rest ts) : Reads (c :: t) (first :: ts)

theorem Reads.tokensWithin?_eq (h : Reads t ts) {fuel : Nat} (hfuel : t.length ≤ fuel) :
    tokensWithin? fuel t = some ts := by
  induction h generalizing fuel with
  | nil =>
    cases fuel with
    | zero => rfl
    | succ fuel => rfl
  | space hc h ih =>
    cases fuel with
    | zero => exact absurd hfuel (Nat.not_succ_le_zero _)
    | succ fuel =>
      rw [tokensWithin?, if_pos hc]
      exact ih (Nat.le_of_succ_le_succ hfuel)
  | token hc hfirst hlen h ih =>
    cases fuel with
    | zero => exact absurd hfuel (Nat.not_succ_le_zero _)
    | succ fuel =>
      rw [tokensWithin?, if_neg (by simp [hc]), hfirst]
      simp only [ih (Nat.le_trans hlen (Nat.le_of_succ_le_succ hfuel)), Option.map_some]

theorem Reads.tokens?_eq (h : Reads t ts) : tokens? t = some ts := h.tokensWithin?_eq (Nat.le_refl _)

/-! ## Quoted texts -/

/-- How a character of a printed text is read: the controls without a letter are read as units. -/
def part (c : Char) : Part :=
  if c.toNat < 0x20 ∧ c ∉ ['\x08', '\x0c', '\n', '\r', '\t'] then .unit c.toNat else .char c

theorem read?_lowerHexDigits (hn : n < 0x20) :
    Numeral.read? 16 ['0', '0', lowerHexDigit (n / 16), lowerHexDigit (n % 16)] = some n := by
  have hall : ∀ n < 0x20,
      Numeral.read? 16 ['0', '0', lowerHexDigit (n / 16), lowerHexDigit (n % 16)] = some n := by
    decide
  exact hall n hn

theorem quotedParts?_letter {e : Char} (he : escapeChar? e = some c)
    (h : quotedParts? u = some (parts, rest)) :
    quotedParts? ('\\' :: e :: u) = some (.char c :: parts, rest) := by
  have hu : e ≠ 'u' := by
    rintro rfl
    simp [escapeChar?] at he
  simp [quotedParts?, hu, he, h]

theorem quotedParts?_plain (hquote : c ≠ '"') (hslash : c ≠ '\\') (hcontrol : ¬ c.toNat < 0x20)
    (h : quotedParts? u = some (parts, rest)) :
    quotedParts? (c :: u) = some (.char c :: parts, rest) := by
  simp [quotedParts?, hslash, hcontrol, h]

theorem quotedParts?_escaped (c : Char) (h : quotedParts? u = some (parts, rest)) :
    quotedParts? (escaped c ++ u) = some (part c :: parts, rest) := by
  unfold escaped
  split
  case h_8 _ hquote hslash hback hform hfeed hreturn htab =>
    have hletter : c ∉ ['\x08', '\x0c', '\n', '\r', '\t'] := by
      simp only [List.mem_cons, List.not_mem_nil, or_false, not_or]
      exact ⟨hback, hform, hfeed, hreturn, htab⟩
    split
    · next hcontrol =>
      rw [part, if_pos ⟨hcontrol, hletter⟩]
      simp [quotedParts?, read?_lowerHexDigits hcontrol, h]
    · next hcontrol =>
      rw [part, if_neg fun h => hcontrol h.1]
      exact quotedParts?_plain hquote hslash hcontrol h
  all_goals exact quotedParts?_letter rfl h

theorem quotedParts?_quoted (t rest : Text) :
    quotedParts? (t.flatMap escaped ++ '"' :: rest) = some (t.map part, rest) := by
  induction t with
  | nil => rfl
  | cons c t ih =>
    rw [List.flatMap_cons, List.append_assoc]
    exact quotedParts?_escaped c ih

theorem partsText?_part (c : Char) (h : partsText? parts = some t) :
    partsText? (part c :: parts) = some (c :: t) := by
  rw [part]
  split
  · next hc =>
    have hhigh : isHighSurrogate c.toNat = false := by
      simp only [isHighSurrogate, Bool.and_eq_false_iff, decide_eq_false_iff_not]
      omega
    have hlow : isLowSurrogate c.toNat = false := by
      simp only [isLowSurrogate, Bool.and_eq_false_iff, decide_eq_false_iff_not]
      omega
    cases parts with
    | nil =>
      obtain rfl := Option.some.inj h
      simp [partsText?, hhigh, hlow, Char.ofNat_toNat]
    | cons next parts => simp [partsText?, hhigh, hlow, h, Char.ofNat_toNat]
  · simp [partsText?, h]

/-- The units of a printed text are those of its controls, none of which is a surrogate. -/
theorem partsText?_parts (t : Text) : partsText? (t.map part) = some t := by
  induction t with
  | nil => rfl
  | cons c t ih => exact partsText?_part c ih

theorem Reads.quoted (h : Reads rest ts) (t : Text) :
    Reads (Json.quoted t ++ rest) (.quoted (t.map part) :: ts) := by
  have htext : Json.quoted t ++ rest = '"' :: (t.flatMap escaped ++ '"' :: rest) := by
    simp [Json.quoted]
  rw [htext]
  refine .token rfl ?_ ?_ h
  · rw [token?, quotedParts?_quoted]
    rfl
  · simp only [List.length_append, List.length_cons]
    omega

/-! ## Words and punctuation -/

theorem reads_null (h : Reads rest ts) : Reads ('n' :: 'u' :: 'l' :: 'l' :: rest) (.null :: ts) :=
  .token rfl rfl (by simp only [List.length_cons]; omega) h

theorem reads_true (h : Reads rest ts) :
    Reads ('t' :: 'r' :: 'u' :: 'e' :: rest) (.bool true :: ts) :=
  .token rfl rfl (by simp only [List.length_cons]; omega) h

theorem reads_false (h : Reads rest ts) :
    Reads ('f' :: 'a' :: 'l' :: 's' :: 'e' :: rest) (.bool false :: ts) :=
  .token rfl rfl (by simp only [List.length_cons]; omega) h

theorem reads_punctuation (h : Reads rest ts) (hc : punctuation? c = some token) :
    Reads (c :: rest) (token :: ts) := by
  unfold punctuation? at hc
  split at hc
  case h_7 => simp at hc
  all_goals
    obtain rfl := Option.some.inj hc
    exact .token rfl rfl (Nat.le_refl _) h

/-! ## Numbers -/

/-- The text does not go on with a number in front of it. -/
def EndsNumber (rest : Text) : Prop :=
  ∀ c ∈ rest.head?, c.isDigit = false ∧ c ≠ '.' ∧ c ≠ 'e' ∧ c ≠ 'E'

theorem endsNumber_cons (h : c.isDigit = false ∧ c ≠ '.' ∧ c ≠ 'e' ∧ c ≠ 'E') :
    EndsNumber (c :: rest) := by
  intro d hd
  obtain rfl := Option.some.inj hd
  exact h

theorem EndsNumber.digits (h : EndsNumber rest) (hu : ∀ c ∈ u, c.isDigit = true) :
    (u ++ rest).takeWhile Char.isDigit = u ∧ (u ++ rest).dropWhile Char.isDigit = rest :=
  takeWhile_append_stop hu fun c hc => (h c hc).1

theorem EndsNumber.fraction?_eq (h : EndsNumber rest) : fraction? rest = some ([], rest) := by
  unfold fraction?
  split
  · exact absurd rfl (h _ rfl).2.1
  · rfl

theorem EndsNumber.exponent?_eq (h : EndsNumber rest) : exponent? rest = some (none, rest) := by
  cases rest with
  | nil => rfl
  | cons c rest => exact if_neg (not_or.2 (h c rfl).2.2)

theorem wholeDigits?_decimal (n : Nat) (h : EndsNumber rest) :
    wholeDigits? (decimal n ++ rest) = some (decimal n, rest) := by
  rcases Nat.eq_zero_or_pos n with rfl | hn
  · rfl
  · obtain ⟨c, u, hu, hdigits, hzero⟩ := decimal_eq_cons n
    obtain ⟨hc, hmore⟩ := List.forall_mem_cons.1 hdigits
    obtain ⟨htake, hdrop⟩ := h.digits hmore
    rw [hu, List.cons_append]
    simp [wholeDigits?, hzero hn, hc, htake, hdrop]

theorem unsignedNumber?_decimal (n : Nat) (h : EndsNumber rest) :
    unsignedNumber? false (decimal n ++ rest) = some (.ofNat n, rest) := by
  simp [unsignedNumber?, wholeDigits?_decimal n h, h.fraction?_eq, h.exponent?_eq, Number.ofNat]

theorem ne_of_isDigit {d : Char} (hc : c.isDigit = true) (hd : d.isDigit = false) : c ≠ d := by
  rintro rfl
  exact Bool.noConfusion (hc.symm.trans hd)

theorem isSpace_of_isDigit (hc : c.isDigit = true) : isSpace c = false := by
  have hne {d : Char} : d.isDigit = false → c ≠ d := ne_of_isDigit hc
  simp only [isSpace, Bool.or_eq_false_iff, decide_eq_false_iff_not]
  exact ⟨⟨⟨hne rfl, hne rfl⟩, hne rfl⟩, hne rfl⟩

/-- A text that opens with a digit opens with a number without a sign. -/
theorem token?_of_isDigit (hc : c.isDigit = true) : token? (c :: t) =
    (unsignedNumber? false (c :: t)).map fun p => (.number p.1, p.2) := by
  have hne {d : Char} : d.isDigit = false → c ≠ d := ne_of_isDigit hc
  have hnumber : number? (c :: t) = unsignedNumber? false (c :: t) := by
    unfold number?
    split
    · next heq => exact absurd (List.cons.inj heq).1 (hne rfl)
    · rfl
  have hpunctuation : punctuation? c = none := by
    unfold punctuation?
    split
    case h_7 => rfl
    all_goals exact absurd hc (by decide)
  unfold token?
  split
  case h_6 heq =>
    obtain ⟨rfl, rfl⟩ := List.cons.inj heq
    rw [hpunctuation, hnumber]
  case h_1 heq => exact absurd heq (List.cons_ne_nil c t)
  all_goals
    next heq => exact absurd (List.cons.inj heq).1 (hne rfl)

theorem reads_decimal (n : Nat) (hrest : EndsNumber rest) (h : Reads rest ts) :
    Reads (decimal n ++ rest) (.number (.ofNat n) :: ts) := by
  obtain ⟨c, u, hu, hdigits, -⟩ := decimal_eq_cons n
  have hc : c.isDigit = true := hdigits c (List.mem_cons_self ..)
  have hnumber := unsignedNumber?_decimal n hrest
  rw [hu, List.cons_append] at hnumber ⊢
  refine .token (isSpace_of_isDigit hc) ?_ ?_ h
  · rw [token?_of_isDigit hc, hnumber]
    rfl
  · rw [List.length_append]
    exact Nat.le_add_left _ _

end HeaderConstants.Json
