import HeaderConstants.Proofs.Expr.Suffix
import HeaderConstants.Proofs.Numeral.Value
import HeaderConstants.Expr.Lexer

/-!
# How a literal is written

A literal is written in base sixteen after `0x` or `0X`, in base eight after `0`, or in base ten
without a zero in front, and it is read if it is below `2 ^ 127`. A suffix behind it has the letters
of an unsigned type, of a long type, or of both in either order. Dropping the suffixes leaves the
literal, and also a text that has the form of a literal without being one, as `09` has.

* `Expr.Spells`, `Expr.literal?_eq_some_iff`: the texts of a literal;
* `Expr.IsLiteral`, `Expr.IsSuffix`: the form of literals, and their suffixes;
* `Expr.stripSuffixes_literal`: a literal without its suffix.
-/

namespace HeaderConstants.Expr
set_option autoImplicit false

open Text Suffix Numeral

variable {base n : Nat} {c : Char} {w s t rest : Text}

/-! ## Spellings -/

/-- The text is a literal of the number. -/
inductive Spells : Text → Nat → Prop
  | hexadecimal {x : Char} {w : Text} {n : Nat} (hx : x = 'x' ∨ x = 'X')
      (hw : IsNumeral 16 w n) : Spells ('0' :: x :: w) n
  | octal {w : Text} {n : Nat} (hw : IsNumeral 8 w n) : Spells ('0' :: w) n
  | decimal {w : Text} {n : Nat} (hfirst : w.head? = some '0' → w = ['0'])
      (hw : IsNumeral 10 w n) : Spells w n

theorem isDigit_of_bounds (h : '0' ≤ c ∧ c ≤ '9') : c.isDigit = true := by
  simpa [Char.isDigit, Char.le_def] using h

theorem isHexDigit_of_isDigit (h : c.isDigit = true) : isHexDigit c = true := by
  simp [isHexDigit, h]

theorem isHexDigit_of_digitValue? {d : Nat} (h : digitValue? c = some d) :
    isHexDigit c = true := by
  unfold digitValue? at h
  split at h
  · next hc => exact isHexDigit_of_isDigit (isDigit_of_bounds hc)
  · split at h
    · next hc => simp [isHexDigit, hc]
    · split at h
      · next hc => simp [isHexDigit, hc]
      · exact absurd h (by simp)

theorem isDigit_of_digitValue? {d : Nat} (h : digitValue? c = some d) (hd : d < 10) :
    c.isDigit = true := by
  unfold digitValue? at h
  split at h
  · next hc => exact isDigit_of_bounds hc
  · split at h
    · rw [← Option.some.inj h] at hd
      omega
    · split at h
      · rw [← Option.some.inj h] at hd
        omega
      · exact absurd h (by simp)

theorem isHexDigit_of_isNumeral (h : IsNumeral base w n) : ∀ c ∈ w, isHexDigit c = true := by
  intro c hc
  obtain ⟨d, -, hd⟩ := h.exists_digit hc
  exact isHexDigit_of_digitValue? hd

theorem isDigit_of_isNumeral (h : IsNumeral base w n) (hbase : base ≤ 10) :
    ∀ c ∈ w, c.isDigit = true := by
  intro c hc
  obtain ⟨d, hlt, hd⟩ := h.exists_digit hc
  exact isDigit_of_digitValue? hd (Nat.lt_of_lt_of_le hlt hbase)

theorem literalValue?_of_hexadecimal {x : Char} (hx : x = 'x' ∨ x = 'X') (digits : Text) :
    literalValue? ('0' :: x :: digits) = read? 16 digits := by
  rcases hx with rfl | rfl <;> rfl

theorem literalValue?_of_octal {d : Char} (hx : d ≠ 'x') (hX : d ≠ 'X') (digits : Text) :
    literalValue? ('0' :: d :: digits) = read? 8 (d :: digits) := by
  rw [literalValue?]
  · exact fun h => hx h
  · exact fun h => hX h

theorem literalValue?_of_decimal (hfirst : w.head? = some '0' → w = ['0']) :
    literalValue? w = read? 10 w := by
  by_cases hzero : w.head? = some '0'
  · rw [hfirst hzero]
    rfl
  · rw [literalValue?]
    · exact fun digits h => hzero (by rw [h]; rfl)
    · exact fun digits h => hzero (by rw [h]; rfl)
    · exact fun d digits h => hzero (by rw [h]; rfl)

theorem literalValue?_cases (w : Text) :
    (∃ x digits, (x = 'x' ∨ x = 'X') ∧ w = '0' :: x :: digits) ∨
      (∃ d digits, d ≠ 'x' ∧ d ≠ 'X' ∧ w = '0' :: d :: digits) ∨
      (w.head? = some '0' → w = ['0']) := by
  match w with
  | [] => exact .inr (.inr (by simp))
  | [c] => exact .inr (.inr (by simp))
  | c :: d :: digits =>
    by_cases hc : c = '0'
    · subst hc
      by_cases hd : d = 'x' ∨ d = 'X'
      · exact .inl ⟨d, digits, hd, rfl⟩
      · rw [not_or] at hd
        exact .inr (.inl ⟨d, digits, hd.1, hd.2, rfl⟩)
    · exact .inr (.inr (by simp [hc]))

theorem literalValue?_eq_some_iff : literalValue? w = some n ↔ Spells w n := by
  constructor
  · intro hvalue
    rcases literalValue?_cases w with ⟨x, digits, hx, rfl⟩ | ⟨d, digits, hx, hX, rfl⟩ | hfirst
    · rw [literalValue?_of_hexadecimal hx, read?_eq_some_iff] at hvalue
      exact .hexadecimal hx hvalue
    · rw [literalValue?_of_octal hx hX, read?_eq_some_iff] at hvalue
      exact .octal hvalue
    · rw [literalValue?_of_decimal hfirst, read?_eq_some_iff] at hvalue
      exact .decimal hfirst hvalue
  · intro h
    cases h with
    | hexadecimal hx hw => rwa [literalValue?_of_hexadecimal hx, read?_eq_some_iff]
    | @octal digits _ hw =>
      obtain ⟨d, digits, rfl⟩ := List.exists_cons_of_ne_nil hw.1
      have hd := isDigit_of_isNumeral hw (by decide) d (List.mem_cons_self ..)
      have hx : d ≠ 'x' := fun h => absurd hd (by rw [h]; decide)
      have hX : d ≠ 'X' := fun h => absurd hd (by rw [h]; decide)
      rwa [literalValue?_of_octal hx hX, read?_eq_some_iff]
    | decimal hfirst hw => rwa [literalValue?_of_decimal hfirst, read?_eq_some_iff]

theorem literal?_eq_some_iff : literal? w = some n ↔ Spells w n ∧ n < 2 ^ 127 := by
  rw [literal?, Option.filter_eq_some_iff, decide_eq_true_eq, literalValue?_eq_some_iff]
  rfl

theorem Spells.literal?_eq_none (h : Spells w n) (hn : ¬ n < 2 ^ 127) : literal? w = none := by
  rw [literal?, literalValue?_eq_some_iff.2 h, Option.filter_some]
  exact if_neg (by simpa using hn)

/-! ## The form of a literal -/

/-- Hexadecimal digits behind `0x` or `0X`, or decimal digits. -/
def IsLiteral (w : Text) : Prop :=
  (∃ x digits, w = '0' :: x :: digits ∧ (x = 'x' ∨ x = 'X') ∧ digits ≠ [] ∧
    ∀ c ∈ digits, isHexDigit c = true) ∨
  (w ≠ [] ∧ ∀ c ∈ w, c.isDigit = true)

theorem Spells.isLiteral (h : Spells w n) : IsLiteral w := by
  cases h with
  | hexadecimal hx hw => exact .inl ⟨_, _, rfl, hx, hw.1, isHexDigit_of_isNumeral hw⟩
  | octal hw =>
    refine .inr ⟨List.cons_ne_nil _ _, List.forall_mem_cons.2 ⟨by decide, ?_⟩⟩
    exact isDigit_of_isNumeral hw (by decide)
  | decimal hfirst hw => exact .inr ⟨hw.1, isDigit_of_isNumeral hw (Nat.le_refl 10)⟩

theorem IsLiteral.matches (h : IsLiteral w) (before : Option Char) (rest : Text) :
    literal.Matches before w rest := by
  rcases h with ⟨x, digits, rfl, hx, hne, hdigits⟩ | ⟨hne, hdigits⟩
  · obtain ⟨d, digits, rfl⟩ := List.exists_cons_of_ne_nil hne
    obtain ⟨hd, hmore⟩ := List.forall_mem_cons.1 hdigits
    exact .inl ⟨['0'], x :: d :: digits, rfl, ⟨'0', rfl, by decide⟩, [x], d :: digits, rfl,
      ⟨x, rfl, by simpa using hx⟩, [d], digits, rfl, ⟨d, rfl, hd⟩, hmore⟩
  · obtain ⟨c, w, rfl⟩ := List.exists_cons_of_ne_nil hne
    obtain ⟨hc, hmore⟩ := List.forall_mem_cons.1 hdigits
    exact .inr ⟨[c], w, rfl, ⟨c, rfl, hc⟩, hmore⟩

theorem isLiteral_of_spans (h : literal.Spans w) : IsLiteral w := by
  rcases h with ⟨_, _, rfl, ⟨a, rfl, ha⟩, _, _, rfl, ⟨x, rfl, hx⟩, _, _, rfl, ⟨d, rfl, hd⟩, hmore⟩ |
    ⟨_, _, rfl, ⟨c, rfl, hc⟩, hmore⟩
  · obtain rfl : a = '0' := by simpa using ha
    exact .inl ⟨x, _, rfl, by simpa using hx, List.cons_ne_nil _ _,
      List.forall_mem_cons.2 ⟨hd, hmore⟩⟩
  · exact .inr ⟨List.cons_ne_nil _ _, List.forall_mem_cons.2 ⟨hc, hmore⟩⟩

theorem IsLiteral.spans (h : IsLiteral w) : literal.Spans w := (h.matches none []).spans

theorem IsLiteral.isDigit_head? (h : IsLiteral w) : ∃ c ∈ w.head?, c.isDigit = true :=
  (spans_literal h.spans).2

theorem IsLiteral.isLiteralChar (h : IsLiteral w) : ∀ c ∈ w, isLiteralChar c = true :=
  (spans_literal h.spans).1

theorem IsLiteral.isWord (h : IsLiteral w) : IsWord w :=
  isWord_of_isLiteralChar h.isLiteralChar h.isDigit_head?

theorem IsLiteral.not_isLetter (h : IsLiteral w) : ∀ c ∈ w, isLetter c = false :=
  fun c hc => not_isLetter_of_isLiteralChar (h.isLiteralChar c hc)

theorem Spells.isDigit_head? (h : Spells w n) : ∃ c ∈ w.head?, c.isDigit = true :=
  h.isLiteral.isDigit_head?

theorem Spells.isLiteralChar (h : Spells w n) : ∀ c ∈ w, isLiteralChar c = true :=
  h.isLiteral.isLiteralChar

theorem Spells.isWord (h : Spells w n) : IsWord w := h.isLiteral.isWord

/-! ## Suffixes -/

def unsignedLetters : List Text := [['u'], ['U']]

def longLetters : List Text := [['l'], ['L'], ['l', 'l'], ['L', 'L']]

/-- The letters of an unsigned type, of a long type or of both, or no letters. -/
inductive IsSuffix : Text → Prop
  | none : IsSuffix []
  | unsigned {u l : Text} (hu : u ∈ unsignedLetters) (hl : l ∈ [] :: longLetters) :
      IsSuffix (u ++ l)
  | long {u l : Text} (hl : l ∈ longLetters) (hu : u ∈ [] :: unsignedLetters) : IsSuffix (l ++ u)

theorem IsSuffix.isLetter (h : IsSuffix s) : ∀ c ∈ s, isLetter c = true := by
  have hunsigned : ∀ u ∈ [] :: unsignedLetters, ∀ c ∈ u, Suffix.isLetter c = true := by
    simp [unsignedLetters, Suffix.isLetter]
  have hlong : ∀ l ∈ [] :: longLetters, ∀ c ∈ l, Suffix.isLetter c = true := by
    simp [longLetters, Suffix.isLetter]
  intro c hc
  cases h with
  | none => simp at hc
  | unsigned hu hl =>
    rcases List.mem_append.1 hc with hc | hc
    · exact hunsigned _ (List.mem_cons_of_mem _ hu) c hc
    · exact hlong _ hl c hc
  | long hl hu =>
    rcases List.mem_append.1 hc with hc | hc
    · exact hlong _ (List.mem_cons_of_mem _ hl) c hc
    · exact hunsigned _ hu c hc

theorem matches_unsigned {u : Text} (hu : u ∈ unsignedLetters) (before : Option Char)
    (rest : Text) : unsigned.Matches before u rest := by
  simp only [unsignedLetters, List.mem_cons, List.not_mem_nil, or_false] at hu
  rcases hu with rfl | rfl <;> exact ⟨_, rfl, by decide⟩

theorem matches_long {l : Text} (hl : l ∈ longLetters) (before : Option Char) (rest : Text) :
    long.Matches before l rest := by
  simp only [longLetters, List.mem_cons, List.not_mem_nil, or_false] at hl
  rcases hl with rfl | rfl | rfl | rfl
  · exact .inr (.inr ⟨_, rfl, by decide⟩)
  · exact .inr (.inr ⟨_, rfl, by decide⟩)
  · exact .inl ⟨_, _, rfl, ⟨_, rfl, by decide⟩, ⟨_, rfl, by decide⟩⟩
  · exact .inr (.inl ⟨_, _, rfl, ⟨_, rfl, by decide⟩, ⟨_, rfl, by decide⟩⟩)

theorem IsSuffix.matches (h : IsSuffix s) (hs : s ≠ []) (before : Option Char) (rest : Text) :
    suffix.Matches before s rest := by
  cases h with
  | none => exact absurd rfl hs
  | unsigned hu hl =>
    refine .inl ⟨_, _, rfl, matches_unsigned hu _ _, ?_⟩
    rcases List.mem_cons.1 hl with rfl | hl
    · exact .inr rfl
    · exact .inl (matches_long hl _ _)
  | long hl hu =>
    refine .inr ⟨_, _, rfl, matches_long hl _ _, ?_⟩
    rcases List.mem_cons.1 hu with rfl | hu
    · exact .inr rfl
    · exact .inl (matches_unsigned hu _ _)

theorem isSuffix_of_spans (h : suffix.Spans s) : IsSuffix s := by
  have mem_unsigned {u : Text} (hu : unsigned.Spans u) : u ∈ unsignedLetters := by
    obtain ⟨c, rfl, hc⟩ := hu
    simpa [unsignedLetters] using hc
  have mem_long {l : Text} (hl : long.Spans l) : l ∈ longLetters := by
    rcases hl with ⟨_, _, rfl, ⟨a, rfl, ha⟩, b, rfl, hb⟩ | ⟨_, _, rfl, ⟨a, rfl, ha⟩, b, rfl, hb⟩ |
      ⟨a, rfl, ha⟩
    · simp_all [longLetters]
    · simp_all [longLetters]
    · rcases (by simpa using ha : a = 'l' ∨ a = 'L') with rfl | rfl <;> simp [longLetters]
  rcases h with ⟨u, l, rfl, hu, hl | rfl⟩ | ⟨l, u, rfl, hl, hu | rfl⟩
  · exact .unsigned (mem_unsigned hu) (List.mem_cons_of_mem _ (mem_long hl))
  · exact .unsigned (mem_unsigned hu) (List.mem_cons_self ..)
  · exact .long (mem_long hl) (List.mem_cons_of_mem _ (mem_unsigned hu))
  · exact .long (mem_long hl) (List.mem_cons_self ..)

/-! ## A literal without its suffix -/

/-- A literal with a suffix behind it is found at the start of a text. -/
theorem IsLiteral.isSome_match? (h : IsLiteral w) (hsuffix : IsSuffix s) (hs : s ≠ []) :
    (match? ⟨none, w ++ s⟩).isSome = true := by
  have hlast : isWordChar (s.getLast hs) = true :=
    isWordChar_of_isNameChar (isNameChar_of_isLetter (hsuffix.isLetter _ (List.getLast_mem hs)))
  have hend : (Pattern.andThen suffix .boundary).Matches (Pattern.last none w) s [] := by
    refine ⟨s, [], (List.append_nil s).symm, hsuffix.matches hs _ _, rfl, ?_⟩
    simp [isWordBoundary, Pattern.last, List.getLast?_eq_some_getLast hs, hlast]
  obtain ⟨c, hc, hdigit⟩ := h.isDigit_head?
  have hfirst : isWordChar c = true := isWordChar_of_isNameChar (isNameChar_of_isDigit hdigit)
  have hstart : (Pattern.andThen .boundary literal).Matches none w s := by
    refine ⟨[], w, rfl, ⟨rfl, ?_⟩, h.matches _ _⟩
    simp [isWordBoundary, List.head?_append, Option.mem_def.1 hc, hfirst]
  refine Pattern.isSome_run_of_matches hstart ?_
  show ((Pattern.andThen suffix .boundary).run _ ⟨Pattern.last none w, s⟩).isSome = true
  rw [← List.append_nil s]
  exact Pattern.isSome_run_of_matches hend rfl

/-- Letters behind other characters tell where the two parts meet. -/
theorem append_inj_of_isLetter {u v : Text} (hw : ∀ c ∈ w, isLetter c = false)
    (hs : ∀ c ∈ s, isLetter c = true) (hu : ∀ c ∈ u, isLetter c = false)
    (hv : ∀ c ∈ v, isLetter c = true) (h : w ++ s = u ++ v) : w = u ∧ s = v := by
  have hnil {m : Text} (hm : ∀ c ∈ m, isLetter c = false) (hm' : ∀ c ∈ m, isLetter c = true) :
      m = [] := by
    refine List.eq_nil_iff_forall_not_mem.2 fun c hc => ?_
    exact absurd (hm' c hc) (by simp [hm c hc])
  rcases List.append_eq_append_iff.1 h with ⟨m, rfl, rfl⟩ | ⟨m, rfl, rfl⟩
  · have hm : m = [] := hnil (fun c hc => hu c (by simp [hc])) fun c hc => hs c (by simp [hc])
    simp [hm]
  · have hm : m = [] := hnil (fun c hc => hw c (by simp [hc])) fun c hc => hv c (by simp [hc])
    simp [hm]

theorem stripSuffixes_literal (h : IsLiteral w) (hs : IsSuffix s) :
    stripSuffixes (w ++ s) = w := by
  by_cases hne : s = []
  · rw [hne, List.append_nil]
    exact (stripped_stripSuffixes w).eq_self h.not_isLetter
  · have hword : ∀ c ∈ w ++ s, isWordChar c = true := by
      intro c hc
      rcases List.mem_append.1 hc with hc | hc
      · exact isWordChar_of_isNameChar (h.isWord.2 c hc)
      · exact isWordChar_of_isNameChar (isNameChar_of_isLetter (hs.isLetter c hc))
    obtain ⟨⟨p, q⟩, hmatch⟩ := Option.isSome_iff_exists.1 (h.isSome_match? hs hne)
    obtain ⟨lit, hlit, hspans, hsuffix, hq⟩ := exists_spans_of_match?_run hword hmatch
    have hchars : ∀ c ∈ lit, isLetter c = false :=
      fun c hc => not_isLetter_of_isLiteralChar ((spans_literal hspans).1 c hc)
    obtain ⟨rfl, hletters⟩ :=
      append_inj_of_isLetter h.not_isLetter hs.isLetter hchars (spans_suffix hsuffix).2 hlit
    obtain ⟨c, w, rfl⟩ := List.exists_cons_of_ne_nil h.isWord.1
    obtain ⟨before, hskip⟩ := stripFrom_skip (some c) (w ++ s) []
    rw [List.append_nil] at hskip
    have hlen : (w ++ s).length + 1 - s.length = (c :: w).length := by
      simp only [List.length_append, List.length_cons]
      omega
    rw [List.cons_append] at hmatch
    rw [stripSuffixes, List.cons_append, stripFrom, hmatch]
    simp only [hq, ← hletters, List.length_nil, Nat.sub_zero, hskip, hlen]
    rw [← List.cons_append, List.take_left, stripFrom, List.append_nil]

end HeaderConstants.Expr
