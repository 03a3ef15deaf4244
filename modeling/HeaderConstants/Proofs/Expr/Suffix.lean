import HeaderConstants.Expr.Suffix
import HeaderConstants.Proofs.Text.Char
import HeaderConstants.Proofs.Text.Jam
import HeaderConstants.Proofs.Text.Pattern

/-!
# What loses its suffix

Dropping suffixes keeps every literal and every other character, and takes letters away only behind
a literal. It acts on the two sides of a character that is no word character apart.

* `Expr.Stripped`: a text with suffixes, and without some of them;
* `Expr.stripped_stripSuffixes`: what dropping suffixes does;
* `Expr.stripSuffixes_append_cons`: the two sides of a separator.
-/

namespace HeaderConstants.Expr
set_option autoImplicit false

open Text Suffix
open Text.Pattern (Spans Avoids)

variable {c : Char} {t t' u w : Text}

namespace Suffix

def isLetter (c : Char) : Bool := c = 'u' || c = 'U' || c = 'l' || c = 'L'

theorem isNameChar_of_isLetter (h : isLetter c = true) : isNameChar c = true := by
  simp only [isLetter, Bool.or_eq_true, decide_eq_true_eq, or_assoc] at h
  rcases h with rfl | rfl | rfl | rfl <;> decide

theorem isNameChar_of_isHexDigit (h : isHexDigit c = true) : isNameChar c = true := by
  simp only [isHexDigit, Bool.or_eq_true, Bool.and_eq_true, decide_eq_true_eq, Char.le_def,
    UInt32.le_iff_toNat_le, isDigit_iff] at h
  rw [isNameChar_iff, isNameStart_iff, isDigit_iff]
  change (_ ∨ 97 ≤ c.toNat ∧ c.toNat ≤ 102) ∨ 65 ≤ c.toNat ∧ c.toNat ≤ 70 at h
  omega

/-- A hexadecimal digit, or the letter after the zero in front of hexadecimal digits. -/
def isLiteralChar (c : Char) : Bool := isHexDigit c || c = 'x' || c = 'X'

theorem isNameChar_of_isLiteralChar (h : isLiteralChar c = true) : isNameChar c = true := by
  simp only [isLiteralChar, Bool.or_eq_true, decide_eq_true_eq, or_assoc] at h
  rcases h with h | rfl | rfl
  · exact isNameChar_of_isHexDigit h
  · decide
  · decide

theorem not_isLetter_of_isLiteralChar (h : isLiteralChar c = true) : isLetter c = false := by
  rw [← Bool.not_eq_true]
  intro hletter
  simp only [isLetter, Bool.or_eq_true, decide_eq_true_eq, or_assoc] at hletter
  rcases hletter with rfl | rfl | rfl | rfl <;> exact absurd h (by decide)

theorem isLiteralChar_of_isHexDigit (h : isHexDigit c = true) : isLiteralChar c = true := by
  simp [isLiteralChar, h]

theorem isLiteralChar_of_isDigit (h : c.isDigit = true) : isLiteralChar c = true :=
  isLiteralChar_of_isHexDigit (by simp [isHexDigit, h])

theorem spans_literal (h : literal.Spans w) :
    (∀ c ∈ w, isLiteralChar c = true) ∧ ∃ c ∈ w.head?, c.isDigit = true := by
  rcases h with ⟨_, _, rfl, ⟨a, rfl, ha⟩, _, _, rfl, ⟨b, rfl, hb⟩, _, _, rfl, ⟨d, rfl, hd⟩, hmore⟩ |
    ⟨_, _, rfl, ⟨a, rfl, ha⟩, hmore⟩
  · have ha0 : a = '0' := by simpa using ha
    refine ⟨fun c hc => ?_, '0', by simp [ha0], by decide⟩
    simp only [List.mem_append, List.mem_singleton] at hc
    rcases hc with rfl | rfl | rfl | hc
    · rw [ha0]; decide
    · simp only [isLiteralChar, Bool.or_assoc, hb, Bool.or_true]
    · exact isLiteralChar_of_isHexDigit hd
    · exact isLiteralChar_of_isHexDigit (hmore c hc)
  · refine ⟨fun c hc => ?_, a, by simp, ha⟩
    simp only [List.mem_append, List.mem_singleton] at hc
    rcases hc with rfl | hc
    · exact isLiteralChar_of_isDigit ha
    · exact isLiteralChar_of_isDigit (hmore c hc)

theorem isWord_of_isLiteralChar (h : ∀ c ∈ w, isLiteralChar c = true)
    (hhead : ∃ c ∈ w.head?, c.isDigit = true) : IsWord w := by
  refine ⟨?_, fun c hc => isNameChar_of_isLiteralChar (h c hc)⟩
  rintro rfl
  obtain ⟨c, hc, -⟩ := hhead
  exact absurd hc (by simp)

theorem spans_unsigned (h : unsigned.Spans w) : w ≠ [] ∧ ∀ c ∈ w, isLetter c = true := by
  obtain ⟨c, rfl, hc⟩ := h
  simp only [Bool.or_eq_true, decide_eq_true_eq] at hc
  rcases hc with rfl | rfl <;> simp [isLetter]

theorem spans_long (h : long.Spans w) : w ≠ [] ∧ ∀ c ∈ w, isLetter c = true := by
  rcases h with ⟨_, _, rfl, ⟨a, rfl, ha⟩, b, rfl, hb⟩ | ⟨_, _, rfl, ⟨a, rfl, ha⟩, b, rfl, hb⟩ |
    ⟨a, rfl, ha⟩
  · rw [beq_iff_eq] at ha hb
    subst ha hb
    simp [isLetter]
  · rw [beq_iff_eq] at ha hb
    subst ha hb
    simp [isLetter]
  · simp only [Bool.or_eq_true, decide_eq_true_eq] at ha
    rcases ha with rfl | rfl <;> simp [isLetter]

theorem spans_suffix (h : suffix.Spans w) : w ≠ [] ∧ ∀ c ∈ w, isLetter c = true := by
  have both {u v : Text} (hu : u ≠ [] ∧ ∀ c ∈ u, isLetter c = true)
      (hv : v = [] ∨ ∀ c ∈ v, isLetter c = true) :
      u ++ v ≠ [] ∧ ∀ c ∈ u ++ v, isLetter c = true := by
    refine ⟨by simp [hu.1], fun c hc => ?_⟩
    rcases List.mem_append.1 hc with hc | hc
    · exact hu.2 c hc
    · rcases hv with rfl | hv
      · simp at hc
      · exact hv c hc
  rcases h with ⟨u, v, rfl, hu, hv⟩ | ⟨u, v, rfl, hu, hv⟩
  · exact both (spans_unsigned hu) (hv.elim (fun h => .inr (spans_long h).2) .inl)
  · exact both (spans_long hu) (hv.elim (fun h => .inr (spans_unsigned h).2) .inl)

/-- A match is a literal and a suffix, and no word goes on behind it. -/
theorem exists_spans_of_match? {start afterLiteral afterSuffix : Cursor}
    (h : match? start = some (afterLiteral, afterSuffix)) :
    ∃ lit letters, start.rest = lit ++ afterLiteral.rest ∧
      afterLiteral.rest = letters ++ afterSuffix.rest ∧ literal.Spans lit ∧ suffix.Spans letters ∧
      ∀ c ∈ afterSuffix.rest.head?, isWordChar c = false := by
  obtain ⟨_, more, hlit, ⟨_, lit, rfl, ⟨rfl, -⟩, hspans⟩, h⟩ := Pattern.exists_matches_of_run h
  obtain ⟨_, more', hsuf, ⟨letters, _, rfl, hletters, rfl, hboundary⟩, h⟩ :=
    Pattern.exists_matches_of_run h
  obtain ⟨rfl, rfl⟩ := Prod.mk.inj (Option.some.inj h)
  obtain ⟨hne, hall⟩ := spans_suffix hletters.spans
  have hlast : isWordChar (letters.getLast hne) = true :=
    isWordChar_of_isNameChar (isNameChar_of_isLetter (hall _ (List.getLast_mem hne)))
  refine ⟨lit, letters, hlit, by simpa using hsuf, hspans.spans, hletters.spans, fun c hc => ?_⟩
  simpa [isWordBoundary, Pattern.last, List.getLast?_eq_some_getLast hne, hlast,
    Option.mem_def.1 hc] using hboundary

/-- A match from the first character of a run of word characters takes all of the run. -/
theorem exists_spans_of_match?_run {before : Option Char} {w : Text}
    {afterLiteral afterSuffix : Cursor} (hw : ∀ c ∈ w, isWordChar c = true)
    (h : match? ⟨before, w⟩ = some (afterLiteral, afterSuffix)) :
    ∃ lit, w = lit ++ afterLiteral.rest ∧ literal.Spans lit ∧ suffix.Spans afterLiteral.rest ∧
      afterSuffix.rest = [] := by
  obtain ⟨lit, letters, hlit, hletters, hspans, hsuffix, hend⟩ := exists_spans_of_match? h
  have hsplit : w = lit ++ (letters ++ afterSuffix.rest) := hletters ▸ hlit
  have hnone : afterSuffix.rest = [] := Classical.byContradiction fun hne => by
    have hmem : afterSuffix.rest.head hne ∈ w := by simp [hsplit]
    have hout := hend _ (List.head?_eq_some_head hne)
    rw [hw _ hmem] at hout
    exact Bool.noConfusion hout
  rw [hnone, List.append_nil] at hletters
  exact ⟨lit, hlit, hspans, hletters ▸ hsuffix, hnone⟩

/-- A match is a literal with the letters of a suffix behind it. -/
theorem exists_of_match? {start afterLiteral afterSuffix : Cursor}
    (h : match? start = some (afterLiteral, afterSuffix)) :
    ∃ lit letters, start.rest = lit ++ afterLiteral.rest ∧
      afterLiteral.rest = letters ++ afterSuffix.rest ∧
      (IsWord lit ∧ ∃ c ∈ lit.head?, c.isDigit = true) ∧
      letters ≠ [] ∧ ∀ c ∈ letters, isLetter c = true := by
  obtain ⟨lit, letters, hlit, hsuf, hspans, hletters, -⟩ := exists_spans_of_match? h
  obtain ⟨hchars, hhead⟩ := spans_literal hspans
  exact ⟨lit, letters, hlit, hsuf, ⟨isWord_of_isLiteralChar hchars hhead, hhead⟩,
    spans_suffix hletters⟩

end Suffix

/-! ## Texts with and without suffixes -/

/-- The second text is the first with some suffixes dropped. -/
inductive Stripped : Text → Text → Prop
  | nil : Stripped [] []
  | keep {t t' : Text} (c : Char) (h : Stripped t t') : Stripped (c :: t) (c :: t')
  | drop {t t' lit letters : Text} (hlit : IsWord lit) (hne : letters ≠ [])
      (hletters : ∀ c ∈ letters, isLetter c = true) (h : Stripped t t') :
      Stripped (lit ++ letters ++ t) (lit ++ t')

theorem stripFrom_skip (before : Option Char) (u t : Text) :
    ∃ before', stripFrom before u.length (u ++ t) = stripFrom before' 0 t := by
  induction u generalizing before with
  | nil => exact ⟨before, rfl⟩
  | cons a u ih => exact ih (some a)

/-- Dropping goes on behind the next character, or behind a literal and its suffix. -/
theorem stripFrom_cases (before : Option Char) (c : Char) (rest : Text) :
    stripFrom before 0 (c :: rest) = c :: stripFrom (some c) 0 rest ∨
      ∃ lit letters more before', c :: rest = lit ++ letters ++ more ∧
        (IsWord lit ∧ ∃ d ∈ lit.head?, d.isDigit = true) ∧
        (letters ≠ [] ∧ ∀ d ∈ letters, isLetter d = true) ∧
        (∀ d ∈ more.head?, isWordChar d = false) ∧
        stripFrom before 0 (c :: rest) = lit ++ stripFrom before' 0 more := by
  rw [stripFrom]
  split
  · next afterLiteral afterSuffix hmatch =>
    obtain ⟨lit, letters, hlit, hsuf, hspans, hletters, hend⟩ := exists_spans_of_match? hmatch
    obtain ⟨hchars, hhead⟩ := spans_literal hspans
    have hword : IsWord lit := isWord_of_isLiteralChar hchars hhead
    obtain ⟨d, lit, rfl⟩ := List.exists_cons_of_ne_nil hword.1
    have hsplit : c :: rest = (d :: lit) ++ letters ++ afterSuffix.rest := by
      rw [List.append_assoc, ← hsuf]
      exact hlit
    obtain ⟨before', hskip⟩ := stripFrom_skip (some c) (lit ++ letters) afterSuffix.rest
    refine .inr ⟨d :: lit, letters, afterSuffix.rest, before', hsplit, ⟨hword, hhead⟩,
      spans_suffix hletters, hend, ?_⟩
    have hrest : rest = lit ++ letters ++ afterSuffix.rest := (List.cons.inj hsplit).2
    have hlast : rest.length - afterSuffix.rest.length = (lit ++ letters).length := by
      rw [hrest, List.length_append, Nat.add_sub_cancel]
    have hlen : rest.length + 1 - afterLiteral.rest.length = (d :: lit).length := by
      simp only [hrest, hsuf, List.length_append, List.length_cons]
      omega
    rw [hlen, hlast, hsplit, List.append_assoc, List.take_left, hrest, hskip]
  · exact .inl rfl

theorem stripped_stripFrom (before : Option Char) (t : Text) :
    Stripped t (stripFrom before 0 t) := by
  match t with
  | [] => exact .nil
  | c :: rest =>
    rcases stripFrom_cases before c rest with
      h | ⟨lit, letters, more, before', hsplit, ⟨hword, -⟩, ⟨hne, hletters⟩, -, h⟩
    · rw [h]
      exact .keep c (stripped_stripFrom (some c) rest)
    · have hless : more.length < (c :: rest).length := by
        have hpos := List.length_pos_iff.2 hne
        rw [hsplit, List.length_append, List.length_append]
        omega
      rw [h, hsplit]
      exact .drop hword hne hletters (stripped_stripFrom before' more)
termination_by t.length
decreasing_by
  · simp
  · exact hless

theorem stripped_stripSuffixes (t : Text) : Stripped t (stripSuffixes t) :=
  stripped_stripFrom none t

theorem Stripped.eq_nil (h : Stripped [] t') : t' = [] := by
  generalize he : ([] : Text) = t at h
  cases h with
  | nil => rfl
  | keep c h => exact absurd he (List.cons_ne_nil _ _).symm
  | drop hlit hne hletters h => simp [hne] at he

theorem Stripped.endsOperand (h : Stripped t t') (ht : EndsOperand t) : EndsOperand t' := by
  induction h with
  | nil => exact ht
  | @keep t t' c h ih =>
    cases t with
    | nil => rwa [h.eq_nil]
    | cons d t =>
      refine endsOperand_append (u := [c]) (ih ?_)
      obtain ⟨e, he, hend⟩ := ht
      exact ⟨e, by rwa [Option.mem_def, List.getLast?_cons_cons] at he, hend⟩
  | @drop t t' lit letters hlit hne hletters h ih =>
    by_cases ht0 : t = []
    · subst ht0
      rw [h.eq_nil, List.append_nil]
      exact hlit.endsOperand
    · obtain ⟨e, he, hend⟩ := ht
      rw [Option.mem_def, List.getLast?_append, List.getLast?_eq_some_getLast ht0] at he
      exact endsOperand_append (ih ⟨e, (List.getLast?_eq_some_getLast ht0).trans he, hend⟩)

theorem Stripped.beginsOperand (h : Stripped t t') (ht : BeginsOperand t) : BeginsOperand t' := by
  cases h with
  | nil => exact ht
  | keep c h => exact ht
  | drop hlit hne hletters h => exact beginsOperand_append hlit.beginsOperand

theorem Stripped.eq_self (h : Stripped t t') (ht : ∀ c ∈ t, isLetter c = false) : t' = t := by
  induction h with
  | nil => rfl
  | keep c h ih => rw [ih fun d hd => ht d (List.mem_cons_of_mem c hd)]
  | drop hlit hne hletters h ih =>
    obtain ⟨d, letters, rfl⟩ := List.exists_cons_of_ne_nil hne
    have hd := hletters d (List.mem_cons_self ..)
    rw [ht d (by simp)] at hd
    exact Bool.noConfusion hd

/-- Only letters of suffixes are dropped. -/
theorem Stripped.mem_of_not_isLetter (h : Stripped t t') (hc : c ∈ t)
    (hletter : isLetter c = false) : c ∈ t' := by
  induction h with
  | nil => exact hc
  | keep d h ih =>
    rcases List.mem_cons.1 hc with rfl | hc
    · exact List.mem_cons_self ..
    · exact List.mem_cons_of_mem d (ih hc)
  | drop hlit hne hletters h ih =>
    rcases List.mem_append.1 hc with hc | hc
    · rcases List.mem_append.1 hc with hc | hc
      · exact List.mem_append_left _ hc
      · exact absurd (hletters c hc) (by simp [hletter])
    · exact List.mem_append_right _ (ih hc)

/-! ## Inside a run of word characters -/

theorem match?_of_not_isWordBoundary {before : Option Char}
    (h : isWordBoundary before t.head? = false) : match? ⟨before, t⟩ = none := by
  simp [match?, Pattern.run, h]

/-- Inside a run no literal starts. -/
theorem stripFrom_inside {before : Option Char} (hbefore : before.any isWordChar = true)
    (hw : ∀ c ∈ w, isWordChar c = true) (rest : Text) :
    ∃ before', stripFrom before 0 (w ++ rest) = w ++ stripFrom before' 0 rest := by
  induction w generalizing before with
  | nil => exact ⟨before, rfl⟩
  | cons c w ih =>
    obtain ⟨hc, hmore⟩ := List.forall_mem_cons.1 hw
    have hchar : (some c).any isWordChar = true := hc
    have hinside : isWordBoundary before (some c) = false := by
      rw [isWordBoundary, hbefore, hchar]
      rfl
    obtain ⟨before', h⟩ := ih hchar hmore
    refine ⟨before', ?_⟩
    rw [List.cons_append, stripFrom, match?_of_not_isWordBoundary hinside, List.cons_append, ← h]

/-! ## Separators -/

theorem avoids_literal (hc : isNameChar c = false) : literal.Avoids c := by
  have hdigit := not_isDigit_of_not_isNameChar hc
  have hhex : isHexDigit c = false := by
    rw [← Bool.not_eq_true]
    exact fun h => by simp [isNameChar_of_isHexDigit h] at hc
  have hne (d : Char) (hd : isNameChar d = true) : c ≠ d := fun h => by simp [h, hd] at hc
  refine ⟨⟨?_, ?_, hhex, hhex⟩, hdigit, hdigit⟩
  · simpa [Pattern.char, Avoids] using hne '0' (by decide)
  · simp [Avoids, hne 'x' (by decide), hne 'X' (by decide)]

theorem avoids_suffix (hc : isNameChar c = false) : suffix.Avoids c := by
  have hne (d : Char) (hd : isNameChar d = true) : c ≠ d := fun h => by simp [h, hd] at hc
  have hu := hne 'u' (by decide)
  have hU := hne 'U' (by decide)
  have hl := hne 'l' (by decide)
  have hL := hne 'L' (by decide)
  simp [suffix, unsigned, long, Pattern.optional, Pattern.char, Avoids, hu, hU, hl, hL]

/-- The place at the end of a text, seen with more text behind it. -/
def extend (more : Text) (start : Cursor) : Cursor := ⟨start.before, start.rest ++ more⟩

theorem match?_append_cons (hc : isWordChar c = false) (before : Option Char) (u w : Text) :
    match? ⟨before, u ++ c :: w⟩ =
      (match? ⟨before, u⟩).map (Prod.map (extend (c :: w)) (extend (c :: w))) := by
  have hname := not_isNameChar_of_not_isWordChar hc
  have hlit : (Pattern.boundary.andThen literal).Avoids c := ⟨trivial, avoids_literal hname⟩
  have hsuf : (suffix.andThen .boundary).Avoids c := ⟨avoids_suffix hname, trivial⟩
  refine Pattern.run_append_cons hlit hc (fun before v => ?_) before u
  exact Pattern.run_append_cons hsuf hc (fun _ _ => rfl) before v

theorem match?_cons_of_not_digit (before : Option Char) (hc : isNameChar c = false) (w : Text) :
    match? ⟨before, c :: w⟩ = none := by
  cases h : match? ⟨before, c :: w⟩ with
  | none => rfl
  | some found =>
    obtain ⟨lit, letters, hlit, -, ⟨hword, -⟩, -⟩ := exists_of_match? h
    obtain ⟨d, lit, rfl⟩ := List.exists_cons_of_ne_nil hword.1
    have hd := hword.2 d (List.mem_cons_self ..)
    rw [← (List.cons.inj hlit).1, hc] at hd
    exact Bool.noConfusion hd

theorem stripFrom_mark (hc : isNameChar c = false) (before : Option Char) (rest : Text) :
    stripFrom before 0 (c :: rest) = c :: stripFrom (some c) 0 rest := by
  rw [stripFrom, match?_cons_of_not_digit before hc]

theorem stripFrom_congr {before before' : Option Char}
    (h : before.any isWordChar = before'.any isWordChar) (t : Text) :
    stripFrom before 0 t = stripFrom before' 0 t := by
  cases t with
  | nil => rfl
  | cons c rest =>
    have hmatch : match? ⟨before, c :: rest⟩ = match? ⟨before', c :: rest⟩ := by
      simp only [match?, literal, Pattern.many1, Pattern.char, Pattern.run, isWordBoundary, h]
    rw [stripFrom, stripFrom, hmatch]

theorem stripFrom_append_cons (hc : isWordChar c = false) (before : Option Char) {skip : Nat}
    (hs : skip ≤ u.length) :
    stripFrom before skip (u ++ c :: w) = stripFrom before skip u ++ c :: stripFrom none 0 w := by
  have hname := not_isNameChar_of_not_isWordChar hc
  induction u generalizing before skip with
  | nil =>
    have hs0 : skip = 0 := by simpa using hs
    have hbefore : (some c).any isWordChar = (none : Option Char).any isWordChar := by simp [hc]
    subst hs0
    show stripFrom before 0 (c :: w) = c :: stripFrom none 0 w
    rw [stripFrom_mark hname, stripFrom_congr hbefore]
  | cons a u ih =>
    cases skip with
    | succ skip => exact ih (some a) (by simpa using hs)
    | zero =>
      have hmatch := match?_append_cons hc before (a :: u) w
      rw [List.cons_append] at hmatch ⊢
      rw [stripFrom, stripFrom, hmatch]
      cases hfound : match? ⟨before, a :: u⟩ with
      | none => rw [Option.map_none, ih (some a) (Nat.zero_le _), List.cons_append]
      | some found =>
        obtain ⟨lit, letters, hlit, hsuf, ⟨hword, -⟩, -⟩ := exists_of_match? hfound
        obtain ⟨p, q⟩ := found
        have hp : (u ++ c :: w).length + 1 - (p.rest ++ c :: w).length =
            u.length + 1 - p.rest.length := by
          simp only [List.length_append, List.length_cons]
          omega
        have hq : (u ++ c :: w).length - (q.rest ++ c :: w).length =
            u.length - q.rest.length := by
          simp only [List.length_append, List.length_cons]
          omega
        simp only [Option.map_some, Prod.map, extend, hp, hq]
        rw [ih (some a) (Nat.sub_le _ _), ← List.cons_append,
          List.take_append_of_le_length (by simp), List.append_assoc]

theorem stripSuffixes_append_cons (hc : isWordChar c = false) :
    stripSuffixes (u ++ c :: w) = stripSuffixes u ++ c :: stripSuffixes w :=
  stripFrom_append_cons hc none (Nat.zero_le _)

theorem stripSuffixes_cons (hc : isWordChar c = false) :
    stripSuffixes (c :: t) = c :: stripSuffixes t :=
  stripSuffixes_append_cons (u := []) hc

end HeaderConstants.Expr
