import Mathlib.Data.List.Chain
import HeaderConstants.Proofs.Expr.Grammar
import HeaderConstants.Proofs.Expr.Tokens

/-!
# Expressions as they are written

A row of tokens is written one token after the other: a literal in any base and with any suffix, a
sign as it is, and blanks wherever one likes. In the row of a tree no two literals stand side by
side, and no sign is followed by one that makes a longer sign of it. So the text is read as the
tokens from which it was written.

* `Expr.Writes`: the texts of a row of tokens;
* `Expr.Follows`, `Expr.Derives.isChain`: what may stand behind what in the row of a tree;
* `Expr.Writes.reads`: what was written is read.
-/

namespace HeaderConstants.Expr
set_option autoImplicit false

open Text

variable {c d : Char} {level n : Nat} {t : Text} {token token' : Token} {ts : List Token}
  {tree : Tree}

/-- The text is the tokens one behind the other, literals of 128 bits with suffixes and blanks
anywhere. -/
inductive Writes : Text → List Token → Prop
  | nil : Writes [] []
  | blank {c : Char} {t : Text} {ts : List Token} (hc : isBlank c = true) (h : Writes t ts) :
      Writes (c :: t) ts
  | literal {w s t : Text} {n : Nat} {ts : List Token} (hw : Spells w n) (hn : n < 2 ^ 127)
      (hs : IsSuffix s) (h : Writes t ts) : Writes (w ++ s ++ t) (.int n :: ts)
  | single {c : Char} {t : Text} {token : Token} {ts : List Token} (hc : token.sign = [c])
      (h : Writes t ts) : Writes (c :: t) (token :: ts)
  | double {c d : Char} {t : Text} {token : Token} {ts : List Token} (hc : token.sign = [c, d])
      (h : Writes t ts) : Writes (c :: d :: t) (token :: ts)

/-! ## Neighbours -/

/-- The token may stand where an operand is due. -/
def Starts (token : Token) : Prop := StartToken token ∨ token.unary?.isSome = true

/-- The second token may stand behind the first one. -/
def Follows (token token' : Token) : Prop :=
  (EndToken token ∧ ¬ StartToken token') ∨ (¬ EndToken token ∧ Starts token')

theorem follows_unary (op : UnaryOp) (h : Starts token) : Follows op.token token := by
  refine .inr ⟨?_, h⟩
  cases op <;> exact not_false

theorem follows_binary (op : BinaryOp) (h : Starts token) : Follows op.token token := by
  refine .inr ⟨?_, h⟩
  cases op <;> exact not_false

theorem binary_follows (op : BinaryOp) (h : EndToken token) : Follows token op.token := by
  refine .inl ⟨h, ?_⟩
  cases op <;> exact not_false

theorem starts_unary (op : UnaryOp) : Starts op.token := by
  cases op <;> exact .inr rfl

/-- The row of a tree begins an operand, ends one, and puts only such tokens side by side. -/
theorem Derives.isChain (h : Derives level ts tree) :
    (∀ first ∈ ts.head?, Starts first) ∧ (∀ last ∈ ts.getLast?, EndToken last) ∧
      ts.IsChain Follows := by
  induction h with
  | literal n =>
    refine ⟨fun first hfirst => ?_, fun last hlast => ?_, List.isChain_singleton _⟩
    · exact Option.some.inj hfirst ▸ .inl trivial
    · exact Option.some.inj hlast ▸ trivial
  | @group ts t h ih =>
    obtain ⟨hfirst, hlast, hchain⟩ := ih
    have hclose : (ts ++ [Token.rightParen]).IsChain Follows := by
      refine List.isChain_append.2 ⟨hchain, List.isChain_singleton _, fun a ha b hb => ?_⟩
      obtain rfl := Option.some.inj hb
      exact .inl ⟨hlast a ha, not_false⟩
    have hopen : ∀ b ∈ (ts ++ [Token.rightParen]).head?, Follows .leftParen b := fun b hb => by
      rw [List.head?_append_of_ne_nil _ h.ne_nil] at hb
      exact .inr ⟨not_false, hfirst b hb⟩
    refine ⟨fun first hmem => ?_, fun last hmem => ?_, List.isChain_cons.2 ⟨hopen, hclose⟩⟩
    · exact Option.some.inj hmem ▸ .inl trivial
    · rw [Option.mem_def, List.getLast?_concat] at hmem
      exact Option.some.inj hmem ▸ trivial
  | @unary op ts t h ih =>
    obtain ⟨hfirst, hlast, hchain⟩ := ih
    refine ⟨fun first hmem => ?_, fun last hmem => hlast last ?_, ?_⟩
    · exact Option.some.inj hmem ▸ starts_unary op
    · rwa [List.getLast?_cons_of_ne_nil h.ne_nil] at hmem
    · exact List.isChain_cons.2 ⟨fun b hb => follows_unary op (hfirst b hb), hchain⟩
  | @binary level op ls rs l r hop hl hr ihl ihr =>
    obtain ⟨hfirstl, hlastl, hchainl⟩ := ihl
    obtain ⟨hfirstr, hlastr, hchainr⟩ := ihr
    have hright : (op.token :: rs).IsChain Follows :=
      List.isChain_cons.2 ⟨fun b hb => follows_binary op (hfirstr b hb), hchainr⟩
    refine ⟨fun first hmem => hfirstl first ?_, fun last hmem => hlastr last ?_, ?_⟩
    · rwa [List.head?_append_of_ne_nil _ hl.ne_nil] at hmem
    · rwa [List.getLast?_append_of_ne_nil _ (List.cons_ne_nil _ _),
        List.getLast?_cons_of_ne_nil hr.ne_nil] at hmem
    · refine List.isChain_append.2 ⟨hchainl, hright, fun a ha b hb => ?_⟩
      obtain rfl := Option.some.inj hb
      exact binary_follows op (hlastl a ha)
  | tighter h ih => exact ih

/-! ## Marks -/

theorem not_isWordChar_of_single (h : token.sign = [c]) : isWordChar c = false := by
  cases token <;> simp [Token.sign] at h <;> subst h <;> decide

theorem not_isWordChar_of_double (h : token.sign = [c, d]) :
    isWordChar c = false ∧ isWordChar d = false := by
  cases token <;> simp [Token.sign] at h <;> obtain ⟨rfl, rfl⟩ := h <;> decide

/-- The characters that end a sign of two. -/
def isSecond (c : Char) : Bool := c = '<' || c = '>' || c = '&' || c = '|' || c = '='

theorem isSecond_of_double (h : token.sign = [c, d]) : isSecond d = true := by
  cases token <;> simp [Token.sign] at h <;> obtain ⟨rfl, rfl⟩ := h <;> decide

theorem not_starts_of_double (h : token.sign = [c, d]) : ¬ Starts token := by
  cases token <;> simp [Token.sign] at h <;> simp [Starts, StartToken, Token.unary?]

theorem not_isSecond_of_single (h : token.sign = [c]) (hs : Starts token) :
    isSecond c = false := by
  cases token <;> simp [Token.sign] at h <;> subst h <;>
    simp [Starts, StartToken, Token.unary?, isSecond] at hs ⊢

theorem mark_of_isSecond (h : isSecond c = true) : isNameChar c = false ∧ isBlank c = false := by
  simp only [isSecond, Bool.or_eq_true, decide_eq_true_eq, or_assoc] at h
  rcases h with rfl | rfl | rfl | rfl | rfl <;> decide

/-- No sign of two ends in the first character of a text that starts an operand. -/
theorem Reads.not_isSecond_head? (h : Reads t ts) (hs : ∀ b ∈ ts.head?, Starts b) :
    ∀ d ∈ t.head?, isSecond d = false := by
  intro d hd
  have blankOrName (hmark : isNameChar d = true ∨ isBlank d = true) : isSecond d = false := by
    refine Bool.eq_false_iff.2 fun hsecond => ?_
    obtain ⟨hname, hblank⟩ := mark_of_isSecond hsecond
    simp [hname, hblank] at hmark
  cases h with
  | nil => exact absurd hd (by simp)
  | blank hc h => exact blankOrName (.inr (Option.some.inj hd ▸ hc))
  | literal hw ht h =>
    obtain ⟨c, hc, hdigit⟩ := hw.isDigit_head?
    rw [Option.mem_def, List.head?_append_of_ne_nil _ hw.isWord.1, Option.mem_def.1 hc] at hd
    exact blankOrName (.inl (Option.some.inj hd ▸ isNameChar_of_isDigit hdigit))
  | single hc ht h => exact Option.some.inj hd ▸ not_isSecond_of_single hc (hs _ rfl)
  | double hc h => exact absurd (hs _ rfl) (not_starts_of_double hc)

/-- Behind an operand no word goes on. -/
theorem Writes.not_isWordChar_head? (h : Writes t ts) (hs : ∀ b ∈ ts.head?, ¬ StartToken b) :
    ∀ c ∈ t.head?, isWordChar c = false := by
  intro c hc
  cases h with
  | nil => exact absurd hc (by simp)
  | blank hb h => exact Option.some.inj hc ▸ not_isWordChar_of_isBlank hb
  | literal hw hn hsuffix h => exact absurd trivial (hs _ rfl)
  | single hd h => exact Option.some.inj hc ▸ not_isWordChar_of_single hd
  | double hd h => exact Option.some.inj hc ▸ (not_isWordChar_of_double hd).1

theorem stripSuffixes_literal_append {w s : Text} (hw : Spells w n) (hs : IsSuffix s)
    (ht : ∀ c ∈ t.head?, isWordChar c = false) :
    stripSuffixes (w ++ s ++ t) = w ++ stripSuffixes t := by
  cases t with
  | nil => rw [List.append_nil, stripSuffixes_literal hw.isLiteral hs]; exact (List.append_nil w).symm
  | cons c t =>
    rw [stripSuffixes_append_cons (ht c rfl), stripSuffixes_cons (ht c rfl),
      stripSuffixes_literal hw.isLiteral hs]

/-! ## Reading what was written -/

theorem not_startToken_of_follows (h : Follows token token') (hend : EndToken token) :
    ¬ StartToken token' := by
  rcases h with h | h
  · exact h.2
  · exact absurd hend h.1

/-- What follows a sign of one does not make a sign of two of it. -/
theorem sign_ne_of_follows (hc : token.sign = [c]) (h : Reads t ts)
    (hfollows : ∀ b ∈ ts.head?, Follows token b) :
    ∀ d ∈ t.head?, ∀ longer : Token, longer.sign ≠ [c, d] := by
  intro d hd longer hlonger
  by_cases hend : EndToken token
  · have hclose : c = ')' := by
      cases token <;> simp [EndToken, Token.sign] at hend hc
      exact hc.symm
    rw [hclose] at hlonger
    cases longer <;> simp [Token.sign] at hlonger
  · have hstarts : ∀ b ∈ ts.head?, Starts b := by
      intro b hb
      rcases hfollows b hb with h | h
      · exact absurd h.1 hend
      · exact h.2
    have hsecond := h.not_isSecond_head? hstarts d hd
    rw [isSecond_of_double hlonger] at hsecond
    exact Bool.noConfusion hsecond

theorem Writes.reads (h : Writes t ts) (hchain : ts.IsChain Follows) :
    Reads (stripSuffixes t) ts := by
  induction h with
  | nil => exact .nil
  | blank hc h ih =>
    rw [stripSuffixes_cons (not_isWordChar_of_isBlank hc)]
    exact .blank hc (ih hchain)
  | @literal w s t n ts hw hn hs h ih =>
    obtain ⟨hfollows, hchain⟩ := List.isChain_cons.1 hchain
    have hmark := h.not_isWordChar_head? fun b hb =>
      not_startToken_of_follows (hfollows b hb) trivial
    rw [stripSuffixes_literal_append hw hs hmark]
    refine .literal hw (fun c hc => ?_) (ih hchain)
    cases t with
    | nil => exact absurd hc (by simp [stripSuffixes, Suffix.stripFrom])
    | cons d t =>
      have hd := hmark d rfl
      rw [stripSuffixes_cons hd] at hc
      exact Option.some.inj hc ▸ not_isNameChar_of_not_isWordChar hd
  | single hc h ih =>
    obtain ⟨hfollows, hchain⟩ := List.isChain_cons.1 hchain
    rw [stripSuffixes_cons (not_isWordChar_of_single hc)]
    exact .single hc (sign_ne_of_follows hc (ih hchain) hfollows) (ih hchain)
  | double hc h ih =>
    obtain ⟨hfirst, hsecond⟩ := not_isWordChar_of_double hc
    rw [stripSuffixes_cons hfirst, stripSuffixes_cons hsecond]
    exact .double hc (ih (List.isChain_cons.1 hchain).2)

theorem Writes.literalsFit (h : Writes t ts) : LiteralsFit ts := by
  induction h with
  | nil => simp [LiteralsFit]
  | blank hc h ih => exact ih
  | literal hw hn hs h ih =>
    exact literalsFit_cons_iff.2 ⟨fun m he => Token.int.inj he ▸ hn, ih⟩
  | single hc h ih =>
    exact literalsFit_cons_iff.2 ⟨fun n he => absurd he (int_ne_of_sign hc), ih⟩
  | double hc h ih =>
    exact literalsFit_cons_iff.2 ⟨fun n he => absurd he (int_ne_of_sign hc), ih⟩

end HeaderConstants.Expr
