import HeaderConstants.Proofs.Expr.Acceptance
import HeaderConstants.Proofs.Resolve.Trace
import HeaderConstants.Proofs.Text.Closer

/-!
# No value for a closing marker

A closing marker in an expression is read as a multiplication sign with a division sign behind it,
which no expression has. Substitutions of names leave markers where they are, so that a constant
with a value has none in its raw text, and none came in through a substitution.

* `Expr.noCloser_of_evaluate`: texts with a value;
* `Resolve.noCloser_of_resolveConstant`: a constant that is resolved, with its trace.
-/

namespace HeaderConstants
set_option autoImplicit false

open Text Header

/-! ## Values -/

namespace Expr

variable {c d : Char} {t u w : Text} {token : Token} {ts : List Token} {e : Text} {v : UInt64}

theorem noCloser_of_stripSuffixes (h : NoCloser (stripSuffixes t)) : NoCloser t := by
  rintro ⟨u, w, rfl⟩
  have hkept : stripSuffixes (u ++ closer ++ w) = stripSuffixes u ++ closer ++ stripSuffixes w := by
    rw [List.append_assoc, List.append_assoc]
    exact (stripSuffixes_append_cons (by decide)).trans
      (congrArg (_ ++ '*' :: ·) (stripSuffixes_cons (by decide)))
  exact h ⟨_, _, hkept.symm⟩

theorem closer_infix_of_word_append (hw : IsWord w) (h : closer <:+: w ++ t) : closer <:+: t := by
  have hword : ∀ {w : Text}, (∀ c ∈ w, isNameChar c = true) → NoCloser t → NoCloser (w ++ t) := by
    intro w hw ht
    induction w with
    | nil => exact ht
    | cons c w ih =>
      have hc : c ≠ '*' := by
        rintro rfl
        exact absurd (hw '*' (List.mem_cons_self ..)) (by decide)
      rw [List.cons_append, noCloser_cons hc]
      exact ih fun d hd => hw d (List.mem_cons_of_mem c hd)
  by_contra ht
  exact hword hw.2 ht h

theorem ne_star_of_double (h : token.sign = [c, d]) : c ≠ '*' ∧ d ≠ '*' := by
  cases token <;> simp [Token.sign] at h <;> obtain ⟨rfl, rfl⟩ := h <;> decide

/-- A slash is always a token of its own. -/
theorem Reads.exists_slash (h : Reads ('/' :: t) ts) : ∃ more, ts = .slash :: more := by
  generalize he : '/' :: t = text at h
  cases h with
  | nil => exact absurd he (List.cons_ne_nil _ _)
  | blank hc h => exact absurd hc ((List.cons.inj he).1 ▸ by decide)
  | literal hw ht h =>
    obtain ⟨c, hc, hdigit⟩ := hw.isDigit_head?
    have hhead := congrArg List.head? he
    rw [List.head?_append_of_ne_nil _ hw.isWord.1, Option.mem_def.1 hc] at hhead
    exact absurd hdigit (Option.some.inj hhead ▸ by decide)
  | single hc ht h =>
    rw [← (List.cons.inj he).1] at hc
    have hslash : Token.single? '/' = some _ := single?_eq_some_iff.2 hc
    exact ⟨_, congrArg (· :: _) (Option.some.inj hslash).symm⟩
  | @double c d t token ts hc h =>
    rw [← (List.cons.inj he).1] at hc
    cases token <;> simp [Token.sign] at hc

/-- A closing marker is read as two neighbouring tokens. -/
theorem Reads.star_slash (h : Reads t ts) (hin : closer <:+: t) :
    [Token.star, Token.slash] <:+: ts := by
  have later {c : Char} {t : Text} (hc : c ≠ '*') (hin : closer <:+: c :: t) : closer <:+: t := by
    by_contra ht
    exact (noCloser_cons hc).2 ht hin
  induction h with
  | nil => exact absurd hin noCloser_nil
  | blank hc h ih =>
    refine ih (later ?_ hin)
    rintro rfl
    exact absurd hc (by decide)
  | literal hw ht h ih =>
    exact (ih (closer_infix_of_word_append hw.isWord hin)).trans (List.suffix_cons ..).isInfix
  | @single c t token ts hc ht h ih =>
    rcases List.infix_cons_iff.1 hin with hpre | hin
    · -- the star is a token of its own, and so is the slash behind it
      obtain ⟨rfl, t', rfl⟩ := List.cons_prefix_cons.1 hpre
      obtain ⟨more, rfl⟩ := h.exists_slash
      have hstar : Token.single? '*' = some token := single?_eq_some_iff.2 hc
      obtain rfl := Option.some.inj hstar
      exact ⟨[], more, rfl⟩
    · exact (ih hin).trans (List.suffix_cons ..).isInfix
  | double hc h ih =>
    obtain ⟨hfirst, hsecond⟩ := ne_star_of_double hc
    exact (ih (later hsecond (later hfirst hin))).trans (List.suffix_cons ..).isInfix

/-- No text with a value has a closing marker. -/
theorem noCloser_of_evaluate (h : evaluate e = .ok v) : NoCloser e := by
  obtain ⟨ts, tree, z, hreads, -, htree, -⟩ := evaluate_eq_ok_iff_derives.1 h
  refine noCloser_of_stripSuffixes fun hin => ?_
  obtain ⟨before, after, rfl⟩ := hreads.star_slash hin
  have hchain := htree.isChain.2.2.left_of_append.right_of_append
  have hfollows : Follows .star .slash := (List.isChain_cons_cons.1 hchain).1
  simp [Follows, EndToken, Starts, StartToken, Token.unary?] at hfollows

end Expr

/-! ## Substitutions -/

/-- No text of the step has a closing marker. -/
structure ResolutionStep.HasNoCloser (st : ResolutionStep) : Prop where
  expression : NoCloser st.expression
  symbol : NoCloser st.symbol
  replacement : NoCloser st.replacement

namespace Resolve

variable {t : Table} {limit : Nat} {c : Constant} {v w : Text} {found : Resolution}

theorem noCloser_of_rewrites (hnames : ∀ s ∈ t, Unmarked s.name) (h : Rewrites t v w)
    (hw : NoCloser w) : NoCloser v := by
  induction h with
  | refl => exact hw
  | step hs _ _ ih => exact noCloser_of_replaceAll (hnames _ hs) (ih hw)

theorem hasNoCloser_of_replaces (hnames : ∀ s ∈ t, Unmarked s.name) {st : ResolutionStep}
    (h : Replaces t st w) (hw : NoCloser w) : st.HasNoCloser := by
  obtain ⟨s, hs, hsymbol, hreplacement, hin, hrewrites⟩ := h
  have hafter := noCloser_of_rewrites hnames hrewrites hw
  refine ⟨noCloser_of_replaceAll (hnames s hs) hafter, ?_, ?_⟩
  · exact hsymbol ▸ (hnames s hs).noCloser
  · exact hreplacement ▸ noCloser_replacement (hnames s hs) hin hafter

/-- A constant that is resolved has no closing marker in its raw text and in its trace. -/
theorem noCloser_of_resolveConstant (hnames : ∀ s ∈ t, Unmarked s.name)
    (h : resolveConstant t limit c = .ok found) :
    NoCloser c.rawValue ∧ ∀ st ∈ found.trace, st.HasNoCloser := by
  obtain ⟨e, he, hv, htrace, -⟩ := resolveConstant_eq_ok_iff.1 h
  obtain ⟨hrewrites, -, hsteps⟩ := rewrites_of_expand? he
  have hend := Expr.noCloser_of_evaluate hv
  refine ⟨noCloser_of_rewrites hnames hrewrites hend, fun st hst => ?_⟩
  exact hasNoCloser_of_replaces hnames (hsteps st (htrace ▸ hst)) hend

end Resolve

end HeaderConstants
