import HeaderConstants.Proofs.Expr.Stripping
import HeaderConstants.Proofs.Expr.Tokens

/-!
# Which text a fault shows

A text without a value has a fault in one of its tokens, or in the order of its tokens, in an
operation or in the size of the result. The tokens are those of the text without its suffixes, and
their faults show that text; all other faults show the text as it was given.

* `Expr.Fault.isLexical`: the faults of tokens;
* `Expr.isLexical_of_tokens`, `Expr.not_isLexical_of_result`: which faults are such;
* `Expr.evaluate_eq_malformed_iff`: the faults of a text, and the text that each of them shows;
* `Expr.shows_eq_self_iff`: where that is the text itself.
-/

namespace HeaderConstants.Expr
set_option autoImplicit false

open Text

variable {α : Type} {A : Algebra α} {level : Nat} {frames : List (Frame α)} {s : State α} {v : α}
  {e shown t w : Text} {cause : Fault} {token : Token} {ts : List Token}

/-- A token is at fault: a literal that is none, or a character that starts no token. -/
def Fault.isLexical : Fault → Bool
  | invalidLiteral _ => true
  | unsupported _ => true
  | _ => false

/-! ## Tokens -/

theorem isLexical_of_literalToken (h : literalToken w = .error (.fault cause)) :
    cause.isLexical = true := by
  unfold literalToken at h
  split at h
  · exact absurd h (by simp)
  · obtain rfl := LexError.fault.inj (Except.error.inj h)
    rfl

theorem isLexical_of_tokens (h : tokens t = .error (.fault cause)) : cause.isLexical = true := by
  have cons {first : Token} {rest : Text}
      (ih : tokens rest = .error (.fault cause) → cause.isLexical = true)
      (h : (do
        let more ← tokens rest
        pure (first :: more)) = .error (.fault cause)) : cause.isLexical = true := by
    rcases bind_eq_error_iff.1 h with h | ⟨more, -, h⟩
    · exact ih h
    · exact absurd h (by simp [pure, Except.pure])
  induction t using tokens.induct with
  | case1 => exact absurd h (by simp [tokens])
  | case2 c rest hb ih => exact ih (tokens_of_isBlank hb ▸ h)
  | case3 c rest hb hd ih =>
    rw [tokens_of_isDigit hd] at h
    rcases bind_eq_error_iff.1 h with h | ⟨first, -, h⟩
    · exact isLexical_of_literalToken h
    · exact cons ih h
  | case4 c rest hb hd hs =>
    rw [tokens_of_isNameStart hs] at h
    exact absurd h (by simp)
  | case5 c rest hb hd hs first rest' hsign ih =>
    have hc : isNameChar c = false := not_isNameChar_of_neither hd hs
    rw [tokens_of_mark hc (by simpa using hb), hsign] at h
    exact cons ih h
  | case6 c rest hb hd hs hsign =>
    have hc : isNameChar c = false := not_isNameChar_of_neither hd hs
    rw [tokens_of_mark hc (by simpa using hb), hsign] at h
    obtain rfl := LexError.fault.inj (Except.error.inj h)
    rfl

/-! ## Operations -/

/-- No operation fails with a fault of tokens. -/
structure Algebra.Sound (A : Algebra α) : Prop where
  unary : ∀ op x cause, A.unary op x = .error cause → cause.isLexical = false
  binary : ∀ op x y cause, A.binary op x y = .error cause → cause.isLexical = false

theorem not_isLexical_of_checked {op : Overflowing} {z : Int} (h : checked op z = .error cause) :
    cause.isLexical = false := by
  unfold checked at h
  split at h
  · exact absurd h (by simp)
  · exact Except.error.inj h ▸ rfl

theorem not_isLexical_of_shiftAmount {z : Int} (h : shiftAmount z = .error cause) :
    cause.isLexical = false := by
  unfold shiftAmount at h
  split at h
  · exact absurd h (by simp)
  · exact Except.error.inj h ▸ rfl

theorem not_isLexical_of_toWord {z : Int} (h : toWord z = .error cause) :
    cause.isLexical = false := by
  unfold toWord at h
  split at h
  · exact absurd h (by simp)
  · exact Except.error.inj h ▸ rfl

theorem sound_arithmetic : arithmetic.Sound where
  unary op x cause h := by
    change op.apply x = .error cause at h
    cases op with
    | negate => exact not_isLexical_of_checked h
    | _ => exact absurd h (by simp [UnaryOp.apply])
  binary op x y cause h := by
    change op.apply x y = .error cause at h
    cases op with
    | shiftLeft => exact not_isLexical_of_shiftAmount (map_eq_error_iff.1 h)
    | shiftRight => exact not_isLexical_of_shiftAmount (map_eq_error_iff.1 h)
    | add => exact not_isLexical_of_checked h
    | sub => exact not_isLexical_of_checked h
    | mul => exact not_isLexical_of_checked h
    | div =>
      rw [BinaryOp.apply] at h
      split at h
      · exact Except.error.inj h ▸ rfl
      · exact not_isLexical_of_checked h
    | rem =>
      rw [BinaryOp.apply] at h
      split at h
      · exact Except.error.inj h ▸ rfl
      · split at h
        · exact absurd h (by simp)
        · exact Except.error.inj h ▸ rfl
    | _ => exact absurd h (by simp [BinaryOp.apply])

/-! ## Reading -/

theorem Algebra.Sound.reduce (hA : A.Sound) (h : reduce A level frames v = .error cause) :
    cause.isLexical = false := by
  induction frames generalizing v with
  | nil => exact absurd h (by simp [Expr.reduce])
  | cons frame frames ih =>
    cases frame with
    | group => exact absurd h (by simp [Expr.reduce])
    | unary op =>
      rcases bind_eq_error_iff.1 h with h | ⟨w, -, h⟩
      · exact hA.unary op v cause h
      · exact ih h
    | binary left op =>
      rw [Expr.reduce] at h
      split at h
      · rcases bind_eq_error_iff.1 h with h | ⟨w, -, h⟩
        · exact hA.binary op left v cause h
        · exact ih h
      · exact absurd h (by simp)

theorem not_isLexical_of_stepDue (h : stepDue A frames token = .error cause) :
    cause.isLexical = false := by
  unfold stepDue at h
  split at h
  · exact absurd h (by simp)
  · exact absurd h (by simp)
  · split at h
    · exact absurd h (by simp)
    · exact Except.error.inj h ▸ rfl

theorem Algebra.Sound.stepOperand (hA : A.Sound) (h : stepOperand A frames v token = .error cause) :
    cause.isLexical = false := by
  unfold Expr.stepOperand at h
  split at h
  · rcases bind_eq_error_iff.1 h with h | ⟨reduced, -, h⟩
    · exact hA.reduce h
    · exact absurd h (by simp [pure, Except.pure])
  · rcases bind_eq_error_iff.1 h with h | ⟨⟨frames', w⟩, -, h⟩
    · exact hA.reduce h
    · cases frames' with
      | nil => exact Except.error.inj h ▸ rfl
      | cons frame outer =>
        simp only at h
        split at h
        · exact absurd h (by simp [pure, Except.pure])
        · exact Except.error.inj h ▸ rfl

theorem Algebra.Sound.foldlM_step (hA : A.Sound) (h : ts.foldlM (step A) s = .error cause) :
    cause.isLexical = false := by
  induction ts generalizing s with
  | nil => exact absurd h (by simp [pure, Except.pure])
  | cons token ts ih =>
    rw [List.foldlM_cons] at h
    rcases bind_eq_error_iff.1 h with h | ⟨s', -, h⟩
    · cases s with
      | due frames => exact not_isLexical_of_stepDue h
      | operand frames v => exact hA.stepOperand h
    · exact ih h

theorem Algebra.Sound.finish (hA : A.Sound) (h : finish A s = .error cause) :
    cause.isLexical = false := by
  cases s with
  | due frames => exact Except.error.inj h ▸ rfl
  | operand frames v =>
    rcases bind_eq_error_iff.1 h with h | ⟨⟨frames', w⟩, -, h⟩
    · exact hA.reduce h
    · simp only at h
      split at h
      · exact absurd h (by simp [pure, Except.pure])
      · exact Except.error.inj h ▸ rfl

theorem Algebra.Sound.read (hA : A.Sound) (h : read A ts = .error cause) :
    cause.isLexical = false := by
  unfold Expr.read at h
  split at h
  · exact Except.error.inj h ▸ rfl
  · rcases bind_eq_error_iff.1 h with h | ⟨s, -, h⟩
    · exact hA.foldlM_step h
    · exact hA.finish h

theorem not_isLexical_of_result (h : (read arithmetic ts >>= toWord) = .error cause) :
    cause.isLexical = false := by
  rcases bind_eq_error_iff.1 h with h | ⟨z, -, h⟩
  · exact sound_arithmetic.read h
  · exact not_isLexical_of_toWord h

/-! ## The text that is shown -/

/-- The expression has the fault: in one of its tokens, or in what its tokens stand for. -/
def Fails (e : Text) (cause : Fault) : Prop :=
  tokens (stripSuffixes e) = .error (.fault cause) ∨
    ∃ ts, tokens (stripSuffixes e) = .ok ts ∧ (read arithmetic ts >>= toWord) = .error cause

/-- The text that a fault of an expression shows. -/
def Fault.shows (cause : Fault) (e : Text) : Text :=
  if cause.isLexical then stripSuffixes e else e

theorem mapError_evalError_eq_malformed_iff {r : Except LexError (List Token)} :
    r.mapError (LexError.evalError t) = .error (.malformed shown cause) ↔
      r = .error (.fault cause) ∧ shown = t := by
  rw [mapError_eq_error_iff]
  constructor
  · rintro ⟨found, hr, hfound⟩
    cases found with
    | name symbol => exact absurd hfound (by simp [LexError.evalError])
    | fault found =>
      obtain ⟨rfl, rfl⟩ := EvalError.malformed.inj hfound
      exact ⟨hr, rfl⟩
  · rintro ⟨hr, rfl⟩
    exact ⟨_, hr, rfl⟩

theorem mapError_malformed_eq_malformed_iff {r : Except Fault UInt64} :
    r.mapError (EvalError.malformed t) = .error (.malformed shown cause) ↔
      r = .error cause ∧ shown = t := by
  rw [mapError_eq_error_iff]
  constructor
  · rintro ⟨found, hr, hfound⟩
    obtain ⟨rfl, rfl⟩ := EvalError.malformed.inj hfound
    exact ⟨hr, rfl⟩
  · rintro ⟨hr, rfl⟩
    exact ⟨_, hr, rfl⟩

theorem evaluate_eq_malformed_iff :
    evaluate e = .error (.malformed shown cause) ↔ Fails e cause ∧ shown = cause.shows e := by
  rw [evaluate, bind_eq_error_iff, mapError_evalError_eq_malformed_iff]
  constructor
  · rintro (⟨htokens, rfl⟩ | ⟨ts, htokens, hmapped⟩)
    · refine ⟨.inl htokens, ?_⟩
      rw [Fault.shows, if_pos (isLexical_of_tokens htokens)]
    · obtain ⟨hresult, rfl⟩ := mapError_malformed_eq_malformed_iff.1 hmapped
      refine ⟨.inr ⟨ts, mapError_eq_ok_iff.1 htokens, hresult⟩, ?_⟩
      rw [Fault.shows, not_isLexical_of_result hresult, if_neg Bool.false_ne_true]
  · rintro ⟨htokens | ⟨ts, htokens, hresult⟩, rfl⟩
    · left
      rw [Fault.shows, if_pos (isLexical_of_tokens htokens)]
      exact ⟨htokens, rfl⟩
    · right
      rw [Fault.shows, not_isLexical_of_result hresult, if_neg Bool.false_ne_true]
      exact ⟨ts, mapError_eq_ok_iff.2 htokens, mapError_malformed_eq_malformed_iff.2 ⟨hresult, rfl⟩⟩

/-- The fault is none of a token, or no literal of the expression has a suffix. -/
def Fault.KeepsText (cause : Fault) (e : Text) : Prop :=
  cause.isLexical = false ∨ ∀ w ∈ pieces e, ¬ IsSuffixed w

theorem shows_eq_self_iff : cause.shows e = e ↔ cause.KeepsText e := by
  unfold Fault.shows Fault.KeepsText
  cases cause.isLexical with
  | true => simpa using stripSuffixes_eq_self_iff
  | false => simp

end HeaderConstants.Expr
