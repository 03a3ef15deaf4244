import HeaderConstants.Expr.Reader
import HeaderConstants.Proofs.Expr.Tokens

/-!
# Groups and operands in a row of tokens

An open group hides the pending frames outside it, so a row of tokens is read inside a group as it
is read alone, and the group is an operand with the value of its tokens. Two operands with no
operator between them are never read.

* `Expr.State.onto`: a state with more frames below its own;
* `Expr.readFrom_group`: a group as an operand;
* `Expr.not_read_of_adjacent`: two operands side by side.
-/

namespace HeaderConstants.Expr
set_option autoImplicit false

variable {α : Type} {A : Algebra α} {level : Nat} {frames frames' base outer : List (Frame α)}
  {s s' : State α} {v w : α} {token first last : Token} {ts before after : List Token}

/-- The state inside an open group with the given frames outside. -/
def State.onto (outer : List (Frame α)) : State α → State α
  | .due frames => .due (frames ++ .group :: outer)
  | .operand frames v => .operand (frames ++ .group :: outer) v

theorem reduce_onto (outer : List (Frame α)) (h : reduce A level frames v = .ok (frames', w)) :
    reduce A level (frames ++ .group :: outer) v = .ok (frames' ++ .group :: outer, w) := by
  induction frames generalizing v with
  | nil =>
    obtain ⟨rfl, rfl⟩ := Prod.mk.inj (Except.ok.inj h)
    rfl
  | cons frame frames ih =>
    cases frame with
    | group =>
      obtain ⟨rfl, rfl⟩ := Prod.mk.inj (Except.ok.inj h)
      rfl
    | unary op =>
      obtain ⟨u, hu, h⟩ := bind_eq_ok_iff.1 h
      exact bind_eq_ok_iff.2 ⟨u, hu, ih h⟩
    | binary left op =>
      simp only [List.cons_append, reduce] at h ⊢
      split at h
      · next hlevel =>
        obtain ⟨u, hu, h⟩ := bind_eq_ok_iff.1 h
        rw [if_pos hlevel]
        exact bind_eq_ok_iff.2 ⟨u, hu, ih h⟩
      · next hlevel =>
        obtain ⟨rfl, rfl⟩ := Prod.mk.inj (Except.ok.inj h)
        rw [if_neg hlevel]
        rfl

theorem step_onto (outer : List (Frame α)) (h : step A s token = .ok s') :
    step A (s.onto outer) token = .ok (s'.onto outer) := by
  cases s with
  | due frames =>
    cases token
    all_goals first
      | exact Except.ok.inj h ▸ rfl
      | exact absurd h (by simp [step, stepDue, Token.unary?])
  | operand frames v =>
    simp only [step, State.onto, stepOperand] at h ⊢
    split at h
    · obtain ⟨⟨frames', w⟩, hreduce, h⟩ := bind_eq_ok_iff.1 h
      refine bind_eq_ok_iff.2 ⟨_, reduce_onto outer hreduce, ?_⟩
      exact Except.ok.inj h ▸ rfl
    · obtain ⟨⟨frames', w⟩, hreduce, h⟩ := bind_eq_ok_iff.1 h
      refine bind_eq_ok_iff.2 ⟨_, reduce_onto outer hreduce, ?_⟩
      cases frames' with
      | nil => exact absurd h throw_ne_ok
      | cons frame frames' =>
        simp only [List.cons_append] at h ⊢
        split at h
        · next hclose =>
          rw [if_pos hclose]
          exact Except.ok.inj h ▸ rfl
        · exact absurd h throw_ne_ok

theorem foldlM_onto (outer : List (Frame α)) (h : ts.foldlM (step A) s = .ok s') :
    ts.foldlM (step A) (s.onto outer) = .ok (s'.onto outer) := by
  induction ts generalizing s with
  | nil => exact Except.ok.inj h ▸ rfl
  | cons token ts ih =>
    rw [List.foldlM_cons] at h ⊢
    obtain ⟨middle, hstep, h⟩ := bind_eq_ok_iff.1 h
    exact bind_eq_ok_iff.2 ⟨_, step_onto outer hstep, ih h⟩

theorem readFrom_append (s : State α) (before after : List Token) :
    readFrom A s (before ++ after) = (do
      let s' ← before.foldlM (step A) s
      readFrom A s' after) := by
  simp only [readFrom, List.foldlM_append, bind_assoc]

theorem readFrom_cons (s : State α) (token : Token) (ts : List Token) :
    readFrom A s (token :: ts) = (do
      let s' ← step A s token
      readFrom A s' ts) := by
  simp only [readFrom, List.foldlM_cons, bind_assoc]

/-- A group in which a whole expression is read is an operand of its value. -/
theorem readFrom_group (h : read A ts = .ok v) (outer : List (Frame α)) (after : List Token) :
    readFrom A (.due outer) (.leftParen :: ts ++ .rightParen :: after) =
      readFrom A (.operand outer v) after := by
  rw [read] at h
  split at h
  · exact absurd h (by simp)
  · obtain ⟨s, hs, hfinish⟩ := bind_eq_ok_iff.1 h
    cases s with
    | due frames => exact absurd hfinish (by simp [finish])
    | operand frames w =>
      obtain ⟨⟨frames', u⟩, hreduce, hend⟩ := bind_eq_ok_iff.1 hfinish
      cases frames' with
      | cons frame frames' =>
        exact absurd hend throw_ne_ok
      | nil =>
        obtain rfl := Except.ok.inj hend
        have hopen : step A (.due outer) .leftParen = .ok (.due (.group :: outer)) := rfl
        have hinside : ts.foldlM (step A) (.due (.group :: outer)) =
            .ok (.operand (frames ++ .group :: outer) w) := foldlM_onto outer hs
        have hclose : step A (.operand (frames ++ .group :: outer) w) .rightParen =
            .ok (.operand outer u) :=
          bind_eq_ok_iff.2 ⟨_, reduce_onto outer hreduce, rfl⟩
        rw [List.cons_append, readFrom_cons, hopen]
        show readFrom A (.due (.group :: outer)) (ts ++ _) = _
        rw [readFrom_append, hinside]
        show readFrom A (.operand (frames ++ .group :: outer) w) _ = _
        rw [readFrom_cons, hclose]
        rfl

/-- A group can be exchanged for another of the same value. -/
theorem read_group_congr {ts' : List Token} (h : read A ts = .ok v) (h' : read A ts' = .ok v)
    (before after : List Token) :
    read A (before ++ (.leftParen :: ts ++ .rightParen :: after)) =
      read A (before ++ (.leftParen :: ts' ++ .rightParen :: after)) := by
  rw [read, if_neg (by simp), read, if_neg (by simp), readFrom_append, readFrom_append]
  cases before.foldlM (step A) (.due []) with
  | error e => rfl
  | ok s =>
    show readFrom A s _ = readFrom A s _
    cases s with
    | due frames => rw [readFrom_group h, readFrom_group h']
    | operand frames w =>
      simp only [List.cons_append, readFrom_cons, step, stepOperand, Token.binary?]
      cases reduce A 0 frames w with
      | error e => rfl
      | ok reduced => cases hframes : reduced.1 <;> simp [hframes, bind, Except.bind] <;> rfl

/-! ## Operands side by side -/

/-- After an operand a token that is no operator can only close a group. -/
theorem step_operand_of_not_binary (hbinary : token.binary? = none)
    (h : step A (.operand frames v) token = .ok s') :
    token = .rightParen ∧ ∃ outer w, s' = .operand outer w := by
  simp only [step, stepOperand, hbinary] at h
  obtain ⟨⟨frames', w⟩, -, h⟩ := bind_eq_ok_iff.1 h
  cases frames' with
  | nil => exact absurd h throw_ne_ok
  | cons frame outer =>
    simp only at h
    split at h
    · next hclose => exact ⟨hclose, outer, w, (Except.ok.inj h).symm⟩
    · exact absurd h throw_ne_ok

theorem exists_operand_of_endToken (hlast : EndToken last) (h : step A s last = .ok s') :
    ∃ frames v, s' = .operand frames v := by
  cases s with
  | due frames =>
    cases last with
    | int n => exact ⟨frames, A.literal n, (Except.ok.inj h).symm⟩
    | rightParen => exact absurd h (by simp [step, stepDue, Token.unary?])
    | _ => exact hlast.elim
  | operand frames v =>
    have hbinary : last.binary? = none := by
      cases last with
      | int n => rfl
      | rightParen => rfl
      | _ => exact hlast.elim
    exact (step_operand_of_not_binary hbinary h).2

theorem not_step_of_startToken (hfirst : StartToken first) :
    step A (.operand frames v) first ≠ .ok s' := by
  intro h
  cases first with
  | int n => exact absurd (step_operand_of_not_binary rfl h).1 (by simp)
  | leftParen => exact absurd (step_operand_of_not_binary rfl h).1 (by simp)
  | _ => exact hfirst.elim

theorem not_read_of_adjacent (hlast : EndToken last) (hfirst : StartToken first)
    (before after : List Token) : read A (before ++ last :: first :: after) ≠ .ok v := by
  rw [read, if_neg (by simp), readFrom_append]
  intro h
  obtain ⟨s, -, h⟩ := bind_eq_ok_iff.1 h
  rw [readFrom_cons] at h
  obtain ⟨s', hstep, h⟩ := bind_eq_ok_iff.1 h
  obtain ⟨frames, w, rfl⟩ := exists_operand_of_endToken hlast hstep
  rw [readFrom_cons] at h
  obtain ⟨s'', hstep', -⟩ := bind_eq_ok_iff.1 h
  exact not_step_of_startToken hfirst hstep'

end HeaderConstants.Expr
