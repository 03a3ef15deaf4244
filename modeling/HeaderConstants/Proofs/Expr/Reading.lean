import HeaderConstants.Proofs.Expr.Grammar
import HeaderConstants.Proofs.Expr.Reader

/-!
# Reading is derivation

What is read from a row of tokens is the meaning of the tree that the tokens are derived from. While
a row is read, the pending frames stand for the tokens that are no operand yet, and the operand that
has just been read for the tokens behind them. In the other direction a derived row leaves frames
behind it that complete to the meaning of its tree, whatever the level from which on they are
completed.

* `Expr.Open`: the frames that leave an operand of a level alone;
* `Expr.Pending`, `Expr.Accounts`: the tokens that frames and states stand for;
* `Expr.Derives.exists_operand`: the state after a derived row;
* `Expr.read_eq_ok_iff`, `Expr.Derives.unique`: reading, and the one tree of a row.
-/

namespace HeaderConstants.Expr
set_option autoImplicit false

variable {α : Type} {A : Algebra α} {level m : Nat} {frames frames' : List (Frame α)}
  {s s' : State α} {u v w : α} {t t' : Tree} {token : Token} {ts ls before : List Token}

/-- An operand of the level is no operand of the innermost frame alone: what it is the operand of
binds less tightly. -/
def Open (level : Nat) : List (Frame α) → Prop
  | .unary _ :: _ => 10 < level
  | .binary _ op :: _ => op.level < level
  | _ => True

theorem Open.mono (h : Open m frames) (hle : m ≤ level) : Open level frames := by
  match frames with
  | [] => trivial
  | .group :: _ => trivial
  | .unary _ :: _ => exact Nat.lt_of_lt_of_le h hle
  | .binary _ _ :: _ => exact Nat.lt_of_lt_of_le h hle

theorem open_of_ten_lt (frames : List (Frame α)) (h : 10 < level) : Open level frames := by
  match frames with
  | [] => trivial
  | .group :: _ => trivial
  | .unary _ :: _ => exact h
  | .binary _ op :: _ => exact Nat.lt_of_le_of_lt op.level_le_ten h

/-- Below a unary operator frames complete down to a binary operator of a lower level. -/
theorem reduce_of_open (h : Open level frames) (hlevel : level ≤ 10) (v : α) :
    reduce A level frames v = .ok (frames, v) := by
  match frames with
  | [] => rfl
  | .group :: _ => rfl
  | .unary _ :: _ => exact absurd h (Nat.not_lt.2 hlevel)
  | .binary _ op :: _ => exact if_neg (Nat.not_le.2 h)

/-! ## From the tokens to the value -/

theorem step_due_unary (op : UnaryOp) (frames : List (Frame α)) :
    step A (.due frames) op.token = .ok (.due (.unary op :: frames)) := by
  cases op <;> rfl

theorem step_operand_binary {op : BinaryOp}
    (h : reduce A op.level frames v = .ok (frames', w)) :
    step A (.operand frames v) op.token = .ok (.due (.binary w op :: frames')) := by
  have hbinary : op.token.binary? = some op := binary?_eq_some_iff.2 rfl
  simp only [step, stepOperand, hbinary, h]
  rfl

theorem step_operand_rightParen (h : reduce A 0 frames v = .ok (.group :: frames', w)) :
    step A (.operand frames v) .rightParen = .ok (.operand frames' w) := by
  simp only [step, stepOperand, Token.binary?, h]
  rfl

/-- After the tokens of a tree with a meaning, the frames complete as if the meaning were the
operand, from any level on that is not above the one of the tree. -/
theorem Derives.exists_operand (h : Derives level ts t) (hv : t.eval A = .ok v)
    (hopen : Open level frames) :
    ∃ frames' w, ts.foldlM (step A) (.due frames) = .ok (.operand frames' w) ∧
      ∀ m ≤ level, reduce A m frames' w = reduce A m frames v := by
  induction h generalizing frames v with
  | literal n =>
    obtain rfl := Except.ok.inj hv
    exact ⟨frames, _, rfl, fun _ _ => rfl⟩
  | @group ts t h ih =>
    have hinside : Open 0 (.group :: frames) := trivial
    obtain ⟨frames', w, hread, hreduce⟩ := ih hv hinside
    have hclose : step A (.operand frames' w) .rightParen = .ok (.operand frames v) :=
      step_operand_rightParen (hreduce 0 (Nat.le_refl 0))
    refine ⟨frames, v, ?_, fun _ _ => rfl⟩
    rw [List.cons_append, List.foldlM_cons]
    show (ts ++ [Token.rightParen]).foldlM (step A) (.due (.group :: frames)) = _
    rw [List.foldlM_append, hread]
    show [Token.rightParen].foldlM (step A) (.operand frames' w) = _
    rw [List.foldlM_cons, hclose]
    rfl
  | @unary op ts t h ih =>
    obtain ⟨x, hx, hv⟩ := bind_eq_ok_iff.1 hv
    have hoperand : Open 11 (.unary op :: frames) := Nat.lt_succ_self 10
    obtain ⟨frames', w, hread, hreduce⟩ := ih hx hoperand
    refine ⟨frames', w, ?_, fun m hm => ?_⟩
    · rw [List.foldlM_cons, step_due_unary]
      exact hread
    · rw [hreduce m hm, reduce, hv]
      rfl
  | @binary level op ls rs l r hop hl hr ihl ihr =>
    obtain rfl := mem_operators_iff.1 hop
    obtain ⟨x, hx, hv⟩ := bind_eq_ok_iff.1 hv
    obtain ⟨y, hy, hv⟩ := bind_eq_ok_iff.1 hv
    obtain ⟨leftFrames, u, hreadl, hreducel⟩ := ihl hx hopen
    have hcomplete : reduce A op.level leftFrames u = .ok (frames, x) :=
      (hreducel op.level (Nat.le_refl _)).trans (reduce_of_open hopen op.level_le_ten x)
    have hright : Open (op.level + 1) (.binary x op :: frames) := Nat.lt_succ_self op.level
    obtain ⟨frames', w, hreadr, hreducer⟩ := ihr hy hright
    refine ⟨frames', w, ?_, fun m hm => ?_⟩
    · rw [List.foldlM_append, hreadl]
      show (op.token :: rs).foldlM (step A) (.operand leftFrames u) = _
      rw [List.foldlM_cons, step_operand_binary hcomplete]
      exact hreadr
    · rw [hreducer m (by omega), reduce, if_pos hm, hv]
      rfl
  | tighter h ih =>
    obtain ⟨frames', w, hread, hreduce⟩ := ih hv (hopen.mono (Nat.le_succ _))
    exact ⟨frames', w, hread, fun m hm => hreduce m (Nat.le_succ_of_le hm)⟩

theorem Derives.read_eq (h : Derives 0 ts t) (hv : t.eval A = .ok v) : read A ts = .ok v := by
  have hstart : Open 0 ([] : List (Frame α)) := trivial
  obtain ⟨frames, w, hread, hreduce⟩ := h.exists_operand hv hstart
  rw [read, if_neg (by simpa using h.ne_nil), readFrom, hread]
  show finish A (.operand frames w) = .ok v
  rw [finish, hreduce 0 (Nat.le_refl 0)]
  rfl

/-! ## From the value to the tokens -/

/-- The tokens that the frames stand for. -/
inductive Pending (A : Algebra α) : List (Frame α) → List Token → Prop
  | nil : Pending A [] []
  | group {frames : List (Frame α)} {ts : List Token} (h : Pending A frames ts) :
      Pending A (.group :: frames) (ts ++ [.leftParen])
  | unary {frames : List (Frame α)} {ts : List Token} (op : UnaryOp) (h : Pending A frames ts) :
      Pending A (.unary op :: frames) (ts ++ [op.token])
  | binary {frames : List (Frame α)} {ts ls : List Token} {op : BinaryOp} {l : Tree} {left : α}
      (h : Pending A frames ts) (hopen : Open op.level frames) (hl : Derives op.level ls l)
      (hleft : l.eval A = .ok left) :
      Pending A (.binary left op :: frames) (ts ++ ls ++ [op.token])

/-- The value is that of a tree of at least the level, and the tokens end in those of the tree. -/
def Reaches (A : Algebra α) (level : Nat) (frames : List (Frame α)) (v : α) (ts : List Token) :
    Prop :=
  ∃ before ls t, ts = before ++ ls ∧ Pending A frames before ∧ Derives level ls t ∧
    t.eval A = .ok v

/-- The tokens that a state stands for. -/
def Accounts (A : Algebra α) : State α → List Token → Prop
  | .due frames, ts => Pending A frames ts
  | .operand frames v, ts => Reaches A 12 frames v ts

/-- Completing operators keeps the tokens, and ends at an operand of the level and at frames that
leave it alone. -/
theorem reaches_of_reduce (h : reduce A m frames v = .ok (frames', w)) (hm : m ≤ 10)
    (hle : m ≤ level) (hopen : Open level frames) (hts : Reaches A level frames v ts) :
    Reaches A m frames' w ts ∧ Open m frames' := by
  induction frames generalizing level v with
  | nil =>
    obtain ⟨rfl, rfl⟩ := Prod.mk.inj (Except.ok.inj h)
    obtain ⟨before, ls, t, hsplit, hpending, ht, hv⟩ := hts
    exact ⟨⟨before, ls, t, hsplit, hpending, ht.mono hle, hv⟩, trivial⟩
  | cons frame frames ih =>
    obtain ⟨before, ls, t, hsplit, hpending, ht, hv⟩ := hts
    cases hpending with
    | group hpending =>
      obtain ⟨rfl, rfl⟩ := Prod.mk.inj (Except.ok.inj h)
      exact ⟨⟨_, ls, t, hsplit, hpending.group, ht.mono hle, hv⟩, trivial⟩
    | @unary _ before op hpending =>
      obtain ⟨u, hu, h⟩ := bind_eq_ok_iff.1 h
      have hunary : Derives 11 (op.token :: ls) (.unary op t) := (ht.mono hopen).unary op
      have hreaches : Reaches A 11 frames u ts := by
        refine ⟨before, op.token :: ls, _, by simp [hsplit], hpending, hunary, ?_⟩
        exact bind_eq_ok_iff.2 ⟨v, hv, hu⟩
      exact ih h (by omega) (open_of_ten_lt frames (by omega)) hreaches
    | @binary _ before front op l x hpending hbelow hl hx =>
      rw [reduce] at h
      split at h
      · next hlevel =>
        obtain ⟨u, hu, h⟩ := bind_eq_ok_iff.1 h
        have hbinary : Derives op.level (front ++ op.token :: ls) (.binary op l t) :=
          .binary (mem_operators_iff.2 rfl) hl (ht.mono hopen)
        refine ih h hlevel hbelow ⟨before, _, _, by simp [hsplit], hpending, hbinary, ?_⟩
        exact bind_eq_ok_iff.2 ⟨x, hx, bind_eq_ok_iff.2 ⟨v, hv, hu⟩⟩
      · next hlevel =>
        obtain ⟨rfl, rfl⟩ := Prod.mk.inj (Except.ok.inj h)
        exact ⟨⟨_, ls, t, hsplit, hpending.binary hbelow hl hx, ht.mono hle, hv⟩,
          Nat.lt_of_not_le hlevel⟩

/-- A token adds itself to what the state stands for. -/
theorem accounts_of_step (hs : Accounts A s ts) (h : step A s token = .ok s') :
    Accounts A s' (ts ++ [token]) := by
  cases s with
  | due frames =>
    have sign {op : UnaryOp} (htoken : token.unary? = some op)
        (h : (.ok (.due (.unary op :: frames)) : Except Fault (State α)) = .ok s') :
        Accounts A s' (ts ++ [token]) := by
      rw [← Except.ok.inj h, unary?_eq_some_iff.1 htoken]
      exact .unary op hs
    cases token with
    | int n => exact Except.ok.inj h ▸ ⟨ts, _, _, rfl, hs, .literal n, rfl⟩
    | leftParen => exact Except.ok.inj h ▸ .group hs
    | plus => exact sign rfl h
    | minus => exact sign rfl h
    | tilde => exact sign rfl h
    | not => exact sign rfl h
    | _ => exact absurd h (by simp [step, stepDue, Token.unary?])
  | operand frames v =>
    have hopen : Open 12 frames := open_of_ten_lt frames (by omega)
    simp only [step, stepOperand] at h
    split at h
    · next op hbinary =>
      obtain ⟨⟨frames', w⟩, hreduce, h⟩ := bind_eq_ok_iff.1 h
      obtain ⟨⟨before, ls, l, rfl, hpending, hl, hw⟩, hbelow⟩ :=
        reaches_of_reduce hreduce op.level_le_ten (Nat.le_trans op.level_le_ten (by omega)) hopen hs
      rw [← Except.ok.inj h, binary?_eq_some_iff.1 hbinary]
      exact .binary hpending hbelow hl hw
    · obtain ⟨⟨frames', w⟩, hreduce, h⟩ := bind_eq_ok_iff.1 h
      obtain ⟨⟨before, ls, t, rfl, hpending, ht, hw⟩, hbelow⟩ :=
        reaches_of_reduce hreduce (Nat.zero_le _) (Nat.zero_le _) hopen hs
      cases hpending with
      | nil => exact absurd h throw_ne_ok
      | @group outer before hpending =>
        simp only at h
        split at h
        · next hclose =>
          rw [← Except.ok.inj h, hclose]
          exact ⟨before, _, _, by simp, hpending, ht.group, hw⟩
        · exact absurd h throw_ne_ok
      | unary op hpending => exact absurd hbelow (Nat.not_lt_zero _)
      | binary hpending hopen hl hleft => exact absurd hbelow (Nat.not_lt_zero _)

theorem accounts_of_foldlM (hs : Accounts A s before) (h : ts.foldlM (step A) s = .ok s') :
    Accounts A s' (before ++ ts) := by
  induction ts generalizing s before with
  | nil =>
    rw [← Except.ok.inj h, List.append_nil]
    exact hs
  | cons token ts ih =>
    rw [List.foldlM_cons] at h
    obtain ⟨middle, hstep, h⟩ := bind_eq_ok_iff.1 h
    have hrest := ih (accounts_of_step hs hstep) h
    rwa [List.append_assoc] at hrest

theorem exists_derives_of_read (h : read A ts = .ok v) :
    ∃ t, Derives 0 ts t ∧ t.eval A = .ok v := by
  rw [read] at h
  split at h
  · exact absurd h (by simp)
  · obtain ⟨s, hfold, hfinish⟩ := bind_eq_ok_iff.1 h
    have hstart : Accounts A (.due []) [] := Pending.nil
    have hs := accounts_of_foldlM hstart hfold
    cases s with
    | due frames => exact absurd hfinish (by simp [finish])
    | operand frames x =>
      obtain ⟨⟨frames', w⟩, hreduce, hend⟩ := bind_eq_ok_iff.1 hfinish
      obtain ⟨⟨before, ls, t, rfl, hpending, ht, hw⟩, -⟩ :=
        reaches_of_reduce hreduce (Nat.zero_le _) (Nat.zero_le _)
          (open_of_ten_lt frames (by omega)) hs
      cases frames' with
      | cons frame frames' => exact absurd hend throw_ne_ok
      | nil =>
        cases hpending
        obtain rfl := Except.ok.inj hend
        exact ⟨t, ht, hw⟩

/-! ## Reading -/

/-- What is read is the meaning of a tree that the tokens are derived from. -/
theorem read_eq_ok_iff : read A ts = .ok v ↔ ∃ t, Derives 0 ts t ∧ t.eval A = .ok v :=
  ⟨exists_derives_of_read, fun ⟨_, ht, hv⟩ => ht.read_eq hv⟩

/-- Tokens are derived from one tree only: reading finds it, all but its parentheses. -/
theorem Derives.unique (h : Derives 0 ts t) (h' : Derives 0 ts t') : t = t' := by
  have hread := h.read_eq t.eval_syntactic
  rw [h'.read_eq t'.eval_syntactic] at hread
  exact h.eq_of_bare h' (Except.ok.inj hread).symm

end HeaderConstants.Expr
