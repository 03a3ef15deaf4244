import Mathlib.Data.List.Basic
import HeaderConstants.Expr.Reader

/-!
# The grammar of expressions

Expressions as trees, with the parentheses that are written in them, and the tokens that a tree is
derived from. Levels one to ten are those of the binary operators, level eleven that of the unary
ones and level twelve that of literals and groups; level zero is any expression. An operand on the
left of a binary operator has at least the level of the operator, one on the right a higher level.

* `Expr.Tree`, `Expr.Tree.eval`: trees, and their meaning in an algebra, operands from the left;
* `Expr.operators`: the binary operators of each level;
* `Expr.Derives`: the tokens of a tree at a level;
* `Expr.Tree.tokens`: a tree written with the parentheses that the levels require;
* `Expr.Derives.eq_of_bare`: the tokens tell where the parentheses are.
-/

namespace HeaderConstants.Expr
set_option autoImplicit false

/-! ## Trees -/

inductive Tree where
  | literal (value : Nat)
  | group (inner : Tree)
  | unary (op : UnaryOp) (operand : Tree)
  | binary (op : BinaryOp) (left right : Tree)
  deriving DecidableEq, Repr

def UnaryOp.token : UnaryOp → Token
  | negate => .minus
  | keep => .plus
  | complement => .tilde
  | not => .not

def BinaryOp.token : BinaryOp → Token
  | or => .orOr
  | and => .andAnd
  | bitOr => .pipe
  | bitXor => .caret
  | bitAnd => .amp
  | equal => .eq
  | notEqual => .ne
  | less => .lt
  | greater => .gt
  | lessEqual => .le
  | greaterEqual => .ge
  | shiftLeft => .shl
  | shiftRight => .shr
  | add => .plus
  | sub => .minus
  | mul => .star
  | div => .slash
  | rem => .percent

/-- The binary operators of a level, from the loosest to the tightest. -/
def operators : Nat → List BinaryOp
  | 1 => [.or]
  | 2 => [.and]
  | 3 => [.bitOr]
  | 4 => [.bitXor]
  | 5 => [.bitAnd]
  | 6 => [.equal, .notEqual]
  | 7 => [.less, .greater, .lessEqual, .greaterEqual]
  | 8 => [.shiftLeft, .shiftRight]
  | 9 => [.add, .sub]
  | 10 => [.mul, .div, .rem]
  | _ => []

variable {level level' m : Nat} {ts ts' ls rs : List Token} {t t' : Tree} {token : Token}

theorem mem_operators_iff {op : BinaryOp} : op ∈ operators level ↔ op.level = level := by
  constructor
  · have hlevel : ∀ op ∈ operators level, op.level = level := by
      unfold operators
      split <;> simp [BinaryOp.level]
    exact hlevel op
  · rintro rfl
    cases op <;> decide

theorem unary?_eq_some_iff {op : UnaryOp} : token.unary? = some op ↔ token = op.token := by
  cases token <;> cases op <;> simp [Token.unary?, UnaryOp.token]

theorem binary?_eq_some_iff {op : BinaryOp} : token.binary? = some op ↔ token = op.token := by
  cases token <;> cases op <;> simp [Token.binary?, BinaryOp.token]

namespace Tree

/-- The meaning of a tree: the operands first, from the left to the right, and then the operator.
Parentheses mean nothing of their own. -/
def eval {α : Type} (A : Algebra α) : Tree → Except Fault α
  | literal n => .ok (A.literal n)
  | group t => t.eval A
  | unary op t => do
    let x ← t.eval A
    A.unary op x
  | binary op l r => do
    let x ← l.eval A
    let y ← r.eval A
    A.binary op x y

/-- The tree without its parentheses. -/
def bare : Tree → Tree
  | literal n => literal n
  | group t => t.bare
  | unary op t => unary op t.bare
  | binary op l r => binary op l.bare r.bare

/-- The algebra of trees: what is read is its own meaning. -/
def syntactic : Algebra Tree where
  literal := literal
  unary op t := .ok (unary op t)
  binary op l r := .ok (binary op l r)

theorem eval_syntactic (t : Tree) : t.eval syntactic = .ok t.bare := by
  induction t with
  | literal n => rfl
  | group t ih => exact ih
  | unary op t ih =>
    rw [eval, ih]
    rfl
  | binary op l r ihl ihr =>
    rw [eval, ihl, ihr]
    rfl

theorem eval_bare {α : Type} (A : Algebra α) (t : Tree) : t.bare.eval A = t.eval A := by
  induction t with
  | literal n => rfl
  | group t ih => exact ih
  | unary op t ih => rw [bare, eval, eval, ih]
  | binary op l r ihl ihr => rw [bare, eval, eval, ihl, ihr]

end Tree

/-! ## Derivations -/

/-- The tokens are those of the tree, which has at least the given level. -/
inductive Derives : Nat → List Token → Tree → Prop
  | literal (n : Nat) : Derives 12 [.int n] (.literal n)
  | group {ts : List Token} {t : Tree} (h : Derives 0 ts t) :
      Derives 12 (.leftParen :: ts ++ [.rightParen]) (.group t)
  | unary (op : UnaryOp) {ts : List Token} {t : Tree} (h : Derives 11 ts t) :
      Derives 11 (op.token :: ts) (.unary op t)
  | binary {level : Nat} {op : BinaryOp} {ls rs : List Token} {l r : Tree}
      (hop : op ∈ operators level) (hl : Derives level ls l) (hr : Derives (level + 1) rs r) :
      Derives level (ls ++ op.token :: rs) (.binary op l r)
  | tighter {level : Nat} {ts : List Token} {t : Tree} (h : Derives (level + 1) ts t) :
      Derives level ts t

theorem Derives.mono (h : Derives level ts t) (hle : m ≤ level) : Derives m ts t := by
  induction hle with
  | refl => exact h
  | step _ ih => exact ih h.tighter

theorem Derives.ne_nil (h : Derives level ts t) : ts ≠ [] := by
  induction h with
  | literal n => simp
  | group h ih => simp
  | unary op h ih => simp
  | binary hop hl hr ihl ihr => simp
  | tighter h ih => exact ih

/-- The tokens of each kind of tree. -/
def Tree.Shape (ts : List Token) : Tree → Prop
  | literal n => ts = [.int n]
  | group t => ∃ inner, ts = .leftParen :: inner ++ [.rightParen] ∧ Derives 0 inner t
  | unary op t => ∃ more, ts = op.token :: more ∧ Derives 11 more t
  | binary op l r => ∃ ls rs, ts = ls ++ op.token :: rs ∧ Derives op.level ls l ∧
      Derives (op.level + 1) rs r

theorem Derives.shape (h : Derives level ts t) : t.Shape ts := by
  induction h with
  | literal n => rfl
  | group h ih => exact ⟨_, rfl, h⟩
  | unary op h ih => exact ⟨_, rfl, h⟩
  | binary hop hl hr ihl ihr =>
    obtain rfl := mem_operators_iff.1 hop
    exact ⟨_, _, rfl, hl, hr⟩
  | tighter h ih => exact ih

/-! ## Trees as they are written -/

namespace Tree

def enclosed (ts : List Token) : List Token := .leftParen :: ts ++ [.rightParen]

/-- A tree written where at least the given level is due. Parentheses are added around a binary
operator of a lower level and nowhere else. -/
def tokens : Nat → Tree → List Token
  | _, literal n => [.int n]
  | _, group t => enclosed (t.tokens 0)
  | _, unary op t => op.token :: t.tokens 11
  | level, binary op l r =>
    let ts := l.tokens op.level ++ op.token :: r.tokens (op.level + 1)
    if op.level < level then enclosed ts else ts

/-- What is written is derived: from the tree itself, with the added parentheses in it. -/
theorem exists_derives_tokens (t : Tree) {level : Nat} (hlevel : level ≤ 11) :
    ∃ t', Derives level (t.tokens level) t' ∧ t'.bare = t.bare := by
  induction t generalizing level with
  | literal n => exact ⟨_, (Derives.literal n).mono (by omega), rfl⟩
  | group t ih =>
    obtain ⟨t', ht, hbare⟩ := ih (Nat.zero_le 11)
    exact ⟨_, ht.group.mono (by omega), hbare⟩
  | unary op t ih =>
    obtain ⟨t', ht, hbare⟩ := ih (Nat.le_refl 11)
    exact ⟨_, (ht.unary op).mono hlevel, by rw [bare, bare, hbare]⟩
  | binary op l r ihl ihr =>
    have hop : op.level + 1 ≤ 11 := Nat.succ_le_succ op.level_le_ten
    obtain ⟨l', hl, hlbare⟩ := ihl (Nat.le_of_succ_le hop)
    obtain ⟨r', hr, hrbare⟩ := ihr hop
    have hbinary := Derives.binary (mem_operators_iff.2 rfl) hl hr
    have hbare : (binary op l' r').bare = (binary op l r).bare := by
      rw [bare, bare, hlbare, hrbare]
    rw [tokens]
    by_cases hlow : op.level < level
    · rw [if_pos hlow]
      exact ⟨_, (hbinary.mono (Nat.zero_le _)).group.mono (by omega), hbare⟩
    · rw [if_neg hlow]
      exact ⟨_, hbinary.mono (by omega), hbare⟩

end Tree

/-! ## Where the parentheses are -/

/-- How many groups the tokens leave open. -/
def depth : List Token → Int
  | [] => 0
  | .leftParen :: ts => depth ts + 1
  | .rightParen :: ts => depth ts - 1
  | _ :: ts => depth ts

theorem depth_append (ts ts' : List Token) : depth (ts ++ ts') = depth ts + depth ts' := by
  induction ts with
  | nil => simp [depth]
  | cons token ts ih =>
    cases token <;> simp only [List.cons_append, depth, ih] <;> omega

theorem depth_unary (op : UnaryOp) (ts : List Token) : depth (op.token :: ts) = depth ts := by
  cases op <;> rfl

theorem depth_binary (op : BinaryOp) (ts : List Token) : depth (op.token :: ts) = depth ts := by
  cases op <;> rfl

/-- No group is left open, and none is closed that was not opened before. -/
theorem Derives.depth (h : Derives level ts t) :
    depth ts = 0 ∧ ∀ start, start <+: ts → 0 ≤ Expr.depth start := by
  induction h with
  | literal n =>
    refine ⟨rfl, fun start hstart => ?_⟩
    rcases List.prefix_cons_iff.1 hstart with rfl | ⟨more, rfl, hmore⟩
    · exact Int.le_refl 0
    · rw [List.prefix_nil.1 hmore]
      exact Int.le_refl 0
  | @group ts t h ih =>
    have hclose : Expr.depth (ts ++ [.rightParen]) = -1 := by
      rw [depth_append, ih.1]
      rfl
    refine ⟨?_, fun start hstart => ?_⟩
    · rw [List.cons_append, Expr.depth, hclose]
      rfl
    · rcases List.prefix_cons_iff.1 hstart with rfl | ⟨more, rfl, hmore⟩
      · exact Int.le_refl 0
      · rw [Expr.depth]
        rcases List.prefix_concat_iff.1 hmore with rfl | hmore
        · omega
        · have hpos := ih.2 more hmore
          omega
  | unary op h ih =>
    refine ⟨(depth_unary op _).trans ih.1, fun start hstart => ?_⟩
    rcases List.prefix_cons_iff.1 hstart with rfl | ⟨more, rfl, hmore⟩
    · exact Int.le_refl 0
    · rw [depth_unary]
      exact ih.2 more hmore
  | @binary level op ls rs l r hop hl hr ihl ihr =>
    refine ⟨?_, fun start hstart => ?_⟩
    · rw [depth_append, depth_binary, ihl.1, ihr.1]
      rfl
    · rcases List.prefix_or_prefix_of_prefix hstart (List.prefix_append ls _) with
        hleft | ⟨more, rfl⟩
      · exact ihl.2 start hleft
      · rw [depth_append, ihl.1, Int.zero_add]
        rcases List.prefix_cons_iff.1 ((List.prefix_append_right_inj ls).1 hstart) with
          rfl | ⟨more, rfl, hmore⟩
        · exact Int.le_refl 0
        · rw [depth_binary]
          exact ihr.2 more hmore
  | tighter h ih => exact ih

/-- The operators and operands of a tree. -/
def Tree.weight : Tree → Nat
  | literal _ => 1
  | group t => t.weight
  | unary _ t => t.weight + 1
  | binary _ l r => l.weight + r.weight + 1

theorem Tree.weight_bare (t : Tree) : t.bare.weight = t.weight := by
  induction t with
  | literal n => rfl
  | group t ih => exact ih
  | unary op t ih => rw [bare, weight, weight, ih]
  | binary op l r ihl ihr => rw [bare, weight, weight, ihl, ihr]

def isParen (token : Token) : Bool := token = .leftParen || token = .rightParen

theorem isParen_unary (op : UnaryOp) : isParen op.token = false := by cases op <;> rfl

theorem isParen_binary (op : BinaryOp) : isParen op.token = false := by cases op <;> rfl

theorem Derives.countP_eq_weight (h : Derives level ts t) :
    ts.countP (fun token => !isParen token) = t.weight := by
  induction h with
  | literal n => rfl
  | group h ih => simpa [List.countP_append, isParen, Tree.weight] using ih
  | unary op h ih => simp [isParen_unary, Tree.weight, ih]
  | binary hop hl hr ihl ihr =>
    simp [List.countP_append, isParen_binary, Tree.weight, ihl, ihr]
    omega
  | tighter h ih => exact ih

/-- A group is not cut by a binary operator. -/
theorem Derives.group_ne_binary {inner : List Token} {op : BinaryOp} (hinner : Derives 0 inner t)
    (hl : Derives level ls t') (hrs : rs ≠ []) :
    .leftParen :: inner ++ [.rightParen] ≠ ls ++ op.token :: rs := by
  intro he
  obtain ⟨first, start, rfl⟩ := List.exists_cons_of_ne_nil hl.ne_nil
  obtain ⟨rfl, htail⟩ : .leftParen = first ∧ inner ++ [.rightParen] = start ++ op.token :: rs := by
    simpa using he
  have hlen : start.length ≤ inner.length := by
    have hpos := List.length_pos_iff.2 hrs
    have hlen := congrArg List.length htail
    simp only [List.length_append, List.length_cons, List.length_nil] at hlen
    omega
  have hstart : start <+: inner := by
    have hwhole : start <+: inner ++ [.rightParen] := ⟨op.token :: rs, htail.symm⟩
    exact List.prefix_of_prefix_length_le hwhole (List.prefix_append ..) hlen
  have hopen := hl.depth.1
  have hpos := hinner.depth.2 start hstart
  rw [Expr.depth] at hopen
  omega

/-- Two ways to cut a row of tokens at an operator, with as many operators and operands before. -/
theorem append_cons_inj_of_countP {op : BinaryOp}
    (he : ls ++ op.token :: rs = ts ++ op.token :: ts')
    (hcount : ls.countP (fun token => !isParen token) = ts.countP (fun token => !isParen token)) :
    ls = ts ∧ rs = ts' := by
  rcases List.append_eq_append_iff.1 he with ⟨more, rfl, htail⟩ | ⟨more, rfl, htail⟩
  · cases more with
    | nil => simpa using htail
    | cons token more =>
      obtain ⟨rfl, -⟩ := List.cons.inj htail
      simp [List.countP_append, isParen_binary] at hcount
  · cases more with
    | nil => simpa [eq_comm] using htail
    | cons token more =>
      obtain ⟨rfl, -⟩ := List.cons.inj htail
      simp [List.countP_append, isParen_binary] at hcount

/-- Trees with the same tokens that differ at most in their parentheses are the same. -/
theorem Derives.eq_of_bare (h : Derives level ts t) (h' : Derives level' ts t')
    (hbare : t.bare = t'.bare) : t = t' := by
  induction h generalizing level' t' with
  | literal n =>
    cases t' with
    | literal n' => simpa [Tree.bare] using hbare
    | group t' =>
      obtain ⟨inner, he, -⟩ := h'.shape
      simp at he
    | unary op t' => simp [Tree.bare] at hbare
    | binary op l r => simp [Tree.bare] at hbare
  | @group ts t h ih =>
    cases t' with
    | literal n => exact absurd h'.shape (by simp [Tree.Shape])
    | group t' =>
      obtain ⟨inner, he, hinner⟩ := h'.shape
      obtain rfl : ts = inner := by simpa using he
      rw [ih hinner hbare]
    | unary op t' =>
      obtain ⟨more, he, -⟩ := h'.shape
      have hfirst : .leftParen = op.token := (List.cons.inj he).1
      cases op <;> simp [UnaryOp.token] at hfirst
    | binary op l r =>
      obtain ⟨ls, rs, he, hl, hr⟩ := h'.shape
      exact absurd he (h.group_ne_binary hl hr.ne_nil)
  | @unary op ts t h ih =>
    cases t' with
    | literal n => simp [Tree.bare] at hbare
    | group t' =>
      obtain ⟨inner, he, -⟩ := h'.shape
      have hfirst : op.token = .leftParen := (List.cons.inj he).1
      cases op <;> simp [UnaryOp.token] at hfirst
    | unary op' t' =>
      obtain ⟨more, he, hmore⟩ := h'.shape
      obtain ⟨rfl, hoperand⟩ := Tree.unary.inj hbare
      obtain rfl : ts = more := (List.cons.inj he).2
      rw [ih hmore hoperand]
    | binary op' l r => simp [Tree.bare] at hbare
  | @binary level op ls rs l r hop hl hr ihl ihr =>
    cases t' with
    | literal n => simp [Tree.bare] at hbare
    | group t' =>
      obtain ⟨inner, he, hinner⟩ := h'.shape
      exact absurd he.symm (hinner.group_ne_binary hl hr.ne_nil)
    | unary op' t' => simp [Tree.bare] at hbare
    | binary op' l' r' =>
      obtain ⟨ls', rs', he, hl', hr'⟩ := h'.shape
      obtain ⟨rfl, hleft, hright⟩ := Tree.binary.inj hbare
      have hcount : ls.countP (fun token => !isParen token) =
          ls'.countP (fun token => !isParen token) := by
        rw [hl.countP_eq_weight, hl'.countP_eq_weight, ← l.weight_bare, ← l'.weight_bare, hleft]
      obtain ⟨rfl, rfl⟩ := append_cons_inj_of_countP he hcount
      rw [ihl hl' hleft, ihr hr' hright]
  | tighter h ih => exact ih h' hbare

end HeaderConstants.Expr
