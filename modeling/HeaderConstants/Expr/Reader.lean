import HeaderConstants.Expr.Error

/-!
# Reading an expression

Tokens are read from the left with a stack of open groups, pending unary operators and left
operands. A binary operator, a closing parenthesis or the end first completes every pending operator
that binds at least as tightly, so operators of one level associate to the left. What completing an
operator means is a parameter: an `Algebra` gives the meaning of literals and operators.

* `Expr.Algebra`: the meaning of literals and operators, which may fail;
* `Expr.reduce`: completes pending operators;
* `Expr.step`, `Expr.finish`, `Expr.read`: one token, the end, and a whole text of tokens.
-/

namespace HeaderConstants.Expr
set_option autoImplicit false

structure Algebra (α : Type) where
  literal : Nat → α
  unary : UnaryOp → α → Except Fault α
  binary : BinaryOp → α → α → Except Fault α

/-- What is pending on the left of the operand that is being read. -/
inductive Frame (α : Type) where
  | group
  | unary (op : UnaryOp)
  | binary (left : α) (op : BinaryOp)
  deriving DecidableEq, Repr

/-- An operand is due, or one has just been read. -/
inductive State (α : Type) where
  | due (frames : List (Frame α))
  | operand (frames : List (Frame α)) (value : α)
  deriving DecidableEq, Repr

variable {α : Type} (A : Algebra α)

/-- Completes the pending operators of at least the given level, up to the innermost open group. -/
def reduce (level : Nat) : List (Frame α) → α → Except Fault (List (Frame α) × α)
  | [], v => .ok ([], v)
  | .group :: frames, v => .ok (.group :: frames, v)
  | .unary op :: frames, v => do
    let w ← A.unary op v
    reduce level frames w
  | .binary left op :: frames, v =>
    if level ≤ op.level then do
      let w ← A.binary op left v
      reduce level frames w
    else .ok (.binary left op :: frames, v)

/-- A token where an operand is due. -/
def stepDue (frames : List (Frame α)) (token : Token) : Except Fault (State α) :=
  match token with
  | .int value => .ok (.operand frames (A.literal value))
  | .leftParen => .ok (.due (.group :: frames))
  | _ =>
    match token.unary? with
    | some op => .ok (.due (.unary op :: frames))
    | none => .error (.unexpected token)

/-- A token after an operand. -/
def stepOperand (frames : List (Frame α)) (v : α) (token : Token) : Except Fault (State α) :=
  match token.binary? with
  | some op => do
    let (frames', w) ← reduce A op.level frames v
    pure (.due (.binary w op :: frames'))
  | none => do
    let (frames', w) ← reduce A 0 frames v
    match frames' with
    | [] => throw (.trailing token)
    | _ :: outer => if token = .rightParen then pure (.operand outer w) else throw .unclosed

def step : State α → Token → Except Fault (State α)
  | .due frames, token => stepDue A frames token
  | .operand frames v, token => stepOperand A frames v token

def finish : State α → Except Fault α
  | .due _ => .error .unexpectedEnd
  | .operand frames v => do
    let (frames', w) ← reduce A 0 frames v
    if frames'.isEmpty then pure w else throw .unclosed

def readFrom (s : State α) (ts : List Token) : Except Fault α := do
  let s' ← ts.foldlM (step A) s
  finish A s'

def read (ts : List Token) : Except Fault α :=
  if ts.isEmpty then .error .empty else readFrom A (.due []) ts

end HeaderConstants.Expr
