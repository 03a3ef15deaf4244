import HeaderConstants.Proofs.Expr.Acceptance
import HeaderConstants.Proofs.Expr.Exact

/-!
# Overflow

The integer of an expression is its exact value as long as no result on the way to it leaves 128
bits. A left shift that does so drops bits and goes on, every other operator fails. The operand of a
complement does not count: a complement looks at 64 bits only, and those are right in any case.

* `Expr.Tree.exact`: the value over unbounded integers;
* `Expr.Tree.results`: the results that have to stay in 128 bits;
* `Expr.Faithful`: no overflow is silent;
* `Expr.faithful_iff`: when that is so.
-/

namespace HeaderConstants.Expr
set_option autoImplicit false

open Text

variable {e : Text} {level n : Nat} {t : Text} {ts : List Token} {v : UInt64} {x z : Int}
  {tree s : Tree}

namespace Tree

/-- The value over unbounded integers, if there is one. -/
def exact : Tree → Option Int
  | literal n => some n
  | group t => t.exact
  | unary op t => t.exact.map op.exact
  | binary op l r => do
    let x ← l.exact
    let y ← r.exact
    op.exact x y

/-- The tree inside the parentheses around it. -/
def core : Tree → Tree
  | group t => t.core
  | t => t

/-- The results below the operator of a tree but for operands of complements. -/
def inside : Tree → List Tree
  | literal _ => []
  | group t => t.inside
  | unary op t => if op = .complement then t.inside else t.core :: t.inside
  | binary _ l r => (l.core :: l.inside) ++ (r.core :: r.inside)

/-- All results of a tree, its own first, but for operands of complements. -/
def results (t : Tree) : List Tree := t.core :: t.inside

theorem exact_core (t : Tree) : t.core.exact = t.exact := by
  induction t with
  | group t ih => exact ih
  | _ => rfl

/-- The literals of the tree have 128 bits. -/
def Bounded : Tree → Prop
  | literal n => n < 2 ^ 127
  | group t => t.Bounded
  | unary _ t => t.Bounded
  | binary _ l r => l.Bounded ∧ r.Bounded

end Tree

/-- The exact value has 128 bits, if there is one. -/
def InRange (t : Tree) : Prop := ∀ x, t.exact = some x → Fits x

def LeftShift : Tree → Prop
  | .binary .shiftLeft _ _ => True
  | _ => False

/-- No overflow is silent: a value is the exact one, and a result of more than 128 bits is a
fault. -/
def Faithful (e : Text) : Prop :=
  (∀ v, evaluate e = .ok v →
    ∃ tree x, Parses e tree ∧ tree.exact = some x ∧ Represents v x) ∧
  ∀ tree, Parses e tree → (∃ s ∈ tree.results, ¬ InRange s) →
    ∃ shown cause, evaluate e = .error (.malformed shown cause)

/-! ## Literals -/

theorem Derives.bounded (h : Derives level ts tree) (hts : LiteralsFit ts) : tree.Bounded := by
  induction h with
  | literal n => exact hts n (List.mem_singleton.2 rfl)
  | group h ih => exact ih fun n hn => hts n (by simp [hn])
  | unary op h ih => exact ih fun n hn => hts n (List.mem_cons_of_mem _ hn)
  | binary hop hl hr ihl ihr =>
    exact ⟨ihl fun n hn => hts n (by simp [hn]), ihr fun n hn => hts n (by simp [hn])⟩
  | tighter h ih => exact ih hts

/-! ## The value of a tree -/

/-- A result in range is exact. -/
theorem Approximates.exact_eq (h : Approximates tree.exact (LeftShift tree.core) z)
    (hshift : LeftShift tree.core → InRange tree.core) :
    tree.exact = some z ∧ Fits z ∧ InRange tree.core := by
  obtain ⟨x, hx, rfl, hfits⟩ := h
  have hx' : Fits x := by
    by_cases hs : LeftShift tree.core
    · exact hshift hs x (tree.exact_core.trans hx)
    · exact hfits hs
  rw [bmod_of_fits hx']
  refine ⟨hx, hx', fun y hy => ?_⟩
  rw [tree.exact_core, hx] at hy
  exact Option.some.inj hy ▸ hx'

/-- Where the left shifts below a tree stay in range, every result below it does, and the integer of
the tree is the exact value but for bits that a left shift drops. -/
theorem approximates_of_eval (hbound : tree.Bounded) (hz : tree.eval arithmetic = .ok z)
    (hshift : ∀ s ∈ tree.inside, LeftShift s → InRange s) :
    Approximates tree.exact (LeftShift tree.core) z ∧ ∀ s ∈ tree.inside, InRange s := by
  induction tree generalizing z with
  | literal n =>
    obtain rfl := Except.ok.inj hz
    exact ⟨approximates_of_fits rfl (fits_ofNat_iff.2 hbound), by simp [Tree.inside]⟩
  | group t ih => exact ih hbound hz hshift
  | unary op t ih =>
    obtain ⟨y, hy, hz⟩ := bind_eq_ok_iff.1 hz
    by_cases hop : op = .complement
    · subst hop
      obtain ⟨⟨x, hx, rfl, -⟩, hinside⟩ := ih hbound hy hshift
      have hz : UnaryOp.apply .complement (x.bmod wideCount) = .ok z := hz
      obtain ⟨hz, hfits⟩ := unary_eq_exact (fits_bmod x) hz
      rw [complement_bmod] at hz
      refine ⟨approximates_of_fits ?_ hfits, hinside⟩
      rw [Tree.exact, hx, hz]
      rfl
    · rw [Tree.inside, if_neg hop] at hshift ⊢
      rw [List.forall_mem_cons] at hshift ⊢
      obtain ⟨happrox, hinside⟩ := ih hbound hy hshift.2
      obtain ⟨hexact, hfits, hrange⟩ := happrox.exact_eq hshift.1
      obtain ⟨rfl, hz⟩ := unary_eq_exact hfits hz
      refine ⟨approximates_of_fits ?_ hz, hrange, hinside⟩
      rw [Tree.exact, hexact]
      rfl
  | binary op l r ihl ihr =>
    obtain ⟨a, ha, hz⟩ := bind_eq_ok_iff.1 hz
    obtain ⟨b, hb, hz⟩ := bind_eq_ok_iff.1 hz
    rw [Tree.inside, List.forall_mem_append, List.forall_mem_cons, List.forall_mem_cons] at hshift ⊢
    obtain ⟨⟨hshiftl, hinsidel⟩, hshiftr, hinsider⟩ := hshift
    obtain ⟨happroxl, hinsidel⟩ := ihl hbound.1 ha hinsidel
    obtain ⟨happroxr, hinsider⟩ := ihr hbound.2 hb hinsider
    obtain ⟨hexactl, hfitsl, hrangel⟩ := happroxl.exact_eq hshiftl
    obtain ⟨hexactr, hfitsr, hranger⟩ := happroxr.exact_eq hshiftr
    obtain ⟨w, hw, hzw, hfits⟩ := approximates_of_apply hfitsl hfitsr hz
    refine ⟨⟨w, ?_, hzw, fun hleft => hfits ?_⟩, ⟨hrangel, hinsidel⟩, hranger, hinsider⟩
    · rw [Tree.exact, hexactl, hexactr]
      exact hw
    · rintro rfl
      exact hleft trivial

/-- The same with the result of the tree itself. -/
theorem exact_of_eval (hbound : tree.Bounded) (hz : tree.eval arithmetic = .ok z)
    (hshift : ∀ s ∈ tree.results, LeftShift s → InRange s) :
    tree.exact = some z ∧ ∀ s ∈ tree.results, InRange s := by
  rw [Tree.results, List.forall_mem_cons] at hshift ⊢
  obtain ⟨happrox, hinside⟩ := approximates_of_eval hbound hz hshift.2
  obtain ⟨hexact, -, hrange⟩ := happrox.exact_eq hshift.1
  exact ⟨hexact, hrange, hinside⟩

/-! ## The value of a text -/

/-- A text with a tree has a value or a fault. -/
theorem Parses.evaluate_cases (h : Parses e tree) :
    (∃ v, evaluate e = .ok v) ∨
      ∃ shown cause, evaluate e = .error (.malformed shown cause) := by
  obtain ⟨ts, hreads, -⟩ := h
  rcases hreads.tokens_cases with ⟨-, hts⟩ | ⟨-, w, herror⟩
  · have hread : evaluate e =
        (read arithmetic ts >>= toWord).mapError (EvalError.malformed e) := by
      rw [evaluate, hts]
      rfl
    rw [hread]
    cases read arithmetic ts >>= toWord with
    | ok v => exact .inl ⟨v, rfl⟩
    | error cause => exact .inr ⟨e, cause, rfl⟩
  · exact .inr ⟨_, _, by rw [evaluate, herror]; rfl⟩

theorem Parses.exact_of_evaluate (h : Parses e tree) (hv : evaluate e = .ok v)
    (hshift : ∀ s ∈ tree.results, LeftShift s → InRange s) :
    (∃ x, tree.exact = some x ∧ Represents v x) ∧ ∀ s ∈ tree.results, InRange s := by
  obtain ⟨ts, z, -, hfit, htree, hz, hrep⟩ := h.eval_of_evaluate hv
  obtain ⟨hexact, hrange⟩ := exact_of_eval (htree.bounded hfit) hz hshift
  exact ⟨⟨z, hexact, hrep⟩, hrange⟩

theorem not_faithful_of_evaluate (h : Parses e tree) (hv : evaluate e = .ok v)
    (hs : s ∈ tree.results) (hrange : ¬ InRange s) : ¬ Faithful e := by
  rintro ⟨-, hfault⟩
  obtain ⟨shown, cause, hcause⟩ := hfault tree h ⟨s, hs, hrange⟩
  exact absurd (hv.symm.trans hcause) (by simp)

/-- Three, shifted to the left by 126 bits in two steps. -/
def farShift : Tree :=
  .binary .shiftLeft (.binary .shiftLeft (.literal 3) (.literal 63)) (.literal 63)

def farShiftTokens : List Token := [.int 3, .shl, .int 63, .shl, .int 63]

theorem derives_farShift : Derives 8 farShiftTokens farShift := by
  have hshift : BinaryOp.shiftLeft ∈ operators 8 := by decide
  have hamount : Derives 9 [.int 63] (.literal 63) := (Derives.literal 63).mono (by decide)
  have hinner : Derives 8 _ (.binary .shiftLeft (.literal 3) (.literal 63)) :=
    .binary hshift ((Derives.literal 3).mono (by decide)) hamount
  exact .binary hshift hinner hamount

theorem writes_farShift (h : Writes t ts) :
    Writes ("3 << 63 << 63".toList ++ t) (farShiftTokens ++ ts) := by
  show Writes ('3' :: ' ' :: '<' :: '<' :: ' ' :: '6' :: '3' :: ' ' :: '<' :: '<' :: ' ' :: '6' ::
    '3' :: t) (farShiftTokens ++ ts)
  have hthree : Spells ['3'] 3 := literalValue?_eq_some_iff.1 rfl
  have hamount : Spells ['6', '3'] 63 := literalValue?_eq_some_iff.1 rfl
  refine .literal hthree (by decide) .none (.blank (by decide) (.double rfl ?_))
  refine .blank (by decide) (.literal hamount (by decide) .none (.blank (by decide) ?_))
  exact .double rfl (.blank (by decide) (.literal hamount (by decide) .none h))

theorem not_inRange_farShift : ¬ InRange farShift := fun h => absurd (h _ rfl) (by decide)

/-- The overflows of a text are silent if and only if it has a value and a left shift in it leaves
128 bits. -/
theorem faithful_iff (e : Text) :
    Faithful e ↔ ∀ v tree, evaluate e = .ok v → Parses e tree →
      ∀ s ∈ tree.results, LeftShift s → InRange s := by
  constructor
  · intro hfaithful v tree hv htree s hs _
    exact Classical.byContradiction fun hrange =>
      not_faithful_of_evaluate htree hv hs hrange hfaithful
  · intro hshift
    refine ⟨fun v hv => ?_, fun tree htree ⟨s, hs, hwide⟩ => ?_⟩
    · obtain ⟨ts, tree, -, hreads, -, htree, -⟩ := evaluate_eq_ok_iff_derives.1 hv
      have hparses : Parses e tree := ⟨ts, hreads, htree⟩
      obtain ⟨⟨x, hexact, hrep⟩, -⟩ := hparses.exact_of_evaluate hv (hshift v tree hv hparses)
      exact ⟨tree, x, hparses, hexact, hrep⟩
    · rcases htree.evaluate_cases with ⟨v, hv⟩ | hfault
      · have hrange := (htree.exact_of_evaluate hv (hshift v tree hv htree)).2
        exact absurd (hrange s hs) hwide
      · exact hfault

/-- The operand of the complement drops bits, and nothing is wrong with the complement. -/
theorem faithful_iff_complement : Faithful "~(3 << 63 << 63)" := by
  let tree := Tree.unary .complement (.group farShift)
  have hwrites : Writes "~(3 << 63 << 63)" (tree.tokens 0) :=
    .single rfl (.single rfl (writes_farShift (.single rfl .nil)))
  have hderives : Derives 0 (tree.tokens 0) tree :=
    ((((derives_farShift.mono (Nat.zero_le 8)).group.tighter).unary .complement).mono
      (Nat.zero_le 11))
  have hparses : Parses "~(3 << 63 << 63)" tree := ⟨_, hwrites.reads hderives.isChain.2.2, hderives⟩
  refine (faithful_iff _).2 fun v found hv hfound s hs _ => ?_
  obtain rfl := hparses.unique hv hfound
  have hall : ∀ s ∈ tree.results, s.exact.any (fun x => decide (¬ Fits x)) = false := by decide
  intro x hx
  simpa [hx] using hall s hs

/-- A left shift drops bits, and the comparison of what is left comes out wrong. -/
theorem not_faithful_left_shift :
    let e : Text := "(3 << 63 << 63) < 0"
    evaluate e = .ok 1 ∧ (∃ tree, Parses e tree ∧ tree.exact = some 0) ∧ ¬ Faithful e := by
  intro e
  let tree := Tree.binary .less (.group farShift) (.literal 0)
  have hzero : Spells ['0'] 0 := literalValue?_eq_some_iff.1 rfl
  have hwrites : Writes e (tree.tokens 0) := by
    refine .single rfl (writes_farShift (.single rfl ?_))
    refine .blank (by decide) (.single rfl (.blank (by decide) ?_))
    exact .literal hzero (by decide) .none .nil
  have hderives : Derives 0 (tree.tokens 0) tree := by
    have hgroup := (derives_farShift.mono (Nat.zero_le 8)).group
    have hcompared : Derives 7 _ tree :=
      .binary (by decide) (hgroup.mono (by decide)) ((Derives.literal 0).mono (by decide))
    exact hcompared.mono (Nat.zero_le 7)
  have hparses : Parses e tree := ⟨_, hwrites.reads hderives.isChain.2.2, hderives⟩
  have hvalue : evaluate e = .ok 1 := by
    rw [evaluate_iff_of_writes hwrites rfl]
    exact ⟨1, rfl, by decide, by decide⟩
  have hmem : farShift ∈ tree.results := by decide
  exact ⟨hvalue, ⟨tree, hparses, by decide⟩,
    not_faithful_of_evaluate hparses hvalue hmem not_inRange_farShift⟩

end HeaderConstants.Expr
