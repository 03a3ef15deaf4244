import Mathlib.Data.Int.Bitwise
import HeaderConstants.Expr.Arithmetic
import HeaderConstants.Proofs.Expr.Reading

/-!
# Exact arithmetic

The operators on unbounded integers, and what the operators on 128 bits have in common with them. On
operands of 128 bits every operator but the left shift has the exact result or fails. A left shift
has the exact result modulo `2 ^ 128`.

* `Expr.UnaryOp.exact`, `Expr.BinaryOp.exact`: the operators without bounds;
* `Expr.unary_eq_exact`, `Expr.approximates_of_apply`: the results in 128 bits.
-/

namespace HeaderConstants.Expr
set_option autoImplicit false

variable {x y z : Int}

def UnaryOp.exact : UnaryOp → Int → Int
  | negate, x => -x
  | keep, x => x
  | complement, x => 2 ^ 64 - 1 - x % 2 ^ 64
  | not, x => if x = 0 then 1 else 0

/-- A quotient by zero and a shift by a negative amount do not exist. -/
def BinaryOp.exact : BinaryOp → Int → Int → Option Int
  | or, x, y => some (if x ≠ 0 ∨ y ≠ 0 then 1 else 0)
  | and, x, y => some (if x ≠ 0 ∧ y ≠ 0 then 1 else 0)
  | bitOr, x, y => some (Int.lor x y)
  | bitXor, x, y => some (Int.xor x y)
  | bitAnd, x, y => some (Int.land x y)
  | equal, x, y => some (if x = y then 1 else 0)
  | notEqual, x, y => some (if x ≠ y then 1 else 0)
  | less, x, y => some (if x < y then 1 else 0)
  | greater, x, y => some (if x > y then 1 else 0)
  | lessEqual, x, y => some (if x ≤ y then 1 else 0)
  | greaterEqual, x, y => some (if x ≥ y then 1 else 0)
  | shiftLeft, x, y => if 0 ≤ y then some (x * 2 ^ y.toNat) else none
  | shiftRight, x, y => if 0 ≤ y then some (x.fdiv (2 ^ y.toNat)) else none
  | add, x, y => some (x + y)
  | sub, x, y => some (x - y)
  | mul, x, y => some (x * y)
  | div, x, y => if y = 0 then none else some (x.tdiv y)
  | rem, x, y => if y = 0 then none else some (x.tmod y)

/-! ## Integers of 128 bits -/

theorem bmod_of_fits (h : Fits x) : x.bmod wideCount = x := by
  obtain ⟨hlow, hhigh⟩ := h
  refine Int.bmod_eq_of_le_mul_two ?_ ?_ <;> simp only [wideCount] <;> omega

theorem fits_bmod (x : Int) : Fits (x.bmod wideCount) := by
  have hlow := Int.le_bmod (x := x) (m := wideCount) (by decide)
  have hhigh := Int.bmod_lt (x := x) (m := wideCount) (by decide)
  simp only [wideCount] at hlow hhigh
  simp only [wideCount, Fits]
  omega

theorem fits_ofBool (b : Bool) : Fits (ofBool b) := by
  cases b <;> decide

theorem fits_ofNat_iff {m : Nat} : Fits (Int.ofNat m) ↔ m < 2 ^ 127 := by
  simp only [Fits, Int.ofNat_eq_natCast]
  omega

theorem fits_negSucc_iff {m : Nat} : Fits (Int.negSucc m) ↔ m < 2 ^ 127 := by
  simp only [Fits, Int.negSucc_eq]
  omega

/-! ## Bits -/

theorem getLsbD_ofInt (w : Nat) (x : Int) (i : Nat) :
    (BitVec.ofInt w x).getLsbD i = (decide (i < w) && x.testBit i) := by
  cases x with
  | ofNat m =>
    show (BitVec.ofNat w m).getLsbD i = _
    rw [BitVec.getLsbD_ofNat]
    rfl
  | negSucc m =>
    rw [BitVec.ofInt_negSucc_eq_not_ofNat, BitVec.getLsbD_not, BitVec.getLsbD_ofNat]
    cases decide (i < w) <;> rfl

theorem fits_natBitwise (f : Bool → Bool → Bool) {m n : Nat} (hm : m < 2 ^ 127)
    (hn : n < 2 ^ 127) : Fits (Int.natBitwise f m n) := by
  rw [Int.natBitwise]
  cases f false false with
  | false => exact fits_ofNat_iff.2 (Nat.bitwise_lt_two_pow hm hn)
  | true => exact fits_negSucc_iff.2 (Nat.bitwise_lt_two_pow hm hn)

theorem fits_bitwise (f : Bool → Bool → Bool) (hx : Fits x) (hy : Fits y) :
    Fits (Int.bitwise f x y) := by
  cases x with
  | ofNat m =>
    have hm := fits_ofNat_iff.1 hx
    cases y with
    | ofNat n => exact fits_natBitwise f hm (fits_ofNat_iff.1 hy)
    | negSucc n => exact fits_natBitwise (fun a b => f a !b) hm (fits_negSucc_iff.1 hy)
  | negSucc m =>
    have hm := fits_negSucc_iff.1 hx
    cases y with
    | ofNat n => exact fits_natBitwise (fun a b => f (!a) b) hm (fits_ofNat_iff.1 hy)
    | negSucc n => exact fits_natBitwise (fun a b => f (!a) !b) hm (fits_negSucc_iff.1 hy)

/-- An operation bit by bit is the same on the two's complement of 128 bits as without end. -/
theorem bitwise_eq {f : Bool → Bool → Bool} {g : BitVec 128 → BitVec 128 → BitVec 128}
    (hg : ∀ a b i, i < 128 → (g a b).getLsbD i = f (a.getLsbD i) (b.getLsbD i)) (hx : Fits x)
    (hy : Fits y) : bitwise g x y = Int.bitwise f x y ∧ Fits (Int.bitwise f x y) := by
  have hbits : g (BitVec.ofInt 128 x) (BitVec.ofInt 128 y) =
      BitVec.ofInt 128 (Int.bitwise f x y) := by
    refine BitVec.eq_of_getLsbD_eq fun i hi => ?_
    rw [hg _ _ i hi, getLsbD_ofInt, getLsbD_ofInt, getLsbD_ofInt, Int.testBit_bitwise]
    simp [hi]
  have hfits := fits_bitwise f hx hy
  refine ⟨?_, hfits⟩
  rw [bitwise, hbits, BitVec.toInt_ofInt]
  exact bmod_of_fits hfits

/-! ## Operators -/

theorem checked_eq_ok_iff {op : Overflowing} : checked op x = .ok z ↔ z = x ∧ Fits x := by
  rw [checked]
  split
  · next h => simp [h, eq_comm]
  · next h => simp [h]

theorem ofBool_decide (p : Prop) [Decidable p] : ofBool (decide p) = if p then 1 else 0 := by
  by_cases h : p <;> simp [ofBool, h]

theorem fits_ite (p : Prop) [Decidable p] : Fits (if p then 1 else 0) :=
  ofBool_decide p ▸ fits_ofBool _

theorem shiftAmount_eq_ok {k : Nat} (h : shiftAmount y = .ok k) : 0 ≤ y ∧ k = y.toNat := by
  rw [shiftAmount] at h
  split at h
  · next hy => exact ⟨hy.1, (Except.ok.inj h).symm⟩
  · exact absurd h (by simp)

/-- A complement looks at the low 64 bits only. -/
theorem complement_bmod (x : Int) :
    UnaryOp.exact .complement (x.bmod wideCount) = UnaryOp.exact .complement x := by
  have hsplit : x.bmod wideCount + (wideCount : Int) * x.bdiv wideCount = x :=
    Int.bmod_add_bdiv x wideCount
  simp only [wideCount] at hsplit
  simp only [UnaryOp.exact, wideCount]
  omega

theorem unary_eq_exact {op : UnaryOp} (hx : Fits x) (h : op.apply x = .ok z) :
    z = op.exact x ∧ Fits z := by
  cases op with
  | negate =>
    obtain ⟨rfl, hfits⟩ := checked_eq_ok_iff.1 h
    exact ⟨rfl, hfits⟩
  | keep =>
    obtain rfl := Except.ok.inj h
    exact ⟨rfl, hx⟩
  | complement =>
    obtain rfl := Except.ok.inj h
    refine ⟨rfl, ?_⟩
    simp only [Fits, wordCount]
    omega
  | not =>
    obtain rfl := Except.ok.inj h
    exact ⟨ofBool_decide _, fits_ofBool _⟩

theorem fits_tmod (hx : Fits x) (y : Int) : Fits (x.tmod y) := by
  have hsmall : (x.tmod y).natAbs ≤ x.natAbs := by
    rw [Int.natAbs_tmod]
    exact Nat.mod_le _ _
  have hneg : 0 ≤ -x → 0 ≤ -x.tmod y := fun h => Int.neg_tmod x y ▸ Int.tmod_nonneg y h
  simp only [Fits] at hx ⊢
  omega

theorem fits_shiftRight (hx : Fits x) (k : Nat) : Fits (x / 2 ^ k) := by
  have hpos : (0 : Int) < 2 ^ k := by positivity
  obtain ⟨hlow, hhigh⟩ := hx
  refine ⟨Int.le_ediv_of_mul_le hpos ?_, Int.ediv_lt_of_lt_mul hpos ?_⟩ <;> omega

/-- The integer is the exact value modulo `2 ^ 128`, and unless bits may be dropped it is the exact
value. -/
def Approximates (exact : Option Int) (mayDrop : Prop) (z : Int) : Prop :=
  ∃ x, exact = some x ∧ z = x.bmod wideCount ∧ (¬ mayDrop → Fits x)

theorem approximates_of_fits {exact : Option Int} {mayDrop : Prop} (hexact : exact = some z)
    (hz : Fits z) : Approximates exact mayDrop z :=
  ⟨z, hexact, (bmod_of_fits hz).symm, fun _ => hz⟩

/-- On operands of 128 bits an operator has the exact result, but for bits that a left shift
drops. -/
theorem approximates_of_apply {op : BinaryOp} (hx : Fits x) (hy : Fits y)
    (h : op.apply x y = .ok z) : Approximates (op.exact x y) (op = .shiftLeft) z := by
  have comparing {p : Prop} [Decidable p] (hexact : op.exact x y = some (if p then 1 else 0))
      (hz : (.ok (ofBool (decide p)) : Except Fault Int) = .ok z) :
      Approximates (op.exact x y) (op = .shiftLeft) z := by
    rw [ofBool_decide] at hz
    obtain rfl := Except.ok.inj hz
    exact approximates_of_fits hexact (fits_ite p)
  have checking {w : Int} {o : Overflowing} (hexact : op.exact x y = some w)
      (hz : checked o w = .ok z) : Approximates (op.exact x y) (op = .shiftLeft) z := by
    obtain ⟨rfl, hfits⟩ := checked_eq_ok_iff.1 hz
    exact approximates_of_fits hexact hfits
  have bits {g : BitVec 128 → BitVec 128 → BitVec 128} {w : Int}
      (hexact : op.exact x y = some w) (hw : bitwise g x y = w ∧ Fits w)
      (hz : (.ok (bitwise g x y) : Except Fault Int) = .ok z) :
      Approximates (op.exact x y) (op = .shiftLeft) z := by
    rw [hw.1] at hz
    obtain rfl := Except.ok.inj hz
    exact approximates_of_fits hexact hw.2
  cases op with
  | or => exact comparing rfl h
  | and => exact comparing rfl h
  | bitOr =>
    have hbits := bitwise_eq (f := or) (fun _ _ _ _ => BitVec.getLsbD_or) hx hy
    exact bits rfl (Int.bitwise_or ▸ hbits) h
  | bitXor =>
    have hbits := bitwise_eq (f := xor) (fun _ _ _ _ => BitVec.getLsbD_xor) hx hy
    exact bits rfl (Int.bitwise_xor ▸ hbits) h
  | bitAnd =>
    have hbits := bitwise_eq (f := and) (fun _ _ _ _ => BitVec.getLsbD_and) hx hy
    exact bits rfl (Int.bitwise_and ▸ hbits) h
  | equal => exact comparing rfl h
  | notEqual => exact comparing rfl h
  | less => exact comparing rfl h
  | greater => exact comparing rfl h
  | lessEqual => exact comparing rfl h
  | greaterEqual => exact comparing rfl h
  | shiftLeft =>
    obtain ⟨k, hk, hz⟩ := map_eq_ok_iff.1 h
    obtain ⟨hpos, rfl⟩ := shiftAmount_eq_ok hk
    refine ⟨x * 2 ^ y.toNat, if_pos hpos, ?_, fun hne => absurd rfl hne⟩
    rw [← hz, Int.shiftLeft_eq]
  | shiftRight =>
    obtain ⟨k, hk, hz⟩ := map_eq_ok_iff.1 h
    obtain ⟨hpos, rfl⟩ := shiftAmount_eq_ok hk
    have hfloor : x.fdiv (2 ^ y.toNat) = x / 2 ^ y.toNat :=
      Int.fdiv_eq_ediv_of_nonneg x (by positivity)
    have hshift : z = x / 2 ^ y.toNat := by
      rw [← hz, Int.shiftRight_eq_div_pow]
      norm_cast
    refine approximates_of_fits ?_ (hshift ▸ fits_shiftRight hx _)
    rw [BinaryOp.exact, if_pos hpos, hfloor, hshift]
  | add => exact checking rfl h
  | sub => exact checking rfl h
  | mul => exact checking rfl h
  | div =>
    simp only [BinaryOp.apply] at h
    split at h
    · exact absurd h (by simp)
    · next hne => exact checking (if_neg hne) h
  | rem =>
    simp only [BinaryOp.apply] at h
    split at h
    · exact absurd h (by simp)
    · next hne =>
      split at h
      · obtain rfl := Except.ok.inj h
        exact approximates_of_fits (if_neg hne) (fits_tmod hx y)
      · exact absurd h (by simp)

end HeaderConstants.Expr
