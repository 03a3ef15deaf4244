import HeaderConstants.Proofs.Expr.Reading
import HeaderConstants.Proofs.Expr.Value
import HeaderConstants.Proofs.Expr.Written

/-!
# The texts that have a value

A text has a value if and only if it is read as tokens that are derived from a tree, its literals
have 128 bits, the tree has an integer, and the integer has a place in 64 bits. Whatever is written
from a tree, with the parentheses that it needs or with more of them, evaluates to the integer of
the tree.

* `Expr.Parses`: the tree of a text;
* `Expr.Represents`: the 64-bit value of an integer;
* `Expr.evaluate_eq_ok_iff_derives`: the texts with a value.
-/

namespace HeaderConstants.Expr
set_option autoImplicit false

open Text

variable {e : Text} {v : UInt64} {z : Int} {tree tree' : Tree}

/-- The text without its suffixes is read as tokens that are derived from the tree. -/
def Parses (e : Text) (tree : Tree) : Prop :=
  ∃ ts, Reads (stripSuffixes e) ts ∧ Derives 0 ts tree

/-- The value is the integer modulo `2 ^ 64`, and the integer is not too wide for it. -/
def Represents (v : UInt64) (z : Int) : Prop :=
  (-2 ^ 63 ≤ z ∧ z < 2 ^ 64) ∧ (v.toNat : Int) = z % 2 ^ 64

theorem toWord_eq_ok_iff : toWord z = .ok v ↔ Represents v z := by
  have hword : (wordCount : Int) = 2 ^ 64 := rfl
  have hvalue : UInt64.ofNat (z % 2 ^ 64).toNat = v ↔ (v.toNat : Int) = z % 2 ^ 64 := by
    have hlow : 0 ≤ z % 2 ^ 64 := Int.emod_nonneg z (by decide)
    have hhigh : z % 2 ^ 64 < 2 ^ 64 := Int.emod_lt_of_pos z (by decide)
    have hnat : (UInt64.ofNat (z % 2 ^ 64).toNat).toNat = (z % 2 ^ 64).toNat := by
      rw [UInt64.toNat_ofNat']
      exact Nat.mod_eq_of_lt (by omega)
    rw [← UInt64.toNat_inj, hnat]
    omega
  rw [toWord, hword, Represents, ← hvalue]
  split
  · next h => exact ⟨fun he => ⟨h, Except.ok.inj he⟩, fun hv => congrArg Except.ok hv.2⟩
  · next h => exact ⟨fun he => absurd he (by simp), fun hv => absurd hv.1 h⟩

/-- The integer of a text is that of the tree from which its tokens are derived. -/
theorem value?_eq_some_iff_derives : value? e = some z ↔
    ∃ ts tree, Reads (stripSuffixes e) ts ∧ LiteralsFit ts ∧ Derives 0 ts tree ∧
      tree.eval arithmetic = .ok z := by
  simp only [value?_eq_some_iff, tokens_eq_ok_iff, read_eq_ok_iff]
  constructor
  · rintro ⟨ts, ⟨hreads, hfit⟩, tree, htree, hz⟩
    exact ⟨ts, tree, hreads, hfit, htree, hz⟩
  · rintro ⟨ts, tree, hreads, hfit, htree, hz⟩
    exact ⟨ts, ⟨hreads, hfit⟩, tree, htree, hz⟩

theorem evaluate_eq_ok_iff_derives : evaluate e = .ok v ↔
    ∃ ts tree z, Reads (stripSuffixes e) ts ∧ LiteralsFit ts ∧ Derives 0 ts tree ∧
      tree.eval arithmetic = .ok z ∧ Represents v z := by
  simp only [evaluate_eq_ok_iff, value?_eq_some_iff_derives, toWord_eq_ok_iff]
  constructor
  · rintro ⟨z, ⟨ts, tree, hreads, hfit, htree, hz⟩, hv⟩
    exact ⟨ts, tree, z, hreads, hfit, htree, hz, hv⟩
  · rintro ⟨ts, tree, z, hreads, hfit, htree, hz, hv⟩
    exact ⟨z, ⟨ts, tree, hreads, hfit, htree, hz⟩, hv⟩

/-- The value of a text is that of any tree that it is parsed as. -/
theorem Parses.eval_of_evaluate (h : Parses e tree) (hv : evaluate e = .ok v) :
    ∃ ts z, Reads (stripSuffixes e) ts ∧ LiteralsFit ts ∧ Derives 0 ts tree ∧
      tree.eval arithmetic = .ok z ∧ Represents v z := by
  obtain ⟨ts, hreads, htree⟩ := h
  obtain ⟨ts', tree', z, hreads', hfit, htree', hz, hrep⟩ := evaluate_eq_ok_iff_derives.1 hv
  obtain rfl := hreads'.unique hfit hreads
  obtain rfl := htree'.unique htree
  exact ⟨ts', z, hreads', hfit, htree', hz, hrep⟩

theorem Parses.unique (hv : evaluate e = .ok v) (h : Parses e tree) (h' : Parses e tree') :
    tree = tree' := by
  obtain ⟨ts, -, hreads, hfit, htree, -⟩ := h.eval_of_evaluate hv
  obtain ⟨ts', hreads', htree'⟩ := h'
  obtain rfl := hreads.unique hfit hreads'
  exact htree.unique htree'

/-- What is written from a tree is parsed as the tree, but for its parentheses. -/
theorem Writes.exists_reads (h : Writes e (tree.tokens 0)) :
    ∃ tree', Reads (stripSuffixes e) (tree.tokens 0) ∧ Derives 0 (tree.tokens 0) tree' ∧
      tree'.bare = tree.bare := by
  obtain ⟨tree', htree, hbare⟩ := tree.exists_derives_tokens (Nat.zero_le 11)
  exact ⟨tree', h.reads htree.isChain.2.2, htree, hbare⟩

theorem evaluate_iff_of_writes (h : Writes e (tree'.tokens 0)) (hbare : tree'.bare = tree.bare) :
    evaluate e = .ok v ↔ ∃ z, tree.eval arithmetic = .ok z ∧ Represents v z := by
  obtain ⟨parsed, hreads, hparsed, hparsedBare⟩ := h.exists_reads
  have heval : parsed.eval arithmetic = tree.eval arithmetic := by
    rw [← parsed.eval_bare, hparsedBare, hbare, tree.eval_bare]
  constructor
  · intro hv
    have hparses : Parses e parsed := ⟨_, hreads, hparsed⟩
    obtain ⟨-, z, -, -, -, hz, hrep⟩ := hparses.eval_of_evaluate hv
    exact ⟨z, heval ▸ hz, hrep⟩
  · rintro ⟨z, hz, hrep⟩
    refine evaluate_eq_ok_iff_derives.2 ⟨_, parsed, z, hreads, h.literalsFit, hparsed, ?_, hrep⟩
    exact heval.trans hz

/-- The texts with a value are those of the grammar: a text is read in one way only, its tokens are
derived from one tree only, and its value is that of the tree. However a tree is written, with
whatever parentheses more than it needs, its text has the value of the tree. -/
theorem evaluate_accepts_exactly :
    (∀ e v, evaluate e = .ok v ↔ ∃ ts tree z, Reads (stripSuffixes e) ts ∧ LiteralsFit ts ∧
      Derives 0 ts tree ∧ tree.eval arithmetic = .ok z ∧ Represents v z) ∧
    (∀ t ts ts', Reads t ts → LiteralsFit ts → Reads t ts' → ts = ts') ∧
    (∀ ts tree tree', Derives 0 ts tree → Derives 0 ts tree' → tree = tree') ∧
    ∀ (tree printed : Tree) e v, printed.bare = tree.bare → Writes e (printed.tokens 0) →
      (evaluate e = .ok v ↔ ∃ z, tree.eval arithmetic = .ok z ∧ Represents v z) :=
  ⟨fun _ _ => evaluate_eq_ok_iff_derives, fun _ _ _ h hfit h' => h.unique hfit h',
    fun _ _ _ h h' => h.unique h', fun _ _ _ _ hbare h => evaluate_iff_of_writes h hbare⟩

theorem evaluate_accepts_exactly_sum :
    let e : Text := "1UL +0x2*( 03 )"
    let tree := Tree.binary .add (.literal 1) (.binary .mul (.literal 2) (.literal 3))
    let printed := Tree.binary .add (.literal 1) (.binary .mul (.literal 2) (.group (.literal 3)))
    printed.bare = tree.bare ∧ Writes e (printed.tokens 0) ∧ evaluate e = .ok 7 ∧
      (∀ ts, Reads (stripSuffixes e) ts → ts = printed.tokens 0) ∧
      ∀ t, Derives 0 (printed.tokens 0) t → t = printed := by
  intro e tree printed
  have hone : Spells ['1'] 1 := literalValue?_eq_some_iff.1 rfl
  have htwo : Spells ['0', 'x', '2'] 2 := literalValue?_eq_some_iff.1 rfl
  have hthree : Spells ['0', '3'] 3 := literalValue?_eq_some_iff.1 rfl
  have hlong : IsSuffix ['U', 'L'] := .unsigned (u := ['U']) (l := ['L']) (by decide) (by decide)
  have hwrites : Writes e (printed.tokens 0) := by
    refine .literal hone (by decide) hlong ?_
    refine .blank (by decide) (.single rfl ?_)
    refine .literal htwo (by decide) .none ?_
    refine .single rfl (.single rfl (.blank (by decide) ?_))
    refine .literal hthree (by decide) .none ?_
    exact .blank (by decide) (.single rfl .nil)
  have htree : Derives 0 (printed.tokens 0) printed := by
    have hgroup : Derives 11 _ (.group (.literal 3)) :=
      ((Derives.literal 3).mono (Nat.zero_le 12)).group.tighter
    have hproduct : Derives 10 _ (.binary .mul (.literal 2) (.group (.literal 3))) :=
      .binary (by decide) ((Derives.literal 2).mono (by decide)) hgroup
    have hsum : Derives 9 _ printed :=
      .binary (by decide) ((Derives.literal 1).mono (by decide)) hproduct
    exact hsum.mono (Nat.zero_le 9)
  obtain ⟨-, hread, hderive, hvalue⟩ := evaluate_accepts_exactly
  have hreads := hwrites.reads htree.isChain.2.2
  refine ⟨rfl, hwrites, ?_, fun ts h => (hread _ _ ts hreads hwrites.literalsFit h).symm,
    fun t h => hderive _ t _ h htree⟩
  exact (hvalue tree printed e 7 rfl hwrites).2 ⟨7, rfl, by decide, by decide⟩

end HeaderConstants.Expr
