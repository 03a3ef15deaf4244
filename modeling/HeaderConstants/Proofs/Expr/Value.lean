import Mathlib.Data.List.TakeWhile
import HeaderConstants.Expr.Evaluate
import HeaderConstants.Proofs.Expr.Reader
import HeaderConstants.Proofs.Numeral.HexForm

/-!
# The integer of an expression

Before it is cut to 64 bits an expression stands for an integer. The integer depends on a group in
parentheses through the integer of the group alone; a jammed text has none, and neither has a text
with a name. A literal of a 64-bit value stands for the value.

* `Expr.value?`: the integer of an expression;
* `Expr.evaluate_eq_ok_iff`: evaluation is that integer, cut to 64 bits;
* `Expr.value?_group_congr`: groups of one integer are exchangeable;
* `Expr.SameGroups`: texts that differ in such groups only;
* `Expr.not_jammed_of_value?`, `Expr.head?_of_value?`: texts without an integer;
* `Expr.evaluate_of_spells`, `Expr.evaluate_hexLiteral`: texts that are one literal.
-/

namespace HeaderConstants.Expr
set_option autoImplicit false

open Text

variable {e e' s u w : Text} {ts : List Token} {v : UInt64} {z : Int}

def value? (e : Text) : Option Int :=
  match tokens (stripSuffixes e) with
  | .ok ts => (read arithmetic ts).toOption
  | .error _ => none

theorem value?_eq_some_iff :
    value? e = some z ↔ ∃ ts, tokens (stripSuffixes e) = .ok ts ∧ read arithmetic ts = .ok z := by
  unfold value?
  cases tokens (stripSuffixes e) with
  | error _ => simp
  | ok ts => cases hread : read arithmetic ts <;> simp [hread, Except.toOption]

theorem evaluate_eq_ok_iff :
    evaluate e = .ok v ↔ ∃ z, value? e = some z ∧ toWord z = .ok v := by
  simp only [evaluate, bind_eq_ok_iff, mapError_eq_ok_iff, value?_eq_some_iff]
  constructor
  · rintro ⟨ts, hts, z, hread, hword⟩
    exact ⟨z, ⟨ts, hts, hread⟩, hword⟩
  · rintro ⟨z, ⟨ts, hts, hread⟩, hword⟩
    exact ⟨ts, hts, z, hread, hword⟩

/-! ## Groups -/

theorem tokens_group (h : tokens (stripSuffixes e) = .ok ts) (u w : Text) :
    tokens (stripSuffixes (u ++ group e ++ w)) = (do
      let before ← tokens (stripSuffixes u)
      let after ← tokens (stripSuffixes w)
      pure (before ++ (.leftParen :: ts ++ .rightParen :: after))) := by
  have hsplit : u ++ group e ++ w = u ++ '(' :: (e ++ ')' :: w) := by simp [group]
  rw [hsplit, stripSuffixes_append_cons (by decide), stripSuffixes_append_cons (by decide),
    tokens_append_paren paren?_open, tokens_append_paren paren?_close, h]
  simp only [bind_assoc, pure_bind]
  rfl

theorem value?_group_congr (h : value? e = some z) (h' : value? e' = some z) (u w : Text) :
    value? (u ++ group e ++ w) = value? (u ++ group e' ++ w) := by
  obtain ⟨ts, hts, hread⟩ := value?_eq_some_iff.1 h
  obtain ⟨ts', hts', hread'⟩ := value?_eq_some_iff.1 h'
  unfold value?
  rw [tokens_group hts, tokens_group hts']
  cases tokens (stripSuffixes u) with
  | error _ => rfl
  | ok before =>
    cases tokens (stripSuffixes w) with
    | error _ => rfl
    | ok after => exact congrArg Except.toOption (read_group_congr hread hread' before after)

/-- The texts agree but for groups, and those stand for the same integers. -/
inductive SameGroups : Text → Text → Prop
  | nil : SameGroups [] []
  | cons {x y : Text} (c : Char) (h : SameGroups x y) : SameGroups (c :: x) (c :: y)
  | group {e e' x y : Text} {z : Int} (he : value? e = some z) (he' : value? e' = some z)
      (h : SameGroups x y) : SameGroups (Text.group e ++ x) (Text.group e' ++ y)

namespace SameGroups

variable {x x' y y' : Text}

theorem refl (x : Text) : SameGroups x x := by
  induction x with
  | nil => exact .nil
  | cons c x ih => exact .cons c ih

theorem append (h : SameGroups x y) (h' : SameGroups x' y') : SameGroups (x ++ x') (y ++ y') := by
  induction h with
  | nil => exact h'
  | cons c h ih => exact .cons c ih
  | group he he' h ih =>
    rw [List.append_assoc, List.append_assoc]
    exact .group he he' ih

theorem value?_append_eq (h : SameGroups x y) (u : Text) : value? (u ++ x) = value? (u ++ y) := by
  induction h generalizing u with
  | nil => rfl
  | cons c h ih => simpa using ih (u ++ [c])
  | @group e e' x y z he he' h ih =>
    calc value? (u ++ (Text.group e ++ x)) = value? (u ++ Text.group e ++ x) := by
          rw [List.append_assoc]
      _ = value? (u ++ Text.group e' ++ x) := value?_group_congr he he' u x
      _ = value? (u ++ Text.group e' ++ y) := ih _
      _ = value? (u ++ (Text.group e' ++ y)) := by rw [List.append_assoc]

theorem value?_eq (h : SameGroups x y) : value? x = value? y := h.value?_append_eq []

end SameGroups

/-! ## Texts without an integer -/

/-- No word of an expression with an integer is a name. -/
theorem head?_of_value? (h : value? e = some z) (hw : .word w ∈ segments e) :
    ∀ c ∈ w.head?, isNameStart c = false := by
  obtain ⟨ts, hts, -⟩ := value?_eq_some_iff.1 h
  exact (nameFree_of_tokens hts).head?_of_mem_segments hw

theorem underscore_not_mem_of_evaluate (h : evaluate e = .ok v) : '_' ∉ e := by
  obtain ⟨z, hz, -⟩ := evaluate_eq_ok_iff.1 h
  obtain ⟨ts, hts, -⟩ := value?_eq_some_iff.1 hz
  exact underscore_not_mem_of_tokens hts

theorem not_jammed_of_value? (h : value? e = some z) : ¬ Jammed e := by
  obtain ⟨ts, hts, hread⟩ := value?_eq_some_iff.1 h
  rintro (⟨u, w, rfl, hu⟩ | ⟨u, w, rfl, hw⟩)
  · rw [stripSuffixes_append_cons (by decide), tokens_append_paren paren?_open] at hts
    obtain ⟨before, hbefore, hts⟩ := bind_eq_ok_iff.1 hts
    obtain ⟨after, -, hts⟩ := bind_eq_ok_iff.1 hts
    obtain ⟨last, hlast, hend⟩ :=
      (reads_of_tokens hbefore).endToken ((stripped_stripSuffixes u).endsOperand hu)
    obtain ⟨before, rfl⟩ := List.getLast?_eq_some_iff.1 hlast
    obtain rfl := Except.ok.inj hts
    rw [List.append_assoc] at hread
    have hstart : StartToken .leftParen := trivial
    exact not_read_of_adjacent hend hstart before after hread
  · rw [stripSuffixes_append_cons (by decide), tokens_append_paren paren?_close] at hts
    obtain ⟨before, -, hts⟩ := bind_eq_ok_iff.1 hts
    obtain ⟨after, hafter, hts⟩ := bind_eq_ok_iff.1 hts
    obtain ⟨first, hfirst, hstart⟩ :=
      (reads_of_tokens hafter).startToken ((stripped_stripSuffixes w).beginsOperand hw)
    obtain ⟨after, rfl⟩ := List.head?_eq_some_iff.1 hfirst
    obtain rfl := Except.ok.inj hts
    have hend : EndToken .rightParen := trivial
    exact not_read_of_adjacent hend hstart before after hread

/-! ## Literals -/

/-- A literal of 64 bits stands for its number, whatever suffix it has. -/
theorem value?_of_spells (h : Spells w v.toNat) (hs : IsSuffix s) :
    value? (w ++ s) = some (v.toNat : Int) := by
  have hlt : v.toNat < 2 ^ 64 := v.toNat_lt
  have hliteral : literal? w = some v.toNat := literal?_eq_some_iff.2 ⟨h, by omega⟩
  have htokens : tokens (w ++ []) = .ok [.int v.toNat] := by
    rw [tokens_of_spells h (by simp), literalToken, hliteral, tokens]
    rfl
  rw [List.append_nil] at htokens
  rw [value?_eq_some_iff, stripSuffixes_literal h.isLiteral hs]
  exact ⟨_, htokens, rfl⟩

theorem toWord_toNat (v : UInt64) : toWord v.toNat = .ok v := by
  have hlt : v.toNat < 2 ^ 64 := v.toNat_lt
  have hfits : -0x8000000000000000 ≤ (v.toNat : Int) ∧ (v.toNat : Int) < wordCount := by
    unfold wordCount
    omega
  have hmod : (v.toNat : Int) % wordCount = v.toNat := Int.emod_eq_of_lt (by omega) hfits.2
  rw [toWord, if_pos hfits, hmod, Int.toNat_natCast, UInt64.ofNat_toNat]

theorem evaluate_of_spells (h : Spells w v.toNat) (hs : IsSuffix s) : evaluate (w ++ s) = .ok v :=
  evaluate_eq_ok_iff.2 ⟨v.toNat, value?_of_spells h hs, toWord_toNat v⟩

theorem spells_of_isHex (h : HexLiteral.IsHex w v) : Spells w v.toNat := by
  obtain ⟨x, digits, rfl, hx, hn⟩ := h
  exact .hexadecimal hx hn

theorem spells_hexLiteral (v : UInt64) : Spells (HexLiteral.text v) v.toNat :=
  spells_of_isHex (HexLiteral.isHex_text v)

theorem isWord_hexLiteral (v : UInt64) : IsWord (HexLiteral.text v) := (spells_hexLiteral v).isWord

theorem value?_hexLiteral (v : UInt64) : value? (HexLiteral.text v) = some (v.toNat : Int) := by
  have hvalue := value?_of_spells (spells_hexLiteral v) .none
  rwa [List.append_nil] at hvalue

theorem evaluate_hexLiteral (v : UInt64) : evaluate (HexLiteral.text v) = .ok v :=
  evaluate_eq_ok_iff.2 ⟨v.toNat, value?_hexLiteral v, toWord_toNat v⟩

end HeaderConstants.Expr
