import HeaderConstants.Json.Fields
import HeaderConstants.Json.Value
import HeaderConstants.Proofs.Json.Tree

/-!
# The value of a printed text

A natural number of 64 bits is in the range of floating point, so a printed text has a value, which
is the one that was printed.

* `Json.Number.isFinite_ofNat`: the range of natural numbers;
* `Json.value?_tree`, `Json.depth_tree_le`: the value and the depth of the tree of a value;
* `Json.ofText?_pretty`: the value of the indented form;
* `Json.size?_tree`, `Json.list?_tree`: what is read of the trees of fields.
-/

namespace HeaderConstants.Json
set_option autoImplicit false

open Text

variable {depth n : Nat} {j : Json}

/-! ## Numbers -/

namespace Number

theorem digit_of_digit? {c : Char} {d : Nat} (h : Numeral.digit? 10 c = some d) : digit c = d := by
  obtain ⟨hvalue, hlt⟩ := Option.filter_eq_some_iff.1 h
  have hten : d < 10 := by simpa using hlt
  unfold Numeral.digitValue? at hvalue
  split at hvalue
  · exact Option.some.inj hvalue
  · split at hvalue
    · have := Option.some.inj hvalue
      omega
    · split at hvalue
      · have := Option.some.inj hvalue
        omega
      · exact absurd hvalue (by simp)

theorem le_readFrom? {value : Nat} {w : Text} (h : Numeral.readFrom? 10 value w = some n) :
    value ≤ n := by
  induction w generalizing value with
  | nil => exact Nat.le_of_eq (Option.some.inj h)
  | cons c w ih =>
    rw [Numeral.readFrom?] at h
    split at h
    · next d hd =>
      have := ih h
      omega
    · exact absurd h (by simp)

/-- A number that fits 64 bits is taken up digit by digit to its end. -/
theorem scaleWhole_of_readFrom? {value : Nat} {w : Text} (hn : n < UInt64.size)
    (h : Numeral.readFrom? 10 value w = some n) : scaleWhole value w = ⟨n, 0⟩ := by
  induction w generalizing value with
  | nil =>
    obtain rfl := Option.some.inj h
    rfl
  | cons c w ih =>
    rw [Numeral.readFrom?] at h
    split at h
    · next d hd =>
      have hle := le_readFrom? h
      rw [scaleWhole, digit_of_digit? hd, if_pos (Nat.lt_of_le_of_lt hle hn)]
      exact ih h
    · exact absurd h (by simp)

theorem scaled_ofNat (hn : n < UInt64.size) : (ofNat n).scaled = ⟨n, 0⟩ := by
  have hwhole := scaleWhole_of_readFrom? hn (Numeral.readFrom?_decimal n)
  simp [scaled, ofNat, hwhole, scaleFraction]

theorem round53_le (n : Nat) : round53 n ≤ 2 * n := by
  rcases Nat.eq_zero_or_pos n with rfl | hn
  · decide
  · have hunit : 1 <<< (Nat.log2 n - 52) ≤ n := by
      rw [Nat.one_shiftLeft]
      calc 2 ^ (Nat.log2 n - 52) ≤ 2 ^ Nat.log2 n :=
            Nat.pow_le_pow_right (by decide) (Nat.sub_le _ _)
        _ ≤ n := Nat.log2_self_le (Nat.ne_of_gt hn)
    have hhigh : n / (1 <<< (Nat.log2 n - 52)) * (1 <<< (Nat.log2 n - 52)) ≤ n :=
      Nat.div_mul_le_self n _
    rw [round53]
    split
    · rw [Nat.add_mul]
      omega
    · omega

theorem isFinite_ofNat (hn : n < UInt64.size) : (ofNat n).isFinite = true := by
  have hone : round53 (Nat.pow 10 (0 : Int).toNat) = 1 := by decide
  have hround : round53 (round53 n * 1) < 1 <<< 1024 := by
    have hinner := round53_le n
    calc round53 (round53 n * 1) ≤ 2 * (round53 n * 1) := round53_le _
      _ ≤ 2 * (2 * UInt64.size) := by omega
      _ < 1 <<< 1024 := by decide
  simp only [isFinite, scaled_ofNat hn, hone, hround, decide_true]
  simp

theorem natural?_ofNat (n : Nat) : (ofNat n).natural? = some n :=
  Numeral.read?_decimal n

end Number

/-! ## Values and depths -/

theorem itemValues?_of_forall {items : List Json}
    (h : ∀ item ∈ items, item.tree.value? = some item) :
    Tree.itemValues? (itemTrees items) = some items := by
  induction items with
  | nil => rfl
  | cons item more ih =>
    obtain ⟨hitem, hmore⟩ := List.forall_mem_cons.1 h
    simp [itemTrees, Tree.itemValues?, hitem, ih hmore]

theorem memberValues?_of_forall {members : List (Text × Json)}
    (h : ∀ m ∈ members, m.2.tree.value? = some m.2) :
    Tree.memberValues? (memberTrees members) = some members := by
  induction members with
  | nil => rfl
  | cons m more ih =>
    obtain ⟨hvalue, hmore⟩ := List.forall_mem_cons.1 h
    simp [memberTrees, Tree.memberValues?, hvalue, ih hmore]

theorem value?_tree (h : Written depth j) : j.tree.value? = some j := by
  induction h with
  | null => rfl
  | bool b => rfl
  | nat hn =>
    rw [nat, tree, Tree.value?, if_pos (Number.isFinite_ofNat hn)]
  | string t => rfl
  | array h ih => rw [tree, Tree.value?, itemValues?_of_forall ih]; rfl
  | object h ih => rw [tree, Tree.value?, memberValues?_of_forall ih]; rfl

theorem itemsDepth_le {items : List Json} (h : ∀ item ∈ items, item.tree.depth ≤ depth) :
    Tree.itemsDepth (itemTrees items) ≤ depth := by
  induction items with
  | nil => exact Nat.zero_le depth
  | cons item more ih =>
    obtain ⟨hitem, hmore⟩ := List.forall_mem_cons.1 h
    exact Nat.max_le.2 ⟨hitem, ih hmore⟩

theorem membersDepth_le {members : List (Text × Json)} (h : ∀ m ∈ members, m.2.tree.depth ≤ depth) :
    Tree.membersDepth (memberTrees members) ≤ depth := by
  induction members with
  | nil => exact Nat.zero_le depth
  | cons m more ih =>
    obtain ⟨hvalue, hmore⟩ := List.forall_mem_cons.1 h
    exact Nat.max_le.2 ⟨hvalue, ih hmore⟩

theorem depth_tree_le (h : Written depth j) : j.tree.depth ≤ depth := by
  induction h with
  | null => exact Nat.zero_le _
  | bool b => exact Nat.zero_le _
  | nat hn => exact Nat.zero_le _
  | string t => exact Nat.zero_le _
  | array h ih => exact Nat.succ_le_succ (itemsDepth_le ih)
  | object h ih => exact Nat.succ_le_succ (membersDepth_le ih)

theorem ofText?_pretty (h : Written depth j) (hdepth : depth ≤ maxDepth) :
    Json.ofText? (j.pretty ++ ['\n']) = some j := by
  rw [Json.ofText?, Tree.ofText?_pretty h]
  exact (if_pos (Nat.le_trans (depth_tree_le h) hdepth)).trans (value?_tree h)

/-! ## Fields -/

theorem size?_tree (hn : n < UInt64.size) : (Json.nat n).tree.size? = some n := by
  simp [nat, tree, Tree.size?, Number.natural?_ofNat, Option.filter_some, hn]

theorem list?_tree_map {α β : Type} {d : Decoder β} {f : α → Json} {g : α → β} {as : List α}
    (h : ∀ a ∈ as, d (f a).tree = some (g a)) :
    (Json.array (as.map f)).tree.list? d = some (as.map g) := by
  rw [tree, Tree.list?]
  induction as with
  | nil => rfl
  | cons a more ih =>
    obtain ⟨ha, hmore⟩ := List.forall_mem_cons.1 h
    simp [itemTrees, ha, ih hmore]

theorem list?_tree {α : Type} {d : Decoder α} {f : α → Json} {as : List α}
    (h : ∀ a ∈ as, d (f a).tree = some a) : (Json.array (as.map f)).tree.list? d = some as := by
  rw [list?_tree_map (g := id) h, List.map_id]

/-- What is read of a field that may be null. -/
def Tree.nullable? {α : Type} (d : Decoder α) (t : Tree) : Option (Option α) :=
  if t.isNull then some none else (d t).map some

theorem Fields.optional_of_find? {α : Type} {f : Fields} {name : Text} {d : Decoder α} {t : Tree}
    (h : f.find? name = some t) : f.optional name d = t.nullable? d := by
  rw [Fields.optional, h, Tree.nullable?]

/-- A value that is printed as null where there is none. -/
theorem nullable?_getD {α : Type} {d : Decoder α} {g : α → Json} {x : Option α}
    (hread : ∀ a, d (g a).tree = some a) (hnull : ∀ a, (g a).tree.isNull = false) :
    ((x.map g).getD .null).tree.nullable? d = some x := by
  rw [Tree.nullable?]
  cases x with
  | none => rfl
  | some a => simp [hread, hnull]

end HeaderConstants.Json
