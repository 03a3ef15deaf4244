import HeaderConstants.Json.Tree
import HeaderConstants.Proofs.Json.Printer

/-!
# The tree of a printed value

The tokens of a value, read one by one on top of whatever is open, leave the tree of the value.

* `Json.tree`: the tree of a value;
* `Json.Builds`: the tokens of a value read from any state in which a value is due;
* `Json.Tree.ofText?_compact`, `Json.Tree.ofText?_pretty`: the two forms.
-/

namespace HeaderConstants.Json
set_option autoImplicit false

mutual

def tree : Json → Tree
  | .null => .null
  | .bool b => .bool b
  | .number n => .number n
  | .string t => .string (some t)
  | .array items => .array (itemTrees items)
  | .object members => .object (memberTrees members)

def itemTrees : List Json → List Tree
  | [] => []
  | item :: more => item.tree :: itemTrees more

def memberTrees : List (Text × Json) → List (Option Text × Tree)
  | [] => []
  | (key, value) :: more => (some key, value.tree) :: memberTrees more

end

variable {depth : Nat} {j : Json} {items : List Json} {members : List (Text × Json)}
  {ts : List Token}

/-- Read where a value is due, the tokens leave the tree. -/
def Builds (j : Json) : Prop := ∀ (stack : List OpenTree) (ts : List Token),
  (j.tokens ++ ts).foldlM ReadState.next? (.value stack) =
    ts.foldlM ReadState.next? (.done stack j.tree)

theorem foldlM_next?_cons {s s' : ReadState} {token : Token} (h : s.next? token = some s') :
    (token :: ts).foldlM ReadState.next? s = ts.foldlM ReadState.next? s' := by
  rw [List.foldlM_cons, h]
  rfl

/-- The first item of a list is read like any other. -/
theorem next?_firstItem (j : Json) (stack : List OpenTree) (ts : List Token) :
    (j.tokens ++ ts).foldlM ReadState.next? (.firstItem stack) =
      (j.tokens ++ ts).foldlM ReadState.next? (.value (.array [] :: stack)) := by
  cases j <;> rfl

theorem builds_items (stack : List OpenTree) (ts : List Token) {item : Json}
    (h : ∀ i ∈ item :: items, Builds i) (acc : List Tree) :
    (itemTokens (item :: items) ++ .closeBracket :: ts).foldlM ReadState.next?
        (.value (.array acc :: stack)) =
      ts.foldlM ReadState.next? (.done stack (.array (acc ++ itemTrees (item :: items)))) := by
  induction items generalizing item acc with
  | nil =>
    rw [itemTokens, h item (List.mem_cons_self ..)]
    exact foldlM_next?_cons rfl
  | cons next more ih =>
    obtain ⟨hitem, hmore⟩ := List.forall_mem_cons.1 h
    rw [itemTokens, List.append_assoc, hitem, List.cons_append, foldlM_next?_cons rfl, ih hmore]
    simp [itemTrees]

theorem builds_members (stack : List OpenTree) (ts : List Token) {m : Text × Json}
    (h : ∀ n ∈ m :: members, Builds n.2) (acc : List (Option Text × Tree)) :
    (memberTokens (m :: members) ++ .closeBrace :: ts).foldlM ReadState.next? (.key stack acc) =
      ts.foldlM ReadState.next? (.done stack (.object (acc ++ memberTrees (m :: members)))) := by
  induction members generalizing m acc with
  | nil =>
    obtain ⟨key, value⟩ := m
    have hvalue : Builds value := h (key, value) (List.mem_cons_self ..)
    rw [memberTokens, List.cons_append, foldlM_next?_cons rfl, List.cons_append,
      foldlM_next?_cons rfl, hvalue, foldlM_next?_cons rfl, partsText?_parts]
    rfl
  | cons next more ih =>
    obtain ⟨key, value⟩ := m
    obtain ⟨hvalue, hmore⟩ := List.forall_mem_cons.1 h
    rw [memberTokens, List.append_assoc, List.cons_append, foldlM_next?_cons rfl, List.cons_append,
      foldlM_next?_cons rfl, hvalue, List.cons_append, foldlM_next?_cons rfl, ih hmore,
      partsText?_parts]
    simp [memberTrees]

theorem tokens_array (items : List Json) (ts : List Token) : (Json.array items).tokens ++ ts =
    .openBracket :: (itemTokens items ++ .closeBracket :: ts) := by
  simp [tokens]

theorem tokens_object (members : List (Text × Json)) (ts : List Token) :
    (Json.object members).tokens ++ ts =
      .openBrace :: (memberTokens members ++ .closeBrace :: ts) := by
  simp [tokens]

theorem exists_itemTokens_cons (item : Json) (more : List Json) :
    ∃ rest, itemTokens (item :: more) = item.tokens ++ rest := by
  cases more with
  | nil => exact ⟨[], (List.append_nil _).symm⟩
  | cons next more => exact ⟨_, rfl⟩

theorem exists_memberTokens_cons (m : Text × Json) (more : List (Text × Json)) :
    ∃ parts rest, memberTokens (m :: more) = .quoted parts :: rest := by
  obtain ⟨key, value⟩ := m
  cases more with
  | nil => exact ⟨_, _, rfl⟩
  | cons next more => exact ⟨_, _, rfl⟩

theorem Written.builds (h : Written depth j) : Builds j := by
  induction h with
  | null => exact fun stack ts => rfl
  | bool b => exact fun stack ts => rfl
  | nat hn => exact fun stack ts => rfl
  | string t =>
    intro stack ts
    rw [tree, ← partsText?_parts t]
    rfl
  | @array depth items h ih =>
    intro stack ts
    rw [tokens_array, foldlM_next?_cons rfl]
    cases items with
    | nil => exact foldlM_next?_cons rfl
    | cons item more =>
      obtain ⟨rest, hrest⟩ := exists_itemTokens_cons item more
      have hitems := builds_items stack ts ih []
      rw [hrest, List.append_assoc] at hitems ⊢
      exact (next?_firstItem item stack _).trans hitems
  | @object depth members h ih =>
    intro stack ts
    rw [tokens_object, foldlM_next?_cons rfl]
    cases members with
    | nil => exact foldlM_next?_cons rfl
    | cons m more =>
      obtain ⟨parts, rest, hrest⟩ := exists_memberTokens_cons m more
      have hmembers := builds_members stack ts ih []
      rw [hrest] at hmembers ⊢
      exact hmembers

theorem ofTokens?_tokens (h : Written depth j) : Tree.ofTokens? j.tokens = some j.tree := by
  have hbuilds := h.builds [] []
  rw [List.append_nil] at hbuilds
  rw [Tree.ofTokens?, hbuilds]
  rfl

namespace Tree

theorem ofText?_compact (h : Written depth j) : Tree.ofText? j.compact = some j.tree := by
  have hreads := readsAs_compact h (fun c hc => absurd hc (by simp)) .nil
  rw [List.append_nil, List.append_nil] at hreads
  rw [Tree.ofText?, hreads.tokens?_eq]
  exact ofTokens?_tokens h

/-- The indented form, ended by a line feed. -/
theorem ofText?_pretty (h : Written depth j) : Tree.ofText? (j.pretty ++ ['\n']) = some j.tree := by
  have hreads := readsAs_indented h 0 (endsNumber_cons (by decide)) (.space (c := '\n') rfl .nil)
  rw [List.append_nil] at hreads
  rw [Tree.ofText?, pretty, hreads.tokens?_eq]
  exact ofTokens?_tokens h

end Tree

end HeaderConstants.Json
