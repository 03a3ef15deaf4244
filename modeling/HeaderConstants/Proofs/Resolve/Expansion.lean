import Mathlib.Logic.Relator
import HeaderConstants.Proofs.Expr.Value
import HeaderConstants.Proofs.Resolve.Passes

/-!
# The expansion of whole words

The expansion of an expression replaces each word that is a name, as a whole, by the expansion of
what the name stands for, in parentheses. It need not exist: a name can stand for nothing, or for
something that leads back to it. The passes over an expression replace names inside words as well.
Where they end in a text with an integer they have replaced whole words only, and the text is the
expansion of the one they started from.

* `Resolve.Expands`: expressions with their expansions;
* `Resolve.Expands.unique`, `Resolve.Expands.acc`: one expansion, and no name that leads to itself;
* `Resolve.expands_of_rewrites`: the passes find the expansion, or a text without an integer.
-/

namespace HeaderConstants.Resolve
set_option autoImplicit false

open Text HeaderConstants.Expr

variable {D : Text → Text → Prop} {t : Table} {s s' more : List Segment}
  {e e' body inner n r u w x y : Text}

/-- The second text is the expansion of the segments, where names stand for texts as the relation
says. A word that is no name has to be a number, so it does not start like a name. -/
inductive Expands (D : Text → Text → Prop) : List Segment → Text → Prop
  | nil : Expands D [] []
  | mark {more : List Segment} {e : Text} (c : Char) (h : Expands D more e) :
      Expands D (.mark c :: more) (c :: e)
  | number {more : List Segment} {e w : Text} (hw : ∀ c ∈ w.head?, isNameStart c = false)
      (hD : ∀ body, ¬ D w body) (h : Expands D more e) : Expands D (.word w :: more) (w ++ e)
  | name {more : List Segment} {e w body inner : Text} (hD : D w body)
      (hbody : Expands D (segments body) inner) (h : Expands D more e) :
      Expands D (.word w :: more) (group inner ++ e)

namespace Expands

theorem append_inv (h : Expands D (s ++ s') e) :
    ∃ x y, e = x ++ y ∧ Expands D s x ∧ Expands D s' y := by
  induction s generalizing e with
  | nil => exact ⟨[], e, rfl, .nil, h⟩
  | cons first s ih =>
    cases h with
    | mark c h =>
      obtain ⟨x, y, rfl, hx, hy⟩ := ih h
      exact ⟨c :: x, y, rfl, .mark c hx, hy⟩
    | number hw hD h =>
      obtain ⟨x, y, rfl, hx, hy⟩ := ih h
      exact ⟨_ ++ x, y, by rw [List.append_assoc], .number hw hD hx, hy⟩
    | name hD hbody h =>
      obtain ⟨x, y, rfl, hx, hy⟩ := ih h
      exact ⟨_ ++ x, y, by rw [List.append_assoc], .name hD hbody hx, hy⟩

theorem unique (hfun : Relator.RightUnique D) (h : Expands D s e)
    (h' : Expands D s e') : e = e' := by
  induction h generalizing e' with
  | nil => cases h'; rfl
  | mark c h ih =>
    cases h' with
    | mark _ h' => rw [ih h']
  | number hw hD h ih =>
    cases h' with
    | number _ _ h' => rw [ih h']
    | name hD' => exact absurd hD' (hD _)
  | name hD hbody h ihbody ih =>
    cases h' with
    | number _ hD' => exact absurd hD (hD' _)
    | name hD' hbody' h' =>
      obtain rfl := hfun hD hD'
      rw [ihbody hbody', ih h']

end Expands

/-! ## No name leads to itself -/

/-- The second word is in the text that the first one stands for. -/
def Uses (D : Text → Text → Prop) (w w' : Text) : Prop :=
  ∃ body, D w body ∧ .word w' ∈ segments body

theorem Expands.acc (hfun : Relator.RightUnique D) (h : Expands D s e)
    (hw : .word w ∈ s) : Acc (fun a b => Uses D b a) w := by
  induction h generalizing w with
  | nil => exact absurd hw List.not_mem_nil
  | mark c h ih => exact ih (by simpa using hw)
  | number hv hD h ih =>
    rcases List.mem_cons.1 hw with hw | hw
    · obtain rfl := Segment.word.inj hw
      exact .intro _ fun _ ⟨body, hbody, _⟩ => absurd hbody (hD body)
    · exact ih hw
  | name hD hbody h ihbody ih =>
    rcases List.mem_cons.1 hw with hw | hw
    · obtain rfl := Segment.word.inj hw
      refine .intro _ fun w' ⟨body, hbody', hw'⟩ => ?_
      obtain rfl := hfun hD hbody'
      exact ihbody hw'
    · exact ih hw

/-- A word of an expression with an expansion is a number or stands for something. -/
theorem Expands.defined (h : Expands D s e) (hw : .word w ∈ s) :
    (∀ c ∈ w.head?, isNameStart c = false) ∨ ∃ body, D w body := by
  induction h with
  | nil => exact absurd hw List.not_mem_nil
  | mark c h ih => exact ih (by simpa using hw)
  | number hv hD h ih =>
    rcases List.mem_cons.1 hw with hw | hw
    · exact .inl (Segment.word.inj hw ▸ hv)
    · exact ih hw
  | name hD hbody h _ ih =>
    rcases List.mem_cons.1 hw with hw | hw
    · exact .inr ⟨_, Segment.word.inj hw ▸ hD⟩
    · exact ih hw

/-! ## What the passes find -/

theorem expands_self (h : ∀ w, .word w ∈ segments e →
    (∀ c ∈ w.head?, isNameStart c = false) ∧ ∀ body, ¬ D w body) : Expands D (segments e) e := by
  induction e using word_induction with
  | nil => exact .nil
  | mark c rest hc ih =>
    rw [segments_cons_mark hc] at h ⊢
    exact .mark c (ih fun w hw => h w (List.mem_cons_of_mem _ hw))
  | word w rest hw hrest ih =>
    rw [segments_word_append hw hrest] at h ⊢
    obtain ⟨hhead, hD⟩ := h w (List.mem_cons_self ..)
    exact .number hhead hD (ih fun w hw => h w (List.mem_cons_of_mem _ hw))

/-- To replace a name by its text in parentheses is a step of the expansion. -/
theorem expands_of_flatMap_replace (hn : D n r)
    (h : Expands D (s.flatMap (Segment.replace n r)) e) : Expands D s e := by
  induction s generalizing e with
  | nil => exact h
  | cons first s ih =>
    rw [List.flatMap_cons] at h
    cases first with
    | mark c =>
      cases h with
      | mark _ h => exact .mark c (ih h)
    | word w =>
      by_cases hw : w = n
      · subst hw
        simp only [Segment.replace, if_true, List.cons_append, List.append_assoc] at h
        cases h with
        | mark _ h =>
          obtain ⟨inner, _, rfl, hinner, hclose⟩ := h.append_inv
          cases hclose with
          | @mark _ e _ hrest =>
            have hgroup : '(' :: (inner ++ ')' :: e) = group inner ++ e := by simp [group]
            rw [hgroup]
            exact .name hn hinner (ih hrest)
      · simp only [Segment.replace, if_neg hw, List.singleton_append] at h
        cases h with
        | number hhead hD h => exact .number hhead hD (ih h)
        | name hD hbody h => exact .name hD hbody (ih h)

/-- What the entries of a table stand for. -/
def Entry (t : Table) (w body : Text) : Prop := ⟨w, group body⟩ ∈ t

/-- The names are words, and what replaces them stands in parentheses. -/
def GroupsWords (t : Table) : Prop := ∀ s ∈ t, IsWord s.name ∧ ∃ body, s.replacement = group body

theorem not_jammed_of_rewrites (ht : GroupsWords t) (h : Rewrites t x y) (hy : ¬ Jammed y) :
    ¬ Jammed x := by
  induction h with
  | refl v => exact hy
  | step hs hin h ih =>
    obtain ⟨hname, body, hbody⟩ := ht _ hs
    intro hj
    refine ih hy ?_
    rw [hbody]
    exact hj.replaceAll hname

/-- A text that passes lead to a text without jam and without names has it as its expansion. -/
theorem expands_of_rewrites (ht : GroupsWords t) (h : Rewrites t x y) (hy : ¬ Jammed y)
    (hself : Expands (Entry t) (segments y) y) : Expands (Entry t) (segments x) y := by
  induction h with
  | refl v => exact hself
  | @step s v w hs hin h ih =>
    obtain ⟨hname, body, hbody⟩ := ht s hs
    have hjam := not_jammed_of_rewrites ht h hy
    have hexp := ih hy hself
    rw [hbody] at hjam hexp
    rw [(segments_replaceAll hname hjam).2] at hexp
    have hentry : Entry t s.name body := by
      unfold Entry
      rw [← hbody]
      exact hs
    exact expands_of_flatMap_replace hentry hexp

end HeaderConstants.Resolve
