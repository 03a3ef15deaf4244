import Mathlib.Logic.Relation
import HeaderConstants.Proofs.Resolve.Soundness

/-!
# Runs replace whole words

Names are replaced wherever their characters occur, but what a run resolves it resolves as if whole
words had been replaced. A run over identifiers that succeeds has an expansion for each constant,
and gives each the value of its expansion, if no expansion stands for a negative integer.
-/

namespace HeaderConstants
set_option autoImplicit false

open Text HeaderConstants.Expr Resolve

variable {cs : List Constant}

namespace Resolve

theorem not_transGen_of_acc {α : Type} {r : α → α → Prop} {a : α}
    (h : Acc (fun x y => r y x) a) : ¬ Relation.TransGen r a a := by
  induction h with
  | intro a _ ih =>
    intro hcycle
    obtain ⟨b, hab, hba⟩ := Relation.TransGen.head'_iff.1 hcycle
    exact ih b hab (Relation.TransGen.tail' hba hab)

/-- If every text has an expansion, no name leads to itself. -/
theorem acyclic_of_expands
    (h : ∀ c ∈ cs, ∃ e, Expands (Defines cs) (segments c.body) e) (w : Text) :
    ¬ Relation.TransGen (Uses (Defines cs)) w w := by
  intro hcycle
  obtain ⟨u, -, body, hbody, hw⟩ := Relation.TransGen.tail'_iff.1 hcycle
  obtain ⟨c, hc, -, rfl⟩ := hbody.exists_constant
  obtain ⟨e, he⟩ := h c hc
  exact not_transGen_of_acc (he.acc (rightUnique_defines cs) hw) hcycle

end Resolve

namespace Resolver

/-- A run that succeeds has one expansion for each constant: every name in it is defined, and none
leads to itself. If no expansion stands for a negative integer, the constants get the values of
their expansions. -/
theorem run_replaces_whole_words (r : Resolver) (cs : List Constant)
    (hnames : ∀ c ∈ cs, Identifier c.name) (hfresh : ∀ c ∈ cs, c.isResolved = false)
    (hrun : (r.run cs).failure = none) :
    (∀ c ∈ cs, ∃! e, Expands (Defines cs) (segments c.rawValue) e) ∧
    (∀ c ∈ cs, ∀ w, .word w ∈ segments c.rawValue →
      (∃ a ∈ w.head?, isNameStart a = true) → ∃ body, Defines cs w body) ∧
    (∀ w, ¬ Relation.TransGen (Uses (Defines cs)) w w) ∧
    ((∀ c ∈ cs, ∀ e, Expands (Defines cs) (segments c.rawValue) e →
        ∀ z, value? e = some z → 0 ≤ z) →
      List.Forall₂ (fun c c' => ∃ v trace e, c' = c.resolve v trace ∧
        Expands (Defines cs) (segments c.rawValue) e ∧ evaluate e = .ok v)
        cs (r.run cs).constants) := by
  have houtcomes := (List.forall₂_and_left _ _).2
    ⟨hfresh, outcomes_of_run r (fun c hc => (hnames c hc).properName) hrun⟩
  have hresolved : List.Forall₂ (fun c c' =>
      (∃ e, Expands (Defines cs) (segments c.rawValue) e) ∧
      ∃ v trace e, c' = c.resolve v trace ∧ Expands (Defines cs) (segments c.rawValue) e ∧
        (NonnegativeUses cs → evaluate e = .ok v)) cs (r.run cs).constants := by
    refine houtcomes.imp fun c c' ⟨hres, houtcome⟩ => ?_
    obtain ⟨v, trace, e, hc', he, hvalue⟩ := houtcome.of_unresolved hres
    exact ⟨⟨e, he⟩, v, trace, e, hc', he, hvalue⟩
  obtain ⟨hexp, hvalues⟩ := (List.forall₂_and_left _ _).1 hresolved
  have hbody : ∀ c ∈ cs, c.body = c.rawValue := fun c hc => body_of_unresolved (hfresh c hc)
  refine ⟨fun c hc => ?_, fun c hc w hw => ?_, fun w => ?_, fun hpos => ?_⟩
  · obtain ⟨e, he⟩ := hexp c hc
    exact ⟨e, he, fun e' he' => he'.unique (rightUnique_defines cs) he⟩
  · rintro ⟨a, ha, hstart⟩
    obtain ⟨e, he⟩ := hexp c hc
    rcases he.defined hw with hnumber | hdef
    · rw [hnumber a ha] at hstart
      exact absurd hstart (by simp)
    · exact hdef
  · refine acyclic_of_expands (fun c hc => ?_) w
    rw [hbody c hc]
    exact hexp c hc
  · have huses : NonnegativeUses cs := by
      intro c hc w hw body hdef e he z hz
      obtain ⟨d, hd, -, rfl⟩ := hdef.exists_constant
      rw [hbody d hd] at he
      exact hpos d hd e he z hz
    refine hvalues.imp fun c c' ⟨v, trace, e, hc', he, hvalue⟩ => ?_
    exact ⟨v, trace, e, hc', he, hvalue huses⟩

/-- A name inside another one, which is defined twice. -/
theorem run_replaces_whole_words_nested :
    let define (name value : String) : Constant := .define name value "" 0 ""
    let cs := [define "A" "AB | 1", define "AB" "4", define "AB" "2"]
    let r : Resolver := .new ⟨some 3, false⟩
    (∀ c ∈ cs, Identifier c.name) ∧ (∀ c ∈ cs, c.isResolved = false) ∧
      (r.run cs).failure = none ∧
      List.Forall₂ (fun c c' => ∃ v trace e, c' = c.resolve v trace ∧
        Expands (Defines cs) (segments c.rawValue) e ∧ evaluate e = .ok v)
        cs (r.run cs).constants := by
  intro define cs r
  have hnames : ∀ c ∈ cs, Identifier c.name := by decide
  have hfresh : ∀ c ∈ cs, c.isResolved = false := by decide
  have hrun : (r.run cs).failure = none := by decide +kernel
  have digit (d : Char) (hd : isNameStart d = false) (hdef : definition? cs [d] = none) :
      Expands (Defines cs) [.word [d]] [d] := by
    have hhead : ∀ c ∈ [d].head?, isNameStart c = false := by simpa using hd
    have hundefined : ∀ body, ¬ Defines cs [d] body := by
      intro body hbody
      have hnone : none = some body := hdef.symm.trans hbody
      exact absurd hnone (by simp)
    exact .number hhead hundefined .nil
  have four : Expands (Defines cs) (segments "4".toList) "4".toList :=
    digit '4' (by decide) (by decide)
  have two : Expands (Defines cs) (segments "2".toList) "2".toList :=
    digit '2' (by decide) (by decide)
  have either : Expands (Defines cs) (segments "AB | 1".toList) "(2) | 1".toList := by
    have hdef : Defines cs "AB" "2" := by unfold Defines; decide
    have hone := digit '1' (by decide) (by decide)
    exact .name hdef two (.mark ' ' (.mark '|' (.mark ' ' hone)))
  refine ⟨hnames, hfresh, hrun, (run_replaces_whole_words r cs hnames hfresh hrun).2.2.2 ?_⟩
  have positive {x e : Text} {n : Nat} (he : Expands (Defines cs) (segments x) e)
      (hn : value? e = some (n : Int)) :
      ∀ e', Expands (Defines cs) (segments x) e' → ∀ z, value? e' = some z → 0 ≤ z := by
    intro e' he' z hz
    rw [he'.unique (rightUnique_defines cs) he, hn] at hz
    obtain rfl := Option.some.inj hz
    exact Int.natCast_nonneg n
  intro c hc
  simp only [cs, List.mem_cons, List.not_mem_nil, or_false] at hc
  rcases hc with rfl | rfl | rfl
  · exact positive (n := 3) either (by decide +kernel)
  · exact positive (n := 4) four (by decide +kernel)
  · exact positive (n := 2) two (by decide +kernel)

end Resolver

end HeaderConstants
