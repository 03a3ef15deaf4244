import HeaderConstants.Proofs.Expr.Fault
import HeaderConstants.Proofs.Resolve.Turn

/-!
# Which text a report shows

A malformed expression is reported with a text of its own. It is the expression that was given,
unless a token is at fault: then it is that expression without the suffixes of its literals. In a
run the expression that was given is the one that the passes over a raw text end with.

* `Resolver.malformed_shows_text`: the text that a report shows, of evaluation and of a run.
-/

namespace HeaderConstants
set_option autoImplicit false

open Text HeaderConstants.Expr Resolve

namespace Resolver

/-- Evaluation reports a fault of the expression with the text that this fault shows. It is the
expression itself if and only if the fault keeps the text. In a run the expression is the text that
the passes over the constant end with. -/
theorem malformed_shows_text (e : Text) (r : Resolver) (cs : List Constant) :
    (∀ shown cause, evaluate e = .error (.malformed shown cause) ↔
      Fails e cause ∧ shown = cause.shows e) ∧
    (∀ cause : Fault, cause.shows e = e ↔ cause.KeepsText e) ∧
    ∀ origin shown cause,
      (r.run cs).failure = some (.expression origin (.malformed shown cause)) →
        ∃ turn ∈ r.turns cs, ∃ x, turn.constant.origin = origin ∧
          expand? turn.table (r.limit cs) turn.constant.rawValue = some x ∧
          Fails x.text cause ∧ shown = cause.shows x.text ∧
          (shown = x.text ↔ cause.KeepsText x.text) := by
  refine ⟨fun shown cause => evaluate_eq_malformed_iff, fun cause => shows_eq_self_iff, ?_⟩
  intro origin shown cause h
  obtain ⟨turn, hturn, herror⟩ := exists_turn_of_failure h
  obtain ⟨x, hx, horigin, hvalue⟩ := resolveConstant_eq_expression_iff.1 herror
  obtain ⟨hfails, rfl⟩ := evaluate_eq_malformed_iff.1 hvalue
  exact ⟨turn, hturn, x, horigin, hx, hfails, rfl, shows_eq_self_iff⟩

/-- The second constant ends as `(0x00000001) @ 2UL`, and its report has the text without `UL`. -/
theorem malformed_shows_text_unsuffixed :
    let define (name value : String) : Constant := .define name value "" 0 ""
    let cs := [define "CKA_A" "1UL", define "CKA_B" "CKA_A @ 2UL"]
    let r : Resolver := .new .standard
    let origin : Origin := ⟨"CKA_B", "", 0⟩
    let e : Text := "(0x00000001) @ 2UL"
    let shown : Text := "(0x00000001) @ 2"
    (r.run cs).failure = some (.expression origin (.malformed shown (.unsupported '@'))) ∧
    evaluate e = .error (.malformed shown (.unsupported '@')) ∧
    (∃ turn ∈ r.turns cs, ∃ x, turn.constant.origin = origin ∧
      expand? turn.table (r.limit cs) turn.constant.rawValue = some x ∧
      Fails x.text (.unsupported '@') ∧ shown = (Fault.unsupported '@').shows x.text ∧
      (shown = x.text ↔ (Fault.unsupported '@').KeepsText x.text)) ∧
    Fails e (.unsupported '@') ∧ shown = (Fault.unsupported '@').shows e := by
  intro define cs r origin e shown
  obtain ⟨hevaluate, -, hrun⟩ := malformed_shows_text e r cs
  have hfailure : (r.run cs).failure =
      some (.expression origin (.malformed shown (.unsupported '@'))) := by decide +kernel
  have hvalue : evaluate e = .error (.malformed shown (.unsupported '@')) := by decide +kernel
  exact ⟨hfailure, hvalue, hrun origin shown _ hfailure, (hevaluate shown _).1 hvalue⟩

/-- `1UL $ 2` is reported as `1 $ 2`. -/
theorem not_always_shows_given :
    ¬ ∀ e shown cause, evaluate e = .error (.malformed shown cause) → shown = e := by
  intro hgiven
  have h : evaluate "1UL $ 2" = .error (.malformed "1 $ 2" (.unsupported '$')) := by decide +kernel
  exact absurd (hgiven _ _ _ h) (by decide)

end Resolver

end HeaderConstants
