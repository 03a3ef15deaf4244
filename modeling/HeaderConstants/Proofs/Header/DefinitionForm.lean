import HeaderConstants.Proofs.Header.Token

/-!
# The form of a definition line

A definition line is the directive, a name and a value, with blanks where they are needed, and a
rest that is not looked at. The value may be missing, and the name with it.

* `Header.HasForm`: the form, said without a scan;
* `Header.parseDefinition_eq_ok_iff`, `Header.parseDefinition_eq_error_iff`: which lines are read;
* `Header.definition_is_two_tokens`: these together, and that a rest does not count.
-/

namespace HeaderConstants.Header
set_option autoImplicit false

open Text

variable {t u v line name value rest : Text} {d d' : Definition} {e : LineError}

/-- The trimmed line is the directive, the name and the value, with blanks before each, and a rest. -/
def HasForm (line : Text) (d : Definition) : Prop :=
  ∃ w₁ w₂ rest, line.trim = directive ++ w₁ ++ d.name ++ w₂ ++ d.value ++ rest ∧
    (∀ c ∈ w₁, isBlank c = true) ∧ (∀ c ∈ w₂, isBlank c = true) ∧
    TokenBefore d.name (w₂ ++ d.value ++ rest) ∧ TokenBefore d.value rest

/-! ## Reading the two tokens -/

theorem definition?_eq_some_iff :
    definition? t = some d ↔ ∃ w₁ w₂ rest, t = w₁ ++ d.name ++ w₂ ++ d.value ++ rest ∧
      (∀ c ∈ w₁, isBlank c = true) ∧ (∀ c ∈ w₂, isBlank c = true) ∧
      TokenBefore d.name (w₂ ++ d.value ++ rest) ∧ TokenBefore d.value rest := by
  have hsteps : definition? t = some d ↔ ∃ more rest,
      leadingToken? t = some (d.name, more) ∧ leadingToken? more = some (d.value, rest) := by
    simp only [definition?, Option.bind_eq_bind, Option.bind_eq_some_iff, Prod.exists]
    constructor
    · rintro ⟨name, more, hname, value, rest, hvalue, hd⟩
      obtain rfl := Option.some.inj hd
      exact ⟨more, rest, hname, hvalue⟩
    · rintro ⟨more, rest, hname, hvalue⟩
      exact ⟨d.name, more, hname, d.value, rest, hvalue, rfl⟩
  rw [hsteps]
  constructor
  · rintro ⟨more, rest, hname, hvalue⟩
    obtain ⟨w₁, hw₁, rfl, hbefore⟩ := leadingToken?_eq_some_iff.1 hname
    obtain ⟨w₂, hw₂, rfl, hlast⟩ := leadingToken?_eq_some_iff.1 hvalue
    exact ⟨w₁, w₂, rest, by simp only [List.append_assoc], hw₁, hw₂, hbefore, hlast⟩
  · rintro ⟨w₁, w₂, rest, rfl, hw₁, hw₂, hbefore, hlast⟩
    refine ⟨w₂ ++ d.value ++ rest, rest, ?_, ?_⟩
    · exact leadingToken?_eq_some_iff.2 ⟨w₁, hw₁, by simp only [List.append_assoc], hbefore⟩
    · exact leadingToken?_eq_some_iff.2 ⟨w₂, hw₂, rfl, hlast⟩

/-- The form is what stands behind the directive. -/
theorem hasForm_iff :
    HasForm line d ↔ directive <+: line.trim ∧
      definition? (line.trim.drop directive.length) = some d := by
  rw [definition?_eq_some_iff]
  constructor
  · rintro ⟨w₁, w₂, rest, htrim, h⟩
    have hfront : line.trim = directive ++ (w₁ ++ d.name ++ w₂ ++ d.value ++ rest) := by
      rw [htrim]
      simp only [List.append_assoc]
    rw [hfront, List.drop_left]
    exact ⟨List.prefix_append _ _, w₁, w₂, rest, rfl, h⟩
  · rintro ⟨⟨more, hmore⟩, w₁, w₂, rest, hdrop, h⟩
    rw [← hmore, List.drop_left] at hdrop
    refine ⟨w₁, w₂, rest, ?_, h⟩
    rw [← hmore, hdrop]
    simp only [List.append_assoc]

theorem isDefinition_iff : isDefinition t = true ↔ directive <+: t :=
  List.isPrefixOf_iff_prefix

theorem parseDefinition_eq_ok_iff : parseDefinition line = .ok d ↔ HasForm line d := by
  rw [hasForm_iff, ← isDefinition_iff, parseDefinition]
  split
  · next hdirective =>
    rw [and_iff_right hdirective]
    cases definition? (line.trim.drop directive.length) with
    | none => simp
    | some d' => simp
  · next hdirective => simp [hdirective]

theorem parseDefinition_eq_error_iff :
    parseDefinition line = .error e ↔
      ¬ directive <+: line.trim ∧ e = .notADefinition line.trim ∨
        directive <+: line.trim ∧ (∀ d, ¬ HasForm line d) ∧ e = .unbalanced line.trim := by
  simp only [hasForm_iff, not_and]
  rw [← isDefinition_iff, parseDefinition]
  split
  · next hdirective =>
    cases definition? (line.trim.drop directive.length) with
    | none => simp [hdirective, eq_comm]
    | some d' => simp [hdirective]
  · next hdirective => simp [hdirective, eq_comm]

theorem HasForm.unique (h : HasForm line d) (h' : HasForm line d') : d = d' :=
  Except.ok.inj ((parseDefinition_eq_ok_iff.2 h).symm.trans (parseDefinition_eq_ok_iff.2 h'))

/-! ## What follows the value -/

/-- A line is cut behind its value, and anything may follow there that starts with a blank. -/
theorem HasForm.cut (h : HasForm line d) (hvalue : d.value ≠ []) :
    ∃ front rest, line = front ++ rest ∧ d.value <:+ front ∧ StartsBlank rest ∧
      ∀ tail, StartsBlank tail → HasForm (front ++ tail) d := by
  obtain ⟨w₁, w₂, rest, htrim, hw₁, hw₂, hname, hlast⟩ := h
  obtain ⟨s, hs, hsblank⟩ := exists_blanks_trimStart line
  obtain ⟨s', hs', hsblank'⟩ := exists_blanks_trimEnd line.trimStart
  obtain ⟨front, hfront⟩ : ∃ front, front = directive ++ w₁ ++ d.name ++ w₂ ++ d.value :=
    ⟨_, rfl⟩
  rw [← hfront] at htrim
  have hsingle : IsSingle d.value := hlast.single (.inl hvalue)
  have hmiddle : w₂ ++ d.value ≠ [] := by simp [hvalue]
  have hsuffix : d.value <:+ front := hfront ▸ List.suffix_append _ _
  refine ⟨s ++ front, rest ++ s', ?_, hsuffix.trans (List.suffix_append s front), ?_, ?_⟩
  · rw [List.append_assoc, ← List.append_assoc front, ← htrim, trim, ← hs', ← hs]
  · exact hlast.startsBlank.append fun c hc => hsblank' c (List.mem_of_head? hc)
  · intro tail htail
    have hhead : ∀ c ∈ front.head?, isBlank c = false := by
      have hpound : front.head? = some '#' := by
        rw [hfront]
        rfl
      intro c hc
      rw [hpound] at hc
      obtain rfl := Option.mem_some_iff.1 hc
      rfl
    have hend : ∀ c ∈ front.getLast?, isBlank c = false := by
      rw [hfront, List.getLast?_append_of_ne_nil _ hvalue]
      exact (isToken_iff.2 hsingle).closes.getLast?_not_isBlank
    have hne : front ≠ [] := by simp [hfront, hvalue]
    obtain ⟨rest', hshorter, htrim'⟩ := exists_trim_append hsblank hne hhead hend tail
    have hrest : StartsBlank rest' := htail.of_prefix hshorter
    have hnext : StartsBlank (w₂ ++ d.value ++ rest') :=
      (startsBlank_append_iff hmiddle).2 ((startsBlank_append_iff hmiddle).1 hname.startsBlank)
    exact ⟨w₁, w₂, rest', by rw [htrim', hfront], hw₁, hw₂,
      .inr ⟨hname.single (.inr (by simp [hvalue])), hnext⟩, .inr ⟨hsingle, hrest⟩⟩

/-- A line is read as a name and a value exactly if it has the form, which determines them. A line
that does not start with the directive is no definition, and any other that is not read leaves its
parentheses uneven. What follows a value does not change what is read. -/
theorem definition_is_two_tokens (line : Text) :
    (∀ d, parseDefinition line = .ok d ↔ HasForm line d) ∧
    (∀ d d', HasForm line d → HasForm line d' → d = d') ∧
    (∀ e, parseDefinition line = .error e ↔
      ¬ directive <+: line.trim ∧ e = .notADefinition line.trim ∨
        directive <+: line.trim ∧ (∀ d, ¬ HasForm line d) ∧ e = .unbalanced line.trim) ∧
    ∀ d, parseDefinition line = .ok d → d.value ≠ [] →
      ∃ front rest, line = front ++ rest ∧ d.value <:+ front ∧ StartsBlank rest ∧
        ∀ tail, StartsBlank tail → parseDefinition (front ++ tail) = .ok d := by
  refine ⟨fun d => parseDefinition_eq_ok_iff, fun d d' h h' => h.unique h',
    fun e => parseDefinition_eq_error_iff, fun d h hvalue => ?_⟩
  obtain ⟨front, rest, hline, hsuffix, hrest, htails⟩ :=
    (parseDefinition_eq_ok_iff.1 h).cut hvalue
  exact ⟨front, rest, hline, hsuffix, hrest, fun tail htail =>
    parseDefinition_eq_ok_iff.2 (htails tail htail)⟩

example : parseDefinition "\t#define(A\u2003B) (1 + 2)\u3000) /* (1 */" = .ok ⟨"(A\u2003B)", "(1 + 2)"⟩ := by
  rfl

end HeaderConstants.Header
