import Mathlib.Data.List.Forall2
import HeaderConstants.Proofs.Resolve.Expansion
import HeaderConstants.Proofs.Resolve.Turn

/-!
# What a resolved constant stands for

A name stands for the text of its last constant. During a run an entry of the table holds that text,
or the value of the constant once it is resolved. The value is exchangeable for the text where the
text stands for no negative integer; then a constant resolves to the value of its expansion.

* `Resolve.Defines`: what the names of a list of constants stand for;
* `Resolve.Faithful`: the tables of a run;
* `Resolve.exists_expands_of_resolveConstant`: one constant;
* `Resolver.outcomes_of_runFrom`: a run.
-/

namespace HeaderConstants
set_option autoImplicit false

namespace Resolve

open Text HeaderConstants.Expr

variable {cs more : List Constant} {c : Constant} {t : Table} {s : List Segment}
  {body body' e name w y : Text} {v : UInt64}

/-- The name is a word, and no value is written like it. -/
def ProperName (name : Text) : Prop := IsWord name ∧ ∀ v, name ≠ HexLiteral.text v

theorem ProperName.plainName (h : ProperName name) : PlainName name :=
  ⟨h.1.1, h.1.mark_not_mem (by decide), h.1.mark_not_mem (by decide)⟩

/-- A letter or an underscore, then letters, digits and underscores. -/
def Identifier (name : Text) : Prop :=
  name.head?.any isNameStart = true ∧ ∀ c ∈ name, isNameChar c = true

instance (name : Text) : Decidable (Identifier name) :=
  decidable_of_iff (name.head?.any isNameStart = true ∧ name.all isNameChar = true)
    (by rw [Identifier, List.all_eq_true])

theorem Identifier.properName (h : Identifier name) : ProperName name := by
  refine ⟨⟨fun hnil => ?_, h.2⟩, fun v hv => ?_⟩
  · have hhead := h.1
    rw [hnil] at hhead
    exact absurd hhead (by simp)
  · have hhead := h.1
    rw [hv, HexLiteral.text, List.head?_cons] at hhead
    exact absurd hhead (by decide)

/-- What the last constant of the name is known as. -/
def definition? (cs : List Constant) (name : Text) : Option Text :=
  (cs.reverse.find? (fun c => c.name = name)).map Constant.body

def Defines (cs : List Constant) (name body : Text) : Prop := definition? cs name = some body

theorem rightUnique_defines (cs : List Constant) : Relator.RightUnique (Defines cs) :=
  fun _ _ _ h h' => Option.some.inj (h.symm.trans h')

theorem Defines.exists_constant (h : Defines cs name body) :
    ∃ c ∈ cs, c.name = name ∧ c.body = body := by
  obtain ⟨c, hc, hbody⟩ := Option.map_eq_some_iff.1 h
  exact ⟨c, List.mem_reverse.1 (List.mem_of_find?_eq_some hc), by simpa using List.find?_some hc,
    hbody⟩

theorem defines_of_last {before : List Constant} (h : ∀ d ∈ more, d.name ≠ c.name) :
    Defines (before ++ c :: more) c.name c.body := by
  have hmore : more.reverse.find? (fun d => d.name = c.name) = none := by
    rw [List.find?_eq_none]
    intro d hd
    simpa using h d (List.mem_reverse.1 hd)
  unfold Defines definition?
  rw [List.reverse_append, List.reverse_cons, List.find?_append, List.find?_append, hmore]
  simp

theorem group_injective (h : group body = group body') : body = body' :=
  List.append_cancel_right (List.cons.inj h).2

theorem entry_table_iff : Entry (table cs) name body ↔ Defines cs name body := by
  unfold Entry Defines definition? table
  rw [List.mem_map]
  constructor
  · rintro ⟨other, hother, heq⟩
    obtain ⟨rfl, hrep⟩ := Substitution.mk.inj heq
    unfold replacementOf at hrep
    split at hrep
    · next c hc =>
      rw [hc]
      exact congrArg some (group_injective hrep)
    · exact absurd hrep (List.cons_ne_nil _ _).symm
  · intro h
    obtain ⟨c, hc, rfl⟩ := Option.map_eq_some_iff.1 h
    refine ⟨name, ?_, ?_⟩
    · have hname : c.name = name := by simpa using List.find?_some hc
      rw [mem_order, ← hname]
      exact List.mem_map_of_mem (List.mem_reverse.1 (List.mem_of_find?_eq_some hc))
    · unfold replacementOf
      rw [hc]
      rfl

theorem entry_table (cs : List Constant) : Entry (table cs) = Defines cs := by
  funext name body
  exact propext entry_table_iff

theorem defines_of_mem_table {s : Substitution} (hs : s ∈ table cs) :
    ∃ body, Defines cs s.name body ∧ s.replacement = group body := by
  obtain ⟨c, -, -, hrep⟩ := exists_constant_of_mem_table hs
  have hentry : Entry (table cs) s.name c.body := by
    unfold Entry
    rw [show group c.body = s.replacement from hrep.symm]
    exact hs
  exact ⟨c.body, entry_table_iff.1 hentry, hrep⟩

/-! ## Values in the place of texts -/

/-- No name in the text of a constant stands for an expansion with a negative integer. -/
def NonnegativeUses (cs : List Constant) : Prop :=
  ∀ c ∈ cs, ∀ w, .word w ∈ segments c.body → ∀ body, Defines cs w body →
    ∀ e, Expands (Defines cs) (segments body) e → ∀ z, value? e = some z → 0 ≤ z

/-- The name stands for the text, or for one whose expansion has the value that the text writes. -/
def Stands (cs : List Constant) (name body : Text) : Prop :=
  Defines cs name body ∨ ∃ v raw e, body = HexLiteral.text v ∧ Defines cs name raw ∧
    Expands (Defines cs) (segments raw) e ∧ (NonnegativeUses cs → evaluate e = .ok v)

/-- The table has the names of the constants and replaces them by what they stand for. -/
structure Faithful (cs : List Constant) (t : Table) : Prop where
  names : t.map Substitution.name = (table cs).map Substitution.name
  entries : ∀ s ∈ t, ∃ body, s.replacement = group body ∧ Stands cs s.name body

theorem faithful_table (cs : List Constant) : Faithful cs (table cs) := by
  refine ⟨rfl, fun s hs => ?_⟩
  obtain ⟨c, -, -, hrep⟩ := exists_constant_of_mem_table hs
  refine ⟨c.body, hrep, .inl (entry_table_iff.1 ?_)⟩
  have hentry : (⟨s.name, group c.body⟩ : Substitution) = s := by
    rw [show group c.body = s.replacement from hrep.symm]
  unfold Entry
  rwa [hentry]

namespace Faithful

theorem mem_names (h : Faithful cs t) {s : Substitution} (hs : s ∈ t) :
    ∃ c ∈ cs, c.name = s.name := by
  have hname := List.mem_map_of_mem (f := Substitution.name) hs
  rw [h.names, table_map_name, mem_order] at hname
  exact List.mem_map.1 hname

theorem groupsWords (h : Faithful cs t) (hcs : ∀ c ∈ cs, ProperName c.name) : GroupsWords t := by
  intro s hs
  obtain ⟨c, hc, hname⟩ := h.mem_names hs
  obtain ⟨body, hbody, -⟩ := h.entries s hs
  exact ⟨hname ▸ (hcs c hc).1, body, hbody⟩

theorem stands (h : Faithful cs t) (hentry : Entry t name body) : Stands cs name body := by
  obtain ⟨body', hbody, hstands⟩ := h.entries _ hentry
  rwa [← group_injective hbody] at hstands

theorem exists_entry (h : Faithful cs t) (hdef : Defines cs name body) :
    ∃ body, Entry t name body := by
  have hname := List.mem_map_of_mem (f := Substitution.name) (entry_table_iff.2 hdef)
  rw [← h.names, List.mem_map] at hname
  obtain ⟨s, hs, rfl⟩ := hname
  obtain ⟨body, hbody, -⟩ := h.entries s hs
  refine ⟨body, ?_⟩
  unfold Entry
  rwa [← hbody]

end Faithful

/-- A word that writes a value expands to itself where no name is written like it. -/
theorem expands_hexLiteral_iff {D : Text → Text → Prop}
    (hD : ∀ body, ¬ D (HexLiteral.text v) body) :
    Expands D (segments (HexLiteral.text v)) e ↔ e = HexLiteral.text v := by
  rw [segments_of_isWord (isWord_hexLiteral v)]
  constructor
  · intro h
    cases h with
    | number _ _ hnil =>
      cases hnil
      exact List.append_nil _
    | name hdef _ _ => exact absurd hdef (hD _)
  · rintro rfl
    have hhead : ∀ c ∈ (HexLiteral.text v).head?, isNameStart c = false := by
      intro c hc
      obtain rfl := Option.some.inj hc
      decide
    have h := Expands.number hhead hD .nil
    rwa [List.append_nil] at h

theorem Faithful.not_entry_hexLiteral (h : Faithful cs t) (hcs : ∀ c ∈ cs, ProperName c.name) :
    ¬ Entry t (HexLiteral.text v) body := by
  intro hentry
  obtain ⟨c, hc, hname⟩ := h.mem_names hentry
  exact (hcs c hc).2 v hname

/-- A value that comes from no negative integer is that integer. -/
theorem value?_of_evaluate (h : evaluate e = .ok v) (hpos : ∀ z, value? e = some z → 0 ≤ z) :
    value? e = some (v.toNat : Int) := by
  obtain ⟨z, hz, hword⟩ := evaluate_eq_ok_iff.1 h
  have hnonneg := hpos z hz
  unfold toWord at hword
  split at hword
  · next hfits =>
    obtain rfl := Except.ok.inj hword
    have hlt : z < (wordCount : Int) := hfits.2
    have hmod : z % (wordCount : Int) = z := Int.emod_eq_of_lt hnonneg hlt
    have hsize : z.toNat < 2 ^ 64 := by
      unfold wordCount at hlt
      omega
    rw [hz, hmod, UInt64.toNat_ofNat_of_lt' hsize, Int.toNat_of_nonneg hnonneg]
  · exact absurd hword (by simp)

/-- An expansion by the entries of a table is the expansion by the constants, up to values. -/
theorem exists_expands_of_entries (hcs : ∀ c ∈ cs, ProperName c.name) (ht : Faithful cs t)
    (hwords : ∀ w, .word w ∈ s → ∃ c ∈ cs, .word w ∈ segments c.body)
    (h : Expands (Entry t) s y) :
    ∃ e, Expands (Defines cs) s e ∧ (NonnegativeUses cs → SameGroups y e) := by
  induction h with
  | nil => exact ⟨[], .nil, fun _ => .nil⟩
  | mark c h ih =>
    obtain ⟨e, he, hsame⟩ := ih fun w hw => hwords w (List.mem_cons_of_mem _ hw)
    exact ⟨c :: e, .mark c he, fun hpos => .cons c (hsame hpos)⟩
  | @number more y w hw hD h ih =>
    obtain ⟨e, he, hsame⟩ := ih fun w hw => hwords w (List.mem_cons_of_mem _ hw)
    have hundefined : ∀ body, ¬ Defines cs w body := fun body hdef => by
      obtain ⟨body', hentry⟩ := ht.exists_entry hdef
      exact hD body' hentry
    exact ⟨w ++ e, .number hw hundefined he, fun hpos => (SameGroups.refl w).append (hsame hpos)⟩
  | @name more y w body inner hD hbody h ihbody ih =>
    obtain ⟨e, he, hsame⟩ := ih fun w hw => hwords w (List.mem_cons_of_mem _ hw)
    rcases ht.stands hD with hdef | ⟨v, raw, e', rfl, hdef, he', hvalue⟩
    -- the entry is the text of the last constant of the name, and expands on
    · obtain ⟨d, hd, -, rfl⟩ := hdef.exists_constant
      obtain ⟨e', he', hsame'⟩ := ihbody fun w hw => ⟨d, hd, hw⟩
      refine ⟨group e' ++ e, .name hdef he' he, fun hpos => ?_⟩
      have hinner := (hsame' hpos).append (SameGroups.refl [')'])
      exact .cons '(' (hinner.append (hsame hpos))
    -- the entry is a value; the text expands apart from the table, to the same integer
    · obtain rfl := (expands_hexLiteral_iff fun _ => ht.not_entry_hexLiteral hcs).1 hbody
      refine ⟨group e' ++ e, .name hdef he' he, fun hpos => ?_⟩
      obtain ⟨c, hc, hw⟩ := hwords w (List.mem_cons_self ..)
      have hinteger := value?_of_evaluate (hvalue hpos) (hpos c hc w hw raw hdef e' he')
      exact .group (value?_hexLiteral v) hinteger (hsame hpos)

/-! ## One constant -/

theorem body_of_unresolved (hres : c.isResolved = false) : c.body = c.rawValue := by
  unfold Constant.body
  split
  · next hvalue => simp [Constant.isResolved, hvalue] at hres
  · rfl

/-- A constant that resolves has an expansion by the entries of the table, and its value. -/
theorem exists_entries_of_resolveConstant (ht : GroupsWords t) {limit : Nat}
    {r : Resolution} (h : resolveConstant t limit c = .ok r) :
    ∃ e, Expands (Entry t) (segments c.rawValue) e ∧ evaluate e = .ok r.value := by
  obtain ⟨found, hfound, hvalue, -⟩ := resolveConstant_eq_ok_iff.1 h
  obtain ⟨hrewrites, hquiet, -⟩ := rewrites_of_expand? hfound
  obtain ⟨z, hz, -⟩ := evaluate_eq_ok_iff.1 hvalue
  have hself : Expands (Entry t) (segments found.text) found.text := by
    refine expands_self fun w hw => ⟨head?_of_value? hz hw, fun body hentry => ?_⟩
    exact hquiet _ hentry (infix_of_mem_segments hw)
  exact ⟨found.text, expands_of_rewrites ht hrewrites (not_jammed_of_value? hz) hself, hvalue⟩

/-- A constant that resolves has an expansion, and resolves to its value. -/
theorem exists_expands_of_resolveConstant (hcs : ∀ c ∈ cs, ProperName c.name)
    (ht : Faithful cs t) (hc : c ∈ cs) (hres : c.isResolved = false) {limit : Nat}
    {r : Resolution} (h : resolveConstant t limit c = .ok r) :
    ∃ e, Expands (Defines cs) (segments c.rawValue) e ∧
      (NonnegativeUses cs → evaluate e = .ok r.value) := by
  obtain ⟨y, hentries, hvalue⟩ := exists_entries_of_resolveConstant (ht.groupsWords hcs) h
  obtain ⟨e, he, hsame⟩ := exists_expands_of_entries hcs ht
    (fun w hw => ⟨c, hc, by rwa [body_of_unresolved hres]⟩) hentries
  refine ⟨e, he, fun hpos => ?_⟩
  rw [evaluate_eq_ok_iff, ← (hsame hpos).value?_eq]
  exact evaluate_eq_ok_iff.1 hvalue

theorem Faithful.tableAfter {before : List Constant} (ht : Faithful cs t)
    (hsplit : cs = before ++ c :: more) (hres : c.isResolved = false)
    (he : Expands (Defines cs) (segments c.rawValue) e)
    (hvalue : NonnegativeUses cs → evaluate e = .ok v) (keepUp : Bool)
    (trace : List ResolutionStep) :
    Faithful cs (tableAfter keepUp t (c.resolve v trace) more) := by
  refine ⟨(map_name_tableAfter _ _ _ _).trans ht.names, fun s hs => ?_⟩
  rcases mem_tableAfter hs with hs | ⟨rfl, howns⟩
  · exact ht.entries s hs
  · have hdef : Defines cs c.name c.rawValue := by
      rw [hsplit, ← body_of_unresolved hres]
      exact defines_of_last howns
    exact ⟨HexLiteral.text v, rfl, .inr ⟨v, c.rawValue, e, rfl, hdef, he, hvalue⟩⟩

end Resolve

namespace Resolver

open Text HeaderConstants.Expr Resolve

variable {keepUp : Bool} {limit : Nat} {stats : ResolutionStats} {cs : List Constant}

/-- What a run makes of a constant: one with a value stays, and one without gets the value of its
expansion. -/
def Outcome (cs : List Constant) (c c' : Constant) : Prop :=
  (c.isResolved = true ∧ c' = c) ∨ c.isResolved = false ∧ ∃ v trace e, c' = c.resolve v trace ∧
    Expands (Defines cs) (segments c.rawValue) e ∧ (NonnegativeUses cs → evaluate e = .ok v)

theorem Outcome.of_unresolved {c c' : Constant} (h : Outcome cs c c')
    (hres : c.isResolved = false) : ∃ v trace e, c' = c.resolve v trace ∧
      Expands (Defines cs) (segments c.rawValue) e ∧ (NonnegativeUses cs → evaluate e = .ok v) := by
  rcases h with ⟨hresolved, -⟩ | ⟨-, h⟩
  · rw [hres] at hresolved
    exact Bool.noConfusion hresolved
  · exact h

theorem outcomes_of_runFrom (hcs : ∀ c ∈ cs, ProperName c.name) {before rest : List Constant}
    (hsplit : cs = before ++ rest) {t : Table} (ht : Faithful cs t)
    (hrun : (runFrom keepUp limit t stats rest).failure = none) :
    List.Forall₂ (Outcome cs) rest (runFrom keepUp limit t stats rest).constants := by
  induction rest generalizing before t stats with
  | nil => exact .nil
  | cons c more ih =>
    have hmore : cs = (before ++ [c]) ++ more := by simpa using hsplit
    cases hres : c.isResolved with
    | true =>
      rw [runFrom_of_isResolved hres] at hrun ⊢
      exact .cons (.inl ⟨hres, rfl⟩) (ih hmore ht hrun)
    | false =>
      cases hr : resolveConstant t limit c with
      | error e =>
        rw [runFrom_of_error hres hr] at hrun
        exact absurd hrun (by simp)
      | ok r =>
        have hc : c ∈ cs := by simp [hsplit]
        obtain ⟨e, he, hvalue⟩ := exists_expands_of_resolveConstant hcs ht hc hres hr
        rw [runFrom_of_ok hres hr] at hrun ⊢
        refine .cons (.inr ⟨hres, r.value, r.trace, e, rfl, he, hvalue⟩) ?_
        exact ih hmore (ht.tableAfter hsplit hres he hvalue keepUp r.trace) hrun

theorem outcomes_of_run (r : Resolver) (hcs : ∀ c ∈ cs, ProperName c.name)
    (hrun : (r.run cs).failure = none) : List.Forall₂ (Outcome cs) cs (r.run cs).constants :=
  outcomes_of_runFrom hcs (List.nil_append cs).symm (faithful_table cs) hrun

end Resolver

end HeaderConstants
