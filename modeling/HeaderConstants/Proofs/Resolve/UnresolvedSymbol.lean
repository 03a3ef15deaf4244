import HeaderConstants.Proofs.Expr.Names
import HeaderConstants.Proofs.Resolve.Soundness

/-!
# Reported symbols

A constant whose text still has a name when no known name is left in it is reported with that
symbol. Names are replaced inside longer words too, so the symbol need not be a word that somebody
wrote: it is what the names have left of one. Where no name stands inside a longer word that has the
symbol in it, the symbol is a word of a raw text.

* `Resolve.Remnant`: what names leave of a word;
* `Resolve.exists_remnant_of_replaceAll`: the words behind a replacement;
* `Resolve.exists_remnant_of_rewrites`: the words behind all of them;
* `Resolver.unresolved_symbol`: the symbols that runs report.
-/

namespace HeaderConstants
set_option autoImplicit false

open Text

namespace Resolve

variable {names : List Text} {n w x y z body : Text} {t : Table} {cs : List Constant}
  {c : Constant}

/-- On each side of the first word the second one ends, or goes on with a name. -/
def Remnant (names : List Text) (w y : Text) : Prop :=
  ∃ u v, y = u ++ w ++ v ∧ (u = [] ∨ ∃ n ∈ names, n <:+ u) ∧ (v = [] ∨ ∃ n ∈ names, n <+: v)

theorem Remnant.refl (w : Text) : Remnant names w w := ⟨[], [], by simp, .inl rfl, .inl rfl⟩

theorem Remnant.before (hn : n ∈ names) (u v : Text) : Remnant names u (u ++ n ++ v) :=
  ⟨[], n ++ v, by simp, .inl rfl, .inr ⟨n, hn, List.prefix_append n v⟩⟩

theorem Remnant.behind (hn : n ∈ names) (u v : Text) : Remnant names v (u ++ n ++ v) :=
  ⟨u ++ n, [], by simp, .inr ⟨n, hn, List.suffix_append u n⟩, .inl rfl⟩

theorem Remnant.trans (h : Remnant names w y) (h' : Remnant names y z) : Remnant names w z := by
  obtain ⟨u, v, rfl, hu, hv⟩ := h
  obtain ⟨u', v', rfl, hu', hv'⟩ := h'
  refine ⟨u' ++ u, v ++ v', by simp, ?_, ?_⟩
  · rcases hu with rfl | ⟨n, hn, hend⟩
    · simpa using hu'
    · exact .inr ⟨n, hn, hend.trans (List.suffix_append u' u)⟩
  · rcases hv with rfl | ⟨n, hn, hstart⟩
    · simpa using hv'
    · exact .inr ⟨n, hn, hstart.trans (List.prefix_append v v')⟩

theorem Remnant.mono {names' : List Text} (h : Remnant names w y) (hsub : names ⊆ names') :
    Remnant names' w y := by
  obtain ⟨u, v, he, hu, hv⟩ := h
  refine ⟨u, v, he, ?_, ?_⟩
  · exact hu.imp_right fun ⟨n, hn, hend⟩ => ⟨n, hsub hn, hend⟩
  · exact hv.imp_right fun ⟨n, hn, hstart⟩ => ⟨n, hsub hn, hstart⟩

theorem Remnant.infix (h : Remnant names w y) : w <:+: y := by
  obtain ⟨u, v, rfl, -⟩ := h
  exact ⟨u, v, rfl⟩

/-- In a part of a word no name stands if none but the word itself stands in the word. -/
theorem eq_nil_of_whole {u : Text} (hy : ∀ n ∈ names, n <:+: y → n = y) (hu : u <:+: y)
    (hless : u.length < y.length) (h : u = [] ∨ ∃ n ∈ names, n <:+: u) : u = [] := by
  refine h.resolve_right ?_
  rintro ⟨n, hn, hin⟩
  have hshort := hin.length_le
  rw [hy n hn (hin.trans hu)] at hshort
  omega

/-- Something is left of a word in which no other name stands only if it is the word. -/
theorem Remnant.eq_of_whole (h : Remnant names w y) (hne : w ≠ [])
    (hy : ∀ n ∈ names, n <:+: y → n = y) : w = y := by
  obtain ⟨u, v, he, hu, hv⟩ := h
  have hpos := List.length_pos_of_ne_nil hne
  have htotal := congrArg List.length he
  simp only [List.length_append] at htotal
  obtain rfl : u = [] := by
    refine eq_nil_of_whole hy ⟨[], w ++ v, by simp [he]⟩ (by omega) ?_
    exact hu.imp_right fun ⟨n, hn, hend⟩ => ⟨n, hn, hend.isInfix⟩
  obtain rfl : v = [] := by
    refine eq_nil_of_whole hy ⟨w, [], by simp [he]⟩ (by omega) ?_
    exact hv.imp_right fun ⟨n, hn, hstart⟩ => ⟨n, hn, hstart.isInfix⟩
  rw [he, List.nil_append, List.append_nil]

/-! ## Words behind a replacement -/

theorem eq_of_mem_segments (hx : ∀ c ∈ x, isNameChar c = true) (hw : .word w ∈ segments x) :
    w = x := by
  have hne : x ≠ [] := by
    rintro rfl
    simp [segments] at hw
  rw [segments_of_isWord ⟨hne, hx⟩] at hw
  simpa using hw

theorem exists_remnant_of_word {x : Text} (hn : IsWord n) (hname : n ∈ names)
    (hx : ∀ c ∈ x, isNameChar c = true)
    (hw : .word w ∈ segments (replaceAll n (group body) x)) :
    .word w ∈ segments body ∨ Remnant names w x := by
  by_cases hin : n <:+: x
  · obtain ⟨u, v, he, -, hr⟩ := exists_first_occurrence hn.1 hin
    have hu : ∀ c ∈ u, isNameChar c = true := fun c hc => hx c (by simp [he, hc])
    have hv : ∀ c ∈ v, isNameChar c = true := fun c hc => hx c (by simp [he, hc])
    have hless : v.length < x.length := by
      have hpos := List.length_pos_iff.2 hn.1
      simp only [he, List.length_append]
      omega
    have hsplit : u ++ group body ++ replaceAll n (group body) v =
        u ++ '(' :: (body ++ ')' :: replaceAll n (group body) v) := by
      simp [group]
    rw [hr, hsplit, segments_append_mark (by decide), segments_append_mark (by decide)] at hw
    simp only [List.mem_append, List.mem_cons, reduceCtorEq, false_or] at hw
    rcases hw with hw | hw | hw
    · obtain rfl := eq_of_mem_segments hu hw
      exact .inr (he ▸ .before hname w v)
    · exact .inl hw
    · rcases exists_remnant_of_word hn hname hv hw with hbody | hrest
      · exact .inl hbody
      · exact .inr (he ▸ hrest.trans (.behind hname u v))
  · rw [replaceAll_of_absent hn.1 hin] at hw
    obtain rfl := eq_of_mem_segments hx hw
    exact .inr (.refl w)
termination_by x.length

/-- A word behind a replacement comes from the text that is put in, or is left of a word. -/
theorem exists_remnant_of_replaceAll (hn : IsWord n) (hname : n ∈ names)
    (hw : .word w ∈ segments (replaceAll n (group body) x)) :
    .word w ∈ segments body ∨ ∃ y, Remnant names w y ∧ .word y ∈ segments x := by
  induction x using word_induction with
  | nil =>
    rw [replaceAll_nil hn.1] at hw
    exact absurd hw (by simp [segments])
  | mark c rest hc ih =>
    rw [replaceAll_cons hn.1 (hn.mark_not_mem hc), segments_cons_mark hc] at hw
    rw [segments_cons_mark hc]
    rcases ih (by simpa using hw) with hbody | ⟨y, hleft, hy⟩
    · exact .inl hbody
    · exact .inr ⟨y, hleft, List.mem_cons_of_mem _ hy⟩
  | word v rest hv hrest ih =>
    rw [replaceAll_word_append hn hrest, mem_segments_append_iff (head?_replaceAll hn hrest)] at hw
    rw [segments_word_append hv hrest]
    rcases hw with hw | hw
    · refine (exists_remnant_of_word hn hname hv.2 hw).imp_right fun hleft => ?_
      exact ⟨v, hleft, List.mem_cons_self ..⟩
    · rcases ih hw with hbody | ⟨y, hleft, hy⟩
      · exact .inl hbody
      · exact .inr ⟨y, hleft, List.mem_cons_of_mem _ hy⟩

theorem mem_segments_group_iff :
    .word w ∈ segments (group body) ↔ .word w ∈ segments body := by
  have h := segments_group_append body []
  rw [List.append_nil] at h
  simp [h, segments]

/-- A word behind replacements is left of a word of the text or of a replacing text. -/
theorem exists_remnant_of_rewrites (ht : GroupsWords t) (h : Rewrites t x y)
    (hw : .word w ∈ segments y) :
    ∃ z, Remnant (t.map Substitution.name) w z ∧
      (.word z ∈ segments x ∨ ∃ s ∈ t, .word z ∈ segments s.replacement) := by
  induction h with
  | refl => exact ⟨w, .refl w, .inl hw⟩
  | @step s v y hs hin h ih =>
    obtain ⟨hname, body, hbody⟩ := ht s hs
    obtain ⟨z, hleft, hz | hz⟩ := ih hw
    · have hmem : s.name ∈ t.map Substitution.name := List.mem_map_of_mem hs
      rw [hbody] at hz
      rcases exists_remnant_of_replaceAll hname hmem hz with hz | ⟨z', hleft', hz'⟩
      · refine ⟨z, hleft, .inr ⟨s, hs, ?_⟩⟩
        rwa [hbody, mem_segments_group_iff]
      · exact ⟨z', hleft.trans hleft', .inl hz'⟩
    · exact ⟨z, hleft, .inr hz⟩

/-! ## Words of the constants -/

/-- A word of a raw text, or what a value is written as. -/
def SourceWord (cs : List Constant) (w : Text) : Prop :=
  (∃ c ∈ cs, .word w ∈ segments c.rawValue) ∨ ∃ v, w = HexLiteral.text v

theorem mem_segments_substitutionText (hw : .word w ∈ segments c.substitutionText) :
    .word w ∈ segments c.rawValue ∨ ∃ v, w = HexLiteral.text v := by
  have hbody : .word w ∈ segments c.body := mem_segments_group_iff.1 hw
  unfold Constant.body at hbody
  split at hbody
  · next v hv =>
    rw [segments_of_isWord (Expr.isWord_hexLiteral v)] at hbody
    exact .inr ⟨v, by simpa using hbody⟩
  · exact .inl hbody

end Resolve

namespace Resolver

open Resolve

variable {cs : List Constant}

theorem sourceWord_of_mem_turns {r : Resolver} {turn : Turn} (hturn : turn ∈ r.turns cs)
    {s : Substitution} (hs : s ∈ turn.table) {w : Text} (hw : .word w ∈ segments s.replacement) :
    SourceWord cs w := by
  have hwords : ∀ s ∈ turn.table, ∀ w, .word w ∈ segments s.replacement → SourceWord cs w := by
    refine invariant_of_mem_turnsFrom
      (P := fun t => ∀ s ∈ t, ∀ w, .word w ∈ segments s.replacement → SourceWord cs w)
      (fun s hs w hw => ?_) (fun t c hc v trace more ht s hs w hw => ?_) hturn
    · obtain ⟨c, hc, -, hrep⟩ := exists_constant_of_mem_table hs
      rw [hrep] at hw
      exact (mem_segments_substitutionText hw).imp_left fun hraw => ⟨c, hc, hraw⟩
    · rcases mem_tableAfter hs with hs | ⟨rfl, -⟩
      · exact ht s hs w hw
      · exact (mem_segments_substitutionText hw).imp_left fun hraw => ⟨c, hc, hraw⟩
  exact hwords s hs w hw

theorem groupsWords_of_mem_turns {r : Resolver} {turn : Turn} (hturn : turn ∈ r.turns cs)
    (hnames : ∀ c ∈ cs, Identifier c.name) : GroupsWords turn.table := by
  intro s hs
  have hname : s.name ∈ cs.map Constant.name :=
    (mem_names_of_mem_turns hturn).1 (List.mem_map_of_mem hs)
  obtain ⟨c, hc, hc'⟩ := List.mem_map.1 hname
  have henclosing := enclosing_of_mem_turns (fun c hc => (hnames c hc).properName.plainName) hturn
  exact ⟨hc' ▸ (hnames c hc).properName.1, (henclosing s hs).2⟩

/-- A symbol that is reported as unresolved is an identifier without any name of the list in it. It
is left of a word of a raw text, or of a value as it is written, by the names that stand beside it.
If a name stands in no word with the symbol in it unless it is that word, the symbol is itself a
word of a raw text. -/
theorem unresolved_symbol (r : Resolver) (cs : List Constant)
    (hnames : ∀ c ∈ cs, Identifier c.name) {origin : Origin} {symbol : Text}
    (h : (r.run cs).failure = some (.expression origin (.unresolvedSymbol symbol))) :
    Identifier symbol ∧ (∀ c ∈ cs, ¬ c.name <:+: symbol) ∧
      (∃ w, SourceWord cs w ∧ Remnant (cs.map Constant.name) symbol w) ∧
      ((∀ w, SourceWord cs w → symbol <:+: w → ∀ c ∈ cs, c.name <:+: w → c.name = w) →
        ∃ c ∈ cs, .word symbol ∈ segments c.rawValue) := by
  obtain ⟨turn, hturn, herror⟩ := exists_turn_of_failure h
  obtain ⟨e, he, -, hvalue⟩ := resolveConstant_eq_expression_iff.1 herror
  obtain ⟨hrewrites, hquiet, -⟩ := rewrites_of_expand? he
  obtain ⟨hin, hstart⟩ := Expr.mem_segments_of_evaluate hvalue
  have hsymbol : Identifier symbol := by
    refine ⟨?_, (isWord_of_mem_segments hin).2⟩
    obtain ⟨a, ha, hstart⟩ := hstart
    rw [Option.mem_def.1 ha]
    exact hstart
  have habsent : ∀ c ∈ cs, ¬ c.name <:+: symbol := by
    intro c hc hcin
    have hname : c.name ∈ turn.table.map Substitution.name :=
      (mem_names_of_mem_turns hturn).2 (List.mem_map_of_mem hc)
    obtain ⟨s, hs, hsname⟩ := List.mem_map.1 hname
    exact hquiet s hs (hsname ▸ hcin.trans (infix_of_mem_segments hin))
  obtain ⟨w, hleft, hw⟩ :=
    exists_remnant_of_rewrites (groupsWords_of_mem_turns hturn hnames) hrewrites hin
  have hremnant : Remnant (cs.map Constant.name) symbol w :=
    hleft.mono fun name hname => (mem_names_of_mem_turns hturn).1 hname
  have hsource : SourceWord cs w := by
    rcases hw with hw | ⟨s, hs, hw⟩
    · exact .inl ⟨turn.constant, constant_mem_of_mem_turnsFrom hturn, hw⟩
    · exact sourceWord_of_mem_turns hturn hs hw
  refine ⟨hsymbol, habsent, ⟨w, hsource, hremnant⟩, fun hwhole => ?_⟩
  have hnames' : ∀ name ∈ cs.map Constant.name, name <:+: w → name = w := by
    intro name hname
    obtain ⟨c, hc, rfl⟩ := List.mem_map.1 hname
    exact hwhole w hsource hremnant.infix c hc
  obtain rfl := hremnant.eq_of_whole hsymbol.properName.1.1 hnames'
  refine hsource.resolve_right ?_
  rintro ⟨v, rfl⟩
  exact hsymbol.properName.2 v rfl

/-- One constant refers to another one and to a symbol without definition. -/
theorem unresolved_symbol_missing :
    let define (name value : String) : Constant := .define name value "" 0 ""
    let cs := [define "CKA_A" "1", define "CKA_B" "(CKA_A | CKA_MISSING)"]
    let r : Resolver := .new .standard
    let symbol : Text := "CKA_MISSING"
    (∀ c ∈ cs, Identifier c.name) ∧
    (r.run cs).failure = some (.expression ⟨"CKA_B", "", 0⟩ (.unresolvedSymbol symbol)) ∧
    Identifier symbol ∧ (∀ c ∈ cs, ¬ c.name <:+: symbol) ∧
      (∃ w, SourceWord cs w ∧ Remnant (cs.map Constant.name) symbol w) ∧
      ((∀ w, SourceWord cs w → symbol <:+: w → ∀ c ∈ cs, c.name <:+: w → c.name = w) →
        ∃ c ∈ cs, .word symbol ∈ segments c.rawValue) := by
  intro define cs r symbol
  have hnames : ∀ c ∈ cs, Identifier c.name := by decide
  have h : (r.run cs).failure =
      some (.expression ⟨"CKA_B", "", 0⟩ (.unresolvedSymbol symbol)) := by decide +kernel
  exact ⟨hnames, h, unresolved_symbol r cs hnames h⟩

/-- `CKA_NSS` stands at the start of `CKA_NSS_URL`, and `_URL` is left. -/
theorem not_always_source_symbol :
    ¬ ∀ (r : Resolver) (cs : List Constant), (∀ c ∈ cs, Identifier c.name) →
      (∀ c ∈ cs, c.isResolved = false) →
      ∀ origin symbol, (r.run cs).failure = some (.expression origin (.unresolvedSymbol symbol)) →
        Identifier symbol ∧ (∃ c ∈ cs, .word symbol ∈ segments c.rawValue) ∧
          ∀ c ∈ cs, c.name ≠ symbol := by
  intro hsource
  let define (name value : String) : Constant := .define name value "" 0 ""
  let cs := [define "CKA_NSS" "1", define "CKA_X" "CKA_NSS_URL + 1"]
  let r : Resolver := .new .standard
  have h : (r.run cs).failure =
      some (.expression ⟨"CKA_X", "", 0⟩ (.unresolvedSymbol "_URL")) := by decide +kernel
  have hword := (hsource r cs (by decide) (by decide) _ _ h).2.1
  exact absurd hword (by decide)

end Resolver

end HeaderConstants
