import HeaderConstants.Proofs.Header.Token
import HeaderConstants.Proofs.Text.Offset

/-!
# All tokens of a line

A line is its tokens with blanks around them, and tokens with other blanks between them are read as
the same tokens. Read by byte offsets, each token is a slice of the line, and reading goes on behind
it until nothing is left.

* `Header.sliceToken?_eq`: no slice is out of range or cuts a character;
* `Header.tokenAt_eq_ok_iff`: the token at an offset;
* `Header.readsFrom_tokenize`: token after token to the end of the line;
* `Header.tokens?_eq_some_iff`, `Header.tokens?_eq_none_iff`: which lines have tokens;
* `Header.tokens_lose_nothing`: these together.
-/

namespace HeaderConstants.Header
set_option autoImplicit false

open Text

variable {t u v w line token rest : Text} {ts : List Text} {ps : List (Text × Text)}
  {offset stop : Nat} {e : LineError}

/-! ## Offsets -/

/-- What stands behind an offset: nothing if it is past the end or inside a character. -/
def unread (line : Text) (offset : Nat) : Text := (dropBytes? offset line).getD []

/-- A token read by offsets into the line alone; nothing where a slice is out of range or starts or
ends inside a character. -/
def sliceToken? (line : Text) (offset : Nat) : Option (Except LineError (Text × Nat)) := do
  let rest := unread line offset
  let start :=
    if trimStart rest = [] then byteLength line else offset + byteLength (rest.takeWhile isBlank)
  let tail ← dropBytes? start line
  let run := scan 0 tail
  let stop := if run.rest = [] then byteLength line else start + byteLength run.token
  if run.depth = 0 then
    let token ← slice? start stop line
    pure (.ok (token, stop))
  else pure (.error (.unbalanced line))

/-- A line is what stands before an offset and what stands behind it. -/
theorem exists_read (line : Text) (offset : Nat) :
    ∃ u, line = u ++ unread line offset ∧ (unread line offset ≠ [] → byteLength u = offset) := by
  rw [unread]
  cases h : dropBytes? offset line with
  | none => exact ⟨line, by simp, by simp⟩
  | some t =>
    obtain ⟨u, rfl, hu⟩ := dropBytes?_eq_some_iff.1 h
    exact ⟨u, rfl, fun _ => hu⟩

theorem unread_byteLength (u t : Text) : unread (u ++ t) (byteLength u) = t := by
  rw [unread, dropBytes?_byteLength, Option.getD_some]

/-- Reading by slices gives what reading from the offset on gives, for every offset. -/
theorem sliceToken?_eq (line : Text) (offset : Nat) :
    sliceToken? line offset = some (tokenAt line offset) := by
  obtain ⟨u, hline, hu⟩ := exists_read line offset
  obtain ⟨t, ht⟩ : ∃ t, unread line offset = t := ⟨_, rfl⟩
  rw [ht] at hline hu
  obtain ⟨w, hw⟩ : ∃ w, t.takeWhile isBlank = w := ⟨_, rfl⟩
  have hsplit : t = w ++ trimStart t := by
    rw [← hw, trimStart, List.takeWhile_append_dropWhile]
  have hstart : (if trimStart t = [] then byteLength line else offset + byteLength w) =
      byteLength (u ++ w) := by
    split
    · next hnil =>
      rw [hnil, List.append_nil] at hsplit
      rw [hline, hsplit]
    · next hne =>
      have hne : t ≠ [] := by
        rintro rfl
        exact hne rfl
      rw [byteLength_append, hu hne]
  obtain ⟨token, rest, depth, hscan⟩ : ∃ token rest depth,
      scan 0 (trimStart t) = ⟨token, rest, depth⟩ := ⟨_, _, _, rfl⟩
  have hparts : line = u ++ w ++ token ++ rest := by
    rw [hline, hsplit, (scan_eq_iff.1 hscan).1]
    simp only [List.append_assoc]
  have htail : dropBytes? (byteLength (u ++ w)) line = some (trimStart t) := by
    rw [hline, hsplit, ← List.append_assoc, dropBytes?_byteLength, ← hsplit]
  have hstop : (if rest = [] then byteLength line else byteLength (u ++ w) + byteLength token) =
      byteLength (u ++ w ++ token) := by
    split
    · next hnil => rw [hparts, hnil, List.append_nil]
    · exact (byteLength_append _ _).symm
  have hslice : slice? (byteLength (u ++ w)) (byteLength (u ++ w ++ token)) line = some token := by
    rw [hparts]
    exact slice?_byteLength _ _ _
  have hend : byteLength line - byteLength rest = byteLength (u ++ w ++ token) := by
    rw [hparts, byteLength_append _ rest, Nat.add_sub_cancel]
  simp only [sliceToken?, ht, hw, hstart, htail, hscan, hstop, hslice, Option.bind_eq_bind,
    Option.bind_some]
  rw [tokenAt, ← unread, ht, leadingToken?, hscan]
  by_cases hdepth : depth = 0
  · simp only [hdepth, if_true, hend]
    rfl
  · simp only [hdepth, if_false]
    rfl

/-- The token at an offset, and the offset of its end. -/
theorem tokenAt_eq_ok_iff :
    tokenAt (u ++ t) (byteLength u) = .ok (token, stop) ↔
      ∃ w rest, t = w ++ token ++ rest ∧ (∀ c ∈ w, isBlank c = true) ∧ TokenBefore token rest ∧
        stop = byteLength (u ++ w ++ token) := by
  have hend : ∀ w rest, t = w ++ token ++ rest →
      byteLength (u ++ t) - byteLength rest = byteLength (u ++ w ++ token) := by
    rintro w rest rfl
    simp only [byteLength_append]
    omega
  rw [tokenAt, ← unread, unread_byteLength]
  constructor
  · intro h
    cases hlead : leadingToken? t with
    | none => simp [hlead] at h
    | some pair =>
      obtain ⟨token', rest⟩ := pair
      simp only [hlead, Except.ok.injEq, Prod.mk.injEq] at h
      obtain ⟨rfl, rfl⟩ := h
      obtain ⟨w, hw, ht, hbefore⟩ := leadingToken?_eq_some_iff.1 hlead
      exact ⟨w, rest, ht, hw, hbefore, hend w rest ht⟩
  · rintro ⟨w, rest, ht, hw, hbefore, rfl⟩
    have hlead := leadingToken?_eq_some_iff.2 ⟨w, hw, ht, hbefore⟩
    simp only [hlead, hend w rest ht]

theorem tokenAt_of_unread_eq_nil (h : unread line offset = []) :
    tokenAt line offset = .ok ([], byteLength line) := by
  rw [tokenAt, ← unread, h]
  rfl

/-! ## Token after token -/

/-- Reading token after token from an offset on, each from the end of the one before it, to the first
empty one. -/
inductive ReadsFrom (line : Text) : Nat → Except LineError (List Text) → Prop
  | done {offset stop : Nat} (h : tokenAt line offset = .ok ([], stop)) :
      ReadsFrom line offset (.ok [])
  | token {offset stop : Nat} {token : Text} {result : Except LineError (List Text)}
      (h : tokenAt line offset = .ok (token, stop)) (hne : token ≠ [])
      (more : ReadsFrom line stop result) : ReadsFrom line offset (result.map (token :: ·))
  | fault {offset : Nat} {e : LineError} (h : tokenAt line offset = .error e) :
      ReadsFrom line offset (.error e)

theorem tokens?_of_leadingToken? (h : leadingToken? t = some (token, rest)) (hne : token ≠ []) :
    tokens? t = (tokens? rest).map (token :: ·) := by
  obtain ⟨c, more, rfl⟩ := List.exists_cons_of_ne_nil hne
  rw [tokens?]
  split
  · next h' => simp [h] at h'
  · next h' => simp [h] at h'
  · next h' =>
    rw [h'] at h
    obtain ⟨hcons, rfl⟩ := Prod.mk.inj (Option.some.inj h)
    obtain ⟨rfl, rfl⟩ := List.cons.inj hcons
    rfl

theorem tokens?_of_nothing (h : leadingToken? t = some ([], rest)) : tokens? t = some [] := by
  rw [tokens?]
  split
  · next h' => simp [h] at h'
  · rfl
  · next h' => simp [h] at h'

theorem tokens?_of_none (h : leadingToken? t = none) : tokens? t = none := by
  rw [tokens?]
  split
  · rfl
  · next h' => simp [h] at h'
  · next h' => simp [h] at h'

/-- Induction on a text from its first token on. -/
@[elab_as_elim]
theorem token_induction {motive : Text → Prop}
    (fault : ∀ t, leadingToken? t = none → motive t)
    (done : ∀ t rest, leadingToken? t = some ([], rest) → motive t)
    (token : ∀ t token rest, leadingToken? t = some (token, rest) → token ≠ [] → motive rest →
      motive t) (t : Text) : motive t := by
  cases h : leadingToken? t with
  | none => exact fault t h
  | some pair =>
    obtain ⟨first, rest⟩ := pair
    by_cases hne : first = []
    · exact done t rest (hne ▸ h)
    · have hlt : rest.length < t.length := by
        have hlen := length_of_leadingToken? h
        have hpos := List.length_pos_iff.2 hne
        omega
      exact token t first rest h hne (token_induction fault done token rest)
termination_by t.length

theorem readsFrom_tokens? (u t : Text) :
    ReadsFrom (u ++ t) (byteLength u)
      ((tokens? t).elim (.error (.unbalanced (u ++ t))) .ok) := by
  induction t using token_induction generalizing u with
  | fault t h =>
    rw [tokens?_of_none h]
    refine .fault ?_
    rw [tokenAt, ← unread, unread_byteLength, h]
  | done t rest h =>
    rw [tokens?_of_nothing h]
    have hat : tokenAt (u ++ t) (byteLength u) =
        .ok ([], byteLength (u ++ t) - byteLength rest) := by
      rw [tokenAt, ← unread, unread_byteLength, h]
    exact .done hat
  | token t token rest h hne ih =>
    obtain ⟨w, hw, ht, hbefore⟩ := leadingToken?_eq_some_iff.1 h
    have hat : tokenAt (u ++ t) (byteLength u) = .ok (token, byteLength (u ++ w ++ token)) :=
      tokenAt_eq_ok_iff.2 ⟨w, rest, ht, hw, hbefore, rfl⟩
    have hline : u ++ w ++ token ++ rest = u ++ t := by
      rw [ht]
      simp only [List.append_assoc]
    have hmore := ih (u ++ w ++ token)
    rw [hline] at hmore
    have hread := ReadsFrom.token hat hne hmore
    rw [tokens?_of_leadingToken? h hne]
    cases htokens : tokens? rest with
    | none =>
      rw [htokens] at hread
      exact hread
    | some ts =>
      rw [htokens] at hread
      exact hread

theorem tokenize_eq (line : Text) :
    tokenize line = (tokens? line).elim (.error (.unbalanced line)) .ok := by
  rw [tokenize]
  cases tokens? line <;> rfl

theorem readsFrom_tokenize (line : Text) : ReadsFrom line 0 (tokenize line) := by
  rw [tokenize_eq]
  exact readsFrom_tokens? [] line

/-! ## Tokens with blanks around them -/

/-- Texts, each with what stands behind it, after a start. -/
def spaced (w : Text) (ps : List (Text × Text)) : Text := w ++ ps.flatMap fun p => p.1 ++ p.2

/-- All that stands around the texts is blanks, with at least one between two of them. -/
structure IsSpacing (w : Text) (ps : List (Text × Text)) : Prop where
  before : ∀ c ∈ w, isBlank c = true
  behind : ∀ p ∈ ps, ∀ c ∈ p.2, isBlank c = true
  between : ∀ p ∈ ps.dropLast, p.2 ≠ []

theorem spaced_cons (w : Text) (p : Text × Text) (ps : List (Text × Text)) :
    spaced w (p :: ps) = w ++ p.1 ++ spaced p.2 ps := by
  simp [spaced]

theorem IsSpacing.tail {p : Text × Text} (h : IsSpacing w (p :: ps)) : IsSpacing p.2 ps := by
  refine ⟨h.behind p (List.mem_cons_self ..), fun q hq => h.behind q (List.mem_cons_of_mem p hq),
    fun q hq => h.between q ?_⟩
  cases ps with
  | nil => simp at hq
  | cons q' more => exact List.mem_cons_of_mem p hq

theorem IsSpacing.cons {p : Text × Text} (hw : ∀ c ∈ w, isBlank c = true) (h : IsSpacing p.2 ps)
    (hp : ps ≠ [] → p.2 ≠ []) : IsSpacing w (p :: ps) := by
  refine ⟨hw, List.forall_mem_cons.2 ⟨h.before, h.behind⟩, ?_⟩
  cases ps with
  | nil => simp
  | cons q more =>
    exact List.forall_mem_cons.2 ⟨hp (List.cons_ne_nil q more), h.between⟩

/-- The blanks before a text that does not start with one are there. -/
theorem ne_nil_of_startsBlank (hu : IsRun u) (h : StartsBlank (w ++ u ++ v)) : w ≠ [] := by
  rintro rfl
  obtain ⟨c, more, rfl, hc⟩ := hu.starts
  have hblank := h c rfl
  rw [hc] at hblank
  exact Bool.noConfusion hblank

theorem IsSpacing.startsBlank {p : Text × Text} (h : IsSpacing w (p :: ps)) :
    StartsBlank (spaced p.2 ps) := by
  by_cases hp : p.2 = []
  · -- nothing stands behind the last text only
    have hps : ps = [] := by
      cases ps with
      | nil => rfl
      | cons q more => exact absurd hp (h.between p (List.mem_cons_self ..))
    simp [hp, hps, spaced, StartsBlank]
  · rw [spaced, startsBlank_append_iff hp]
    exact fun c hc => h.behind p (List.mem_cons_self ..) c (List.mem_of_head? hc)

theorem leadingToken?_spaced_cons {p : Text × Text} (h : IsSpacing w (p :: ps))
    (hp : IsSingle p.1) :
    leadingToken? (spaced w (p :: ps)) = some (p.1, spaced p.2 ps) :=
  leadingToken?_eq_some_iff.2 ⟨w, h.before, spaced_cons w p ps, .inr ⟨hp, h.startsBlank⟩⟩

theorem tokens?_spaced (h : IsSpacing w ps) (hps : ∀ p ∈ ps, IsSingle p.1) :
    tokens? (spaced w ps) = some (ps.map Prod.fst) := by
  induction ps generalizing w with
  | nil =>
    refine tokens?_of_nothing (leadingToken?_eq_some_iff.2 ⟨w, h.before, ?_, .inl ⟨rfl, rfl⟩⟩)
    simp [spaced]
  | cons p ps ih =>
    obtain ⟨hp, hmore⟩ := List.forall_mem_cons.1 hps
    rw [tokens?_of_leadingToken? (leadingToken?_spaced_cons h hp) (isRun_iff.1 hp.toIsRun).1,
      ih h.tail hmore, Option.map_some, List.map_cons]

theorem tokens?_eq_some_iff :
    tokens? t = some ts ↔ ∃ w ps, t = spaced w ps ∧ IsSpacing w ps ∧ (∀ p ∈ ps, IsSingle p.1) ∧
      ps.map Prod.fst = ts := by
  constructor
  · intro htokens
    induction t using token_induction generalizing ts with
    | fault t h => simp [tokens?_of_none h] at htokens
    | done t rest h =>
      rw [tokens?_of_nothing h] at htokens
      obtain rfl := Option.some.inj htokens
      obtain ⟨w, hw, ht, hbefore⟩ := leadingToken?_eq_some_iff.1 h
      obtain rfl : rest = [] := by
        rcases hbefore with ⟨-, hrest⟩ | ⟨hsingle, -⟩
        · exact hrest
        · exact absurd rfl (isRun_iff.1 hsingle.toIsRun).1
      exact ⟨w, [], by simpa [spaced] using ht, ⟨hw, by simp, by simp⟩, by simp, rfl⟩
    | token t token rest h hne ih =>
      rw [tokens?_of_leadingToken? h hne] at htokens
      obtain ⟨more, hmore, rfl⟩ := Option.map_eq_some_iff.1 htokens
      obtain ⟨w', ps, rfl, hspacing, hsingle, rfl⟩ := ih hmore
      obtain ⟨w, hw, ht, hbefore⟩ := leadingToken?_eq_some_iff.1 h
      refine ⟨w, (token, w') :: ps, by rw [spaced_cons, ht], .cons hw hspacing fun hps => ?_,
        List.forall_mem_cons.2 ⟨hbefore.single (.inl hne), hsingle⟩, rfl⟩
      obtain ⟨p, more, rfl⟩ := List.exists_cons_of_ne_nil hps
      have hstarts := hbefore.startsBlank
      rw [spaced_cons] at hstarts
      exact ne_nil_of_startsBlank (hsingle p (List.mem_cons_self ..)).toIsRun hstarts
  · rintro ⟨w, ps, rfl, hspacing, hsingle, rfl⟩
    exact tokens?_spaced hspacing hsingle

/-- A text without tokens has some tokens and then leaves parentheses open. -/
theorem tokens?_eq_none_iff :
    tokens? t = none ↔ ∃ w ps r, t = spaced w ps ++ r ∧ IsSpacing w ps ∧
      (∀ p ∈ ps, IsSingle p.1 ∧ p.2 ≠ []) ∧ IsOpen r := by
  constructor
  · intro htokens
    induction t using token_induction with
    | fault t h =>
      obtain ⟨w, r, hw, ht, hopen⟩ := leadingToken?_eq_none_iff.1 h
      exact ⟨w, [], r, by simpa [spaced] using ht, ⟨hw, by simp, by simp⟩, by simp, hopen⟩
    | done t rest h => simp [tokens?_of_nothing h] at htokens
    | token t token rest h hne ih =>
      rw [tokens?_of_leadingToken? h hne, Option.map_eq_none_iff] at htokens
      obtain ⟨w', ps, r, rfl, hspacing, hsingle, hopen⟩ := ih htokens
      obtain ⟨w, hw, ht, hbefore⟩ := leadingToken?_eq_some_iff.1 h
      -- the next token, or what is left open, does not start with a blank
      have hne' : w' ≠ [] := by
        have hstarts := hbefore.startsBlank
        cases ps with
        | nil =>
          refine ne_nil_of_startsBlank hopen.toIsRun (v := []) ?_
          simpa [spaced] using hstarts
        | cons p more =>
          rw [spaced_cons, List.append_assoc _ _ r] at hstarts
          exact ne_nil_of_startsBlank (hsingle p (List.mem_cons_self ..)).1.toIsRun hstarts
      refine ⟨w, (token, w') :: ps, r, ?_, .cons hw hspacing fun _ => hne',
        List.forall_mem_cons.2 ⟨⟨hbefore.single (.inl hne), hne'⟩, hsingle⟩, hopen⟩
      rw [spaced_cons, ht, List.append_assoc _ _ r]
  · rintro ⟨w, ps, r, rfl, hspacing, hsingle, hopen⟩
    induction ps generalizing w with
    | nil =>
      refine tokens?_of_none (leadingToken?_eq_none_iff.2 ⟨w, r, hspacing.before, ?_, hopen⟩)
      simp [spaced]
    | cons p ps ih =>
      obtain ⟨⟨hp, hne⟩, hmore⟩ := List.forall_mem_cons.1 hsingle
      have hstarts : StartsBlank (spaced p.2 ps ++ r) := by
        have hblanks := hspacing.startsBlank
        rw [spaced, List.append_assoc, startsBlank_append_iff hne]
        rwa [spaced, startsBlank_append_iff hne] at hblanks
      have hlead : leadingToken? (spaced w (p :: ps) ++ r) = some (p.1, spaced p.2 ps ++ r) := by
        refine leadingToken?_eq_some_iff.2 ⟨w, hspacing.before, ?_, .inr ⟨hp, hstarts⟩⟩
        rw [spaced_cons, List.append_assoc _ _ r]
      rw [tokens?_of_leadingToken? hlead (isRun_iff.1 hp.toIsRun).1, ih p.2 hspacing.tail hmore,
        Option.map_none]

/-! ## Lines -/

theorem tokenize_eq_ok_iff : tokenize line = .ok ts ↔ tokens? line = some ts := by
  rw [tokenize_eq]
  cases tokens? line <;> simp

theorem tokenize_eq_error_iff :
    tokenize line = .error e ↔ e = .unbalanced line ∧ tokens? line = none := by
  rw [tokenize_eq]
  cases tokens? line <;> simp [eq_comm]

theorem IsSingle.ends (h : IsSingle t) :
    t ≠ [] ∧ (∀ c ∈ t.head?, isBlank c = false) ∧ ∀ c ∈ t.getLast?, isBlank c = false := by
  obtain ⟨c, more, rfl, hc⟩ := h.starts
  exact ⟨List.cons_ne_nil c more, by simpa using hc, (isToken_iff.2 h).closes.getLast?_not_isBlank⟩

/-- For every offset of a line the slices that a token is read by are in range. A token is what stands
before its end, with blanks only between the offset and its start, and behind the last character of
the line, or inside a character, there is no token. Reading token after token comes to an end. The
tokens with the blanks around them are the line, and with other blanks between them they are read as
the same tokens. There are none exactly if, behind some tokens, the rest of the line does not have as
many opening as closing parentheses. -/
theorem tokens_lose_nothing (line : Text) :
    (∀ offset, sliceToken? line offset = some (tokenAt line offset)) ∧
    (∀ offset, (∀ u t, line = u ++ t → byteLength u = offset → t = []) →
      tokenAt line offset = .ok ([], byteLength line)) ∧
    (∀ u t token stop, line = u ++ t →
      (tokenAt line (byteLength u) = .ok (token, stop) ↔
        ∃ w rest, t = w ++ token ++ rest ∧ (∀ c ∈ w, isBlank c = true) ∧ TokenBefore token rest ∧
          stop = byteLength (u ++ w ++ token))) ∧
    ReadsFrom line 0 (tokenize line) ∧
    (∀ ts, tokenize line = .ok ts →
      (∃ w ps, line = spaced w ps ∧ IsSpacing w ps ∧ ps.map Prod.fst = ts) ∧
      (∀ token ∈ ts, token ≠ [] ∧ (∀ c ∈ token.head?, isBlank c = false) ∧
        ∀ c ∈ token.getLast?, isBlank c = false) ∧
      ∀ w ps, IsSpacing w ps → ps.map Prod.fst = ts → tokenize (spaced w ps) = .ok ts) ∧
    ∀ e, tokenize line = .error e ↔ e = .unbalanced line ∧
      ∃ w ps r, line = spaced w ps ++ r ∧ IsSpacing w ps ∧ (∀ p ∈ ps, IsSingle p.1 ∧ p.2 ≠ []) ∧
        IsOpen r := by
  refine ⟨sliceToken?_eq line, fun offset h => ?_, ?_, readsFrom_tokenize line, fun ts h => ?_,
    fun e => by rw [tokenize_eq_error_iff, tokens?_eq_none_iff]⟩
  · obtain ⟨u, hline, hu⟩ := exists_read line offset
    refine tokenAt_of_unread_eq_nil (Classical.byContradiction fun hne => hne ?_)
    exact h u (unread line offset) hline (hu hne)
  · rintro u t token stop rfl
    exact tokenAt_eq_ok_iff
  · obtain ⟨w, ps, hline, hspacing, hsingle, rfl⟩ :=
      tokens?_eq_some_iff.1 (tokenize_eq_ok_iff.1 h)
    have hall : ∀ token ∈ ps.map Prod.fst, IsSingle token := List.forall_mem_map.2 hsingle
    refine ⟨⟨w, ps, hline, hspacing, rfl⟩, fun token htoken => (hall token htoken).ends,
      fun w' ps' hspacing' hps' => ?_⟩
    rw [tokenize_eq_ok_iff, ← hps']
    rw [← hps'] at hall
    exact tokens?_spaced hspacing' (List.forall_mem_map.1 hall)

example : tokenAt "\u00e9 (a\u3000b) c" 2 = .ok ("(a\u3000b)", 10) := by
  rfl

end HeaderConstants.Header
