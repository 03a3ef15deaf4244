import HeaderConstants.Proofs.Header.Definition

/-!
# Tokens by their parentheses

What a token is, said by counting: it starts with a character that is no blank, it has as many
opening parentheses as closing ones, and no blank in it comes where these numbers are equal. A scan
finds just the texts of this kind.

* `Header.IsRun`, `Header.IsSingle`, `Header.IsOpen`: texts that do not end at a blank in them, the
  tokens among them, and those that leave parentheses open;
* `Header.scan_eq_iff`: where a scan stops;
* `Header.leadingToken?_eq_some_iff`, `Header.leadingToken?_eq_none_iff`: the first token of a text.
-/

namespace HeaderConstants.Header
set_option autoImplicit false

open Text

variable {b c : Char} {depth d : Int} {t u v w token rest : Text}

/-! ## Counting parentheses -/

/-- The opening parentheses less the closing ones. -/
def net (t : Text) : Int := t.count '(' - t.count ')'

@[simp] theorem net_nil : net [] = 0 := rfl

@[simp] theorem net_cons (c : Char) (t : Text) : net (c :: t) = nesting c + net t := by
  by_cases hopen : c = '('
  · subst hopen
    simp [net, nesting]
    omega
  · by_cases hclose : c = ')'
    · subst hclose
      simp [net, nesting]
      omega
    · simp [net, nesting, hopen, hclose]

@[simp] theorem net_append (u v : Text) : net (u ++ v) = net u + net v := by
  simp only [net, List.count_append, Int.natCast_add]
  omega

theorem net_eq_zero_iff : net t = 0 ↔ t.count '(' = t.count ')' := by
  rw [net]
  omega

/-! ## Where a scan stops -/

/-- The text is empty or starts with a blank. -/
def StartsBlank (t : Text) : Prop := ∀ c ∈ t.head?, isBlank c = true

theorem startsBlank_iff :
    StartsBlank rest ↔ rest = [] ∨ ∃ b more, rest = b :: more ∧ isBlank b = true := by
  cases rest with
  | nil => simp [StartsBlank]
  | cons b more => simp [StartsBlank]

theorem startsBlank_append_iff (hu : u ≠ []) : StartsBlank (u ++ v) ↔ StartsBlank u := by
  rw [StartsBlank, List.head?_append_of_ne_nil u hu, ← StartsBlank]

theorem StartsBlank.append (hu : StartsBlank u) (hv : StartsBlank v) : StartsBlank (u ++ v) := by
  by_cases hne : u = []
  · rwa [hne, List.nil_append]
  · exact (startsBlank_append_iff hne).2 hu

theorem StartsBlank.of_prefix (hv : StartsBlank v) (h : u <+: v) : StartsBlank u := by
  obtain ⟨w, rfl⟩ := h
  by_cases hne : u = []
  · simp [StartsBlank, hne]
  · exact (startsBlank_append_iff hne).1 hv

/-- From the depth on, no blank of the text comes at depth zero. -/
def Unbroken (depth : Int) (t : Text) : Prop :=
  ∀ u b v, t = u ++ b :: v → isBlank b = true → depth + net u ≠ 0

theorem unbroken_nil : Unbroken depth [] := by
  intro u b v h
  simp at h

theorem unbroken_cons_iff :
    Unbroken depth (c :: t) ↔
      ¬ (isBlank c = true ∧ depth = 0) ∧ Unbroken (depth + nesting c) t := by
  constructor
  · intro h
    refine ⟨fun ⟨hblank, hdepth⟩ => ?_, fun u b v hsplit hblank => ?_⟩
    · exact h [] c t rfl hblank (by simp [hdepth])
    · have hgo := h (c :: u) b v (by rw [hsplit, List.cons_append]) hblank
      rwa [net_cons, ← Int.add_assoc] at hgo
  · rintro ⟨hgo, hmore⟩ u b v hsplit hblank
    cases u with
    | nil =>
      obtain ⟨rfl, rfl⟩ := List.cons.inj hsplit
      intro hdepth
      exact hgo ⟨hblank, by simpa using hdepth⟩
    | cons d u =>
      obtain ⟨rfl, rfl⟩ := List.cons.inj hsplit
      rw [net_cons, ← Int.add_assoc]
      exact hmore u b v rfl hblank

/-- A scan takes a text up to its end, or to the first blank at depth zero. -/
theorem scan_eq_iff :
    scan depth t = ⟨token, rest, d⟩ ↔
      t = token ++ rest ∧ Unbroken depth token ∧ d = depth + net token ∧
        (rest = [] ∨ d = 0 ∧ ∃ b more, rest = b :: more ∧ isBlank b = true) := by
  induction t generalizing depth token with
  | nil =>
    simp only [scan, Scan.mk.injEq]
    constructor
    · rintro ⟨rfl, rfl, rfl⟩
      exact ⟨rfl, unbroken_nil, by simp, .inl rfl⟩
    · rintro ⟨hsplit, -, hd, -⟩
      obtain ⟨rfl, rfl⟩ := List.append_eq_nil_iff.1 hsplit.symm
      exact ⟨rfl, rfl, by simpa using hd.symm⟩
  | cons c t ih =>
    by_cases hstop : isBlank c = true ∧ depth = 0
    · rw [scan, if_pos hstop, Scan.mk.injEq]
      constructor
      · rintro ⟨rfl, rfl, rfl⟩
        exact ⟨rfl, unbroken_nil, by simp, .inr ⟨hstop.2, c, t, rfl, hstop.1⟩⟩
      · rintro ⟨hsplit, hgo, hd, -⟩
        cases token with
        | nil => exact ⟨rfl, hsplit, by simpa using hd.symm⟩
        | cons c' token =>
          obtain ⟨rfl, -⟩ := List.cons.inj hsplit
          exact absurd hstop (unbroken_cons_iff.1 hgo).1
    · rw [scan, if_neg hstop]
      -- the token goes on with the character, and the rest is as from the next depth on
      cases token with
      | nil =>
        refine iff_of_false (by simp) ?_
        rintro ⟨rfl, -, rfl, hrest | ⟨hd, b, more, hrest, hblank⟩⟩
        · simp at hrest
        · obtain ⟨rfl, -⟩ := List.cons.inj hrest
          exact hstop ⟨hblank, by simpa using hd⟩
      | cons c' token =>
        have hmore := @ih (depth + nesting c) token
        have hscan : (scan (depth + nesting c) t) =
            ⟨(scan (depth + nesting c) t).token, (scan (depth + nesting c) t).rest,
              (scan (depth + nesting c) t).depth⟩ := rfl
        rw [hscan, Scan.mk.injEq] at hmore
        rw [Scan.mk.injEq, List.cons.injEq, and_assoc, hmore, List.cons_append, List.cons.injEq,
          and_assoc]
        refine and_congr_right fun hc => and_congr_right fun _ => ?_
        subst hc
        rw [unbroken_cons_iff, and_iff_right hstop, net_cons, Int.add_assoc]

/-! ## Tokens -/

/-- The text starts with a character that is no blank, and the parentheses before a blank in it are
not as many opening as closing ones. -/
structure IsRun (t : Text) : Prop where
  starts : ∃ c rest, t = c :: rest ∧ isBlank c = false
  uneven : ∀ u b v, t = u ++ b :: v → isBlank b = true → u.count '(' ≠ u.count ')'

/-- A single token, said by counting. -/
structure IsSingle (t : Text) : Prop extends IsRun t where
  level : t.count '(' = t.count ')'

/-- A token that the end of the text cuts off. -/
structure IsOpen (t : Text) : Prop extends IsRun t where
  unlevel : t.count '(' ≠ t.count ')'

theorem unbroken_zero_iff :
    Unbroken 0 t ↔ ∀ u b v, t = u ++ b :: v → isBlank b = true → u.count '(' ≠ u.count ')' := by
  simp only [Unbroken, Int.zero_add, Ne, net_eq_zero_iff]

theorem isRun_iff : IsRun t ↔ t ≠ [] ∧ Unbroken 0 t := by
  rw [unbroken_zero_iff]
  constructor
  · rintro ⟨⟨c, rest, rfl, -⟩, huneven⟩
    exact ⟨List.cons_ne_nil c rest, huneven⟩
  · rintro ⟨hne, huneven⟩
    refine ⟨?_, huneven⟩
    cases t with
    | nil => exact absurd rfl hne
    | cons c rest =>
      refine ⟨c, rest, rfl, ?_⟩
      rw [← Bool.not_eq_true]
      intro hblank
      -- the empty text before the first character has no parentheses
      exact huneven [] c rest rfl hblank rfl

theorem isToken_iff : IsToken t ↔ IsSingle t := by
  have hcloses : Closes 0 t ↔ Unbroken 0 t ∧ t.count '(' = t.count ')' := by
    rw [Closes, scan_eq_iff, ← net_eq_zero_iff, Int.zero_add, eq_comm (a := (0 : Int))]
    simp
  constructor
  · rintro ⟨hne, h⟩
    obtain ⟨hunbroken, hlevel⟩ := hcloses.1 h
    exact ⟨isRun_iff.2 ⟨hne, hunbroken⟩, hlevel⟩
  · rintro ⟨hrun, hlevel⟩
    obtain ⟨hne, hunbroken⟩ := isRun_iff.1 hrun
    exact ⟨hne, hcloses.2 ⟨hunbroken, hlevel⟩⟩

theorem IsRun.trimStart_eq (h : IsRun t) : trimStart t = t := by
  obtain ⟨c, rest, rfl, hc⟩ := h.starts
  exact trimStart_of_head (by simpa using hc)

/-! ## The first token of a text -/

/-- The token is followed by a blank or by nothing; without a token nothing is left. -/
def TokenBefore (token rest : Text) : Prop :=
  token = [] ∧ rest = [] ∨ IsSingle token ∧ StartsBlank rest

theorem TokenBefore.startsBlank (h : TokenBefore t rest) : StartsBlank rest := by
  rcases h with ⟨-, rfl⟩ | ⟨-, hrest⟩
  · simp [StartsBlank]
  · exact hrest

theorem TokenBefore.single (h : TokenBefore t rest) (hrest : t ≠ [] ∨ rest ≠ []) : IsSingle t := by
  rcases h with ⟨rfl, rfl⟩ | ⟨hsingle, -⟩
  · simp at hrest
  · exact hsingle

theorem leadingToken?_eq_some_iff_scan :
    leadingToken? t = some (token, rest) ↔ scan 0 (trimStart t) = ⟨token, rest, 0⟩ := by
  obtain ⟨token', rest', depth, hscan⟩ : ∃ token' rest' depth,
      scan 0 (trimStart t) = ⟨token', rest', depth⟩ := ⟨_, _, _, rfl⟩
  rw [leadingToken?, hscan, Scan.mk.injEq]
  by_cases hdepth : depth = 0
  · simp [hdepth]
  · simp [hdepth]

theorem scan_zero_eq_iff :
    scan 0 t = ⟨token, rest, 0⟩ ↔
      t = token ++ rest ∧ Unbroken 0 token ∧ net token = 0 ∧ StartsBlank rest := by
  rw [scan_eq_iff, startsBlank_iff, Int.zero_add, and_iff_right (rfl : (0 : Int) = 0),
    eq_comm (a := (0 : Int))]

theorem leadingToken?_eq_some_iff :
    leadingToken? t = some (token, rest) ↔
      ∃ w, (∀ c ∈ w, isBlank c = true) ∧ t = w ++ token ++ rest ∧ TokenBefore token rest := by
  rw [leadingToken?_eq_some_iff_scan, scan_zero_eq_iff]
  constructor
  · rintro ⟨hsplit, hunbroken, hnet, hrest⟩
    obtain ⟨w, hw, hblank⟩ := exists_blanks_trimStart t
    refine ⟨w, hblank, by rw [List.append_assoc, ← hsplit, ← hw], ?_⟩
    by_cases htoken : token = []
    · subst htoken
      refine .inl ⟨rfl, ?_⟩
      rcases startsBlank_iff.1 hrest with hnil | ⟨b, more, rfl, hb⟩
      · exact hnil
      · have hhead := head?_trimStart t b (by rw [hsplit]; rfl)
        rw [hb] at hhead
        exact Bool.noConfusion hhead
    · exact .inr ⟨⟨isRun_iff.2 ⟨htoken, hunbroken⟩, net_eq_zero_iff.1 hnet⟩, hrest⟩
  · rintro ⟨w, hblank, rfl, ⟨rfl, rfl⟩ | ⟨hsingle, hrest⟩⟩
    · rw [List.append_nil, List.append_nil, ← List.append_nil w, trimStart_append_of_blanks hblank]
      exact ⟨rfl, unbroken_nil, rfl, by simp [StartsBlank]⟩
    · rw [List.append_assoc, trimStart_append_of_blanks hblank,
        (isToken_iff.2 hsingle).trimStart_append]
      exact ⟨rfl, (isRun_iff.1 hsingle.toIsRun).2, net_eq_zero_iff.2 hsingle.level, hrest⟩

/-- A text without a first token leaves parentheses open. -/
theorem leadingToken?_eq_none_iff :
    leadingToken? t = none ↔
      ∃ w r, (∀ c ∈ w, isBlank c = true) ∧ t = w ++ r ∧ IsOpen r := by
  obtain ⟨token, rest, depth, hscan⟩ : ∃ token rest depth,
      scan 0 (trimStart t) = ⟨token, rest, depth⟩ := ⟨_, _, _, rfl⟩
  have hnone : leadingToken? t = none ↔ depth ≠ 0 := by simp [leadingToken?, hscan]
  obtain ⟨hsplit, hunbroken, hdepth, hrest⟩ := scan_eq_iff.1 hscan
  rw [Int.zero_add] at hdepth
  rw [hnone]
  constructor
  · intro hne
    obtain ⟨w, hw, hblank⟩ := exists_blanks_trimStart t
    obtain rfl : rest = [] := hrest.resolve_right fun h => hne h.1
    rw [List.append_nil] at hsplit
    refine ⟨w, token, hblank, by rw [← hsplit, ← hw], isRun_iff.2 ⟨?_, hunbroken⟩, ?_⟩
    · rintro rfl
      exact hne (by rw [hdepth, net_nil])
    · rwa [hdepth, Ne, net_eq_zero_iff] at hne
  · rintro ⟨w, r, hblank, rfl, hopen⟩
    rw [trimStart_append_of_blanks hblank, hopen.trimStart_eq] at hscan
    have hunbroken := (isRun_iff.1 hopen.toIsRun).2
    have hall : scan 0 r = ⟨r, [], net r⟩ := scan_eq_iff.2 (by simp [hunbroken])
    rw [hall, Scan.mk.injEq] at hscan
    rw [← hscan.2.2, Ne, net_eq_zero_iff]
    exact hopen.unlevel

end HeaderConstants.Header
