import HeaderConstants.Header.Copyright
import HeaderConstants.Proofs.Text.Search

/-!
# Leading comments by their characters

A block comment is opened by one marker and closed by another. The scan for the leading comments looks
at the markers of whole lines, and on plain lines it finds the comments that a reading character by
character finds: no star of a plain line is in both an opening and a closing marker, and a line with
both markers opens a comment first and ends where one is closed.

* `Header.openAfter`: whether a comment is open after a text;
* `Header.openAfter_of_single`, `Header.openAfter_of_closed`: what the markers of a line do;
* `Header.CommentState.next_ofOpen`, `Header.CommentScan.foldl_feed`: one line, and all lines;
* `Header.copyright_is_leading_comments`: the scan and the copyright text.
-/

namespace HeaderConstants.Header
set_option autoImplicit false

open Text

variable {isOpen first : Bool} {c : Char} {line t : Text} {lines kept : List Text} {s : CommentScan}

/-! ## Block comments -/

/-- The marker that is waited for: inside a comment the closing one, outside the opening one. -/
def marker (isOpen : Bool) : Text := if isOpen then closer else opener

/-- Whether a comment is open behind a text, if it was before it. A character is in one marker only. -/
def openAfter : Bool → Text → Bool
  | isOpen, [] => isOpen
  | isOpen, [_] => isOpen
  | isOpen, c :: d :: t =>
    if [c, d] = marker isOpen then openAfter (!isOpen) t else openAfter isOpen (d :: t)

theorem length_marker (isOpen : Bool) : (marker isOpen).length = 2 := by
  cases isOpen <;> rfl

theorem newline_not_mem_marker (isOpen : Bool) : '\n' ∉ marker isOpen := by
  cases isOpen <;> decide

theorem openAfter_newline_cons (isOpen : Bool) (t : Text) :
    openAfter isOpen ('\n' :: t) = openAfter isOpen t := by
  cases t with
  | nil => rfl
  | cons c t =>
    rw [openAfter, if_neg]
    intro h
    exact newline_not_mem_marker isOpen (h ▸ by simp)

/-- No marker goes over the end of a line. -/
theorem openAfter_append_newline_cons (isOpen : Bool) (u v : Text) :
    openAfter isOpen (u ++ '\n' :: v) = openAfter (openAfter isOpen u) v := by
  fun_induction openAfter isOpen u with
  | case1 isOpen => exact openAfter_newline_cons isOpen v
  | case2 isOpen c =>
    rw [List.singleton_append, openAfter, if_neg, openAfter_newline_cons]
    intro h
    exact newline_not_mem_marker isOpen (h ▸ by simp)
  | case3 isOpen c d t hmarker ih =>
    rw [List.cons_append, List.cons_append, openAfter, if_pos hmarker, ih]
  | case4 isOpen c d t hmarker ih =>
    rw [List.cons_append, List.cons_append, openAfter, if_neg hmarker, ← List.cons_append, ih]

theorem openAfter_joined_cons (isOpen : Bool) (line : Text) (lines : List Text) :
    openAfter isOpen (joined ['\n'] (line :: lines)) =
      openAfter (openAfter isOpen line) (joined ['\n'] lines) := by
  cases lines with
  | nil => rfl
  | cons next more =>
    rw [joined, List.append_assoc, List.singleton_append, openAfter_append_newline_cons]

/-! ## Markers of a line -/

theorem two_le_length_of_marker (h : marker isOpen <:+: t) : 2 ≤ t.length :=
  length_marker isOpen ▸ h.length_le

theorem openAfter_of_absent (h : ¬ marker isOpen <:+: t) : openAfter isOpen t = isOpen := by
  fun_induction openAfter isOpen t with
  | case1 isOpen => rfl
  | case2 isOpen c => rfl
  | case3 isOpen c d t hmarker ih => exact absurd (hmarker ▸ ⟨[], t, rfl⟩) h
  | case4 isOpen c d t hmarker ih => exact ih fun hin => h (List.infix_cons hin)

theorem openAfter_of_present (h : marker isOpen <:+: t) (hother : ¬ marker (!isOpen) <:+: t) :
    openAfter isOpen t = !isOpen := by
  fun_induction openAfter isOpen t with
  | case1 isOpen => exact absurd (two_le_length_of_marker h) (by simp)
  | case2 isOpen c => exact absurd (two_le_length_of_marker h) (by simp)
  | case3 isOpen c d t hmarker ih =>
    exact openAfter_of_absent fun hin => hother (List.infix_cons (List.infix_cons hin))
  | case4 isOpen c d t hmarker ih =>
    refine ih ?_ fun hin => hother (List.infix_cons hin)
    refine (List.infix_cons_iff.1 h).resolve_left fun hfirst => hmarker ?_
    have htake := List.prefix_iff_eq_take.1 hfirst
    rw [length_marker] at htake
    exact htake.symm

/-- A line with only one kind of marker. -/
theorem openAfter_of_single (h : marker first <:+: t) (hother : ¬ marker (!first) <:+: t) :
    openAfter isOpen t = !first := by
  by_cases hfirst : isOpen = first
  · subst hfirst
    exact openAfter_of_present h hother
  · obtain rfl : isOpen = !first := Bool.eq_not.2 hfirst
    exact openAfter_of_absent hother

theorem closer_suffix_cons_iff : closer <:+ c :: t ↔ c = '*' ∧ t = ['/'] ∨ closer <:+ t := by
  rw [List.suffix_cons_iff, closer, List.cons.injEq, eq_comm, eq_comm (b := t)]

/-- A closing marker at the end, if its star is in no opening one, leaves nothing open. -/
theorem openAfter_of_closed (h : closer <:+ t) (happart : ¬ ['/', '*', '/'] <:+: t) :
    openAfter isOpen t = false := by
  fun_induction openAfter isOpen t with
  | case1 isOpen => exact absurd h.length_le (by simp [closer])
  | case2 isOpen c => exact absurd h.length_le (by simp [closer])
  | case3 isOpen c d t hmarker ih =>
    rcases closer_suffix_cons_iff.1 h with ⟨rfl, hall⟩ | h
    · obtain ⟨rfl, rfl⟩ := List.cons.inj hall
      cases isOpen with
      | false => exact absurd hmarker (by decide)
      | true => rfl
    · rcases closer_suffix_cons_iff.1 h with ⟨rfl, rfl⟩ | h
      · cases isOpen with
        | false =>
          obtain rfl : c = '/' := (List.cons.inj hmarker).1
          exact absurd List.infix_rfl happart
        | true => simp [marker, closer] at hmarker
      · exact ih h fun hin => happart (List.infix_cons (List.infix_cons hin))
  | case4 isOpen c d t hmarker ih =>
    rcases closer_suffix_cons_iff.1 h with ⟨rfl, hall⟩ | h
    · obtain ⟨rfl, rfl⟩ := List.cons.inj hall
      cases isOpen with
      | false => rfl
      | true => exact absurd rfl hmarker
    · exact ih h fun hin => happart (List.infix_cons hin)

/-! ## One line of a scan -/

/-- The line is trimmed, no star of it is in both an opening and a closing marker, and if it has both
markers it opens a comment first and closes one at its end. -/
structure IsPlain (line : Text) : Prop where
  trimmed : line.trimEnd = line
  apart : ¬ ['/', '*', '/'] <:+: line
  closed : ∀ i ∈ find? opener line, ∀ j ∈ find? closer line, i < j ∧ closer <:+ line

theorem isPlain_iff :
    IsPlain line ↔ line.trimEnd = line ∧ occursIn ['/', '*', '/'] line = false ∧
      ∀ i ∈ find? opener line, ∀ j ∈ find? closer line, i < j ∧ line.endsWith closer = true := by
  rw [not_occursIn_iff, endsWith, List.isSuffixOf_iff_suffix]
  exact ⟨fun h => ⟨h.trimmed, h.apart, h.closed⟩, fun ⟨trimmed, apart, closed⟩ =>
    ⟨trimmed, apart, closed⟩⟩

instance (line : Text) : Decidable (IsPlain line) := decidable_of_iff' _ isPlain_iff

def hasMarker (line : Text) : Bool := occursIn opener line || occursIn closer line

/-- The line is outside of comments and has a directive. -/
def startsDirectives (isOpen : Bool) (line : Text) : Bool :=
  !isOpen && !hasMarker line && line.contains '#'

/-- The state of a scan that has seen no directive. -/
def CommentState.ofOpen (isOpen : Bool) : CommentState := if isOpen then .inside else .outside

theorem CommentState.ofOpen_false : CommentState.ofOpen false = .outside := rfl

theorem CommentState.next_ofOpen (h : IsPlain line) :
    (CommentState.ofOpen isOpen).next line =
      if startsDirectives isOpen line then (.directives, false)
      else (.ofOpen (openAfter isOpen line), isOpen || hasMarker line) := by
  have hopener := find?_isSome opener line
  have hcloser := find?_isSome closer line
  unfold CommentState.next
  rw [startsDirectives, hasMarker, ← hopener, ← hcloser]
  cases hi : find? opener line with
  | none =>
    rw [hi, Option.isSome_none, eq_comm, not_occursIn_iff] at hopener
    cases hj : find? closer line with
    | none =>
      rw [hj, Option.isSome_none, eq_comm, not_occursIn_iff] at hcloser
      have hsame : openAfter isOpen line = isOpen :=
        openAfter_of_absent (by cases isOpen <;> assumption)
      rw [hsame]
      cases isOpen with
      | false => simp [ofOpen]
      | true => simp [ofOpen]
    | some j =>
      rw [hj, Option.isSome_some, eq_comm, occursIn_iff] at hcloser
      have hoff : openAfter isOpen line = false :=
        openAfter_of_single (show marker true <:+: line from hcloser) hopener
      simp [hoff, ofOpen]
  | some i =>
    rw [hi, Option.isSome_some, eq_comm, occursIn_iff] at hopener
    cases hj : find? closer line with
    | none =>
      rw [hj, Option.isSome_none, eq_comm, not_occursIn_iff] at hcloser
      have hon : openAfter isOpen line = true :=
        openAfter_of_single (show marker false <:+: line from hopener) hcloser
      simp [hon, ofOpen]
    | some j =>
      obtain ⟨hlt, hend⟩ := h.closed i hi j hj
      have hoff : openAfter isOpen line = false := openAfter_of_closed hend h.apart
      have hends : line.endsWith closer = true := List.isSuffixOf_iff_suffix.2 hend
      simp [hoff, hlt, hends, ofOpen]

/-! ## All lines -/

/-- The lines, each with whether a comment is open where it starts. -/
def placedLines (isOpen : Bool) (lines : List Text) : List (Bool × Text) :=
  lines.zipIdx.map fun line => (openAfter isOpen (joined ['\n'] (lines.take line.2)), line.1)

/-- The lines before the directives. -/
def leadingLines (isOpen : Bool) (lines : List Text) : List (Bool × Text) :=
  (placedLines isOpen lines).takeWhile fun line => !startsDirectives line.1 line.2

/-- The lines before the directives that start inside a comment or have a marker. -/
def leadingComments (isOpen : Bool) (lines : List Text) : List Text :=
  ((leadingLines isOpen lines).filter fun line => line.1 || hasMarker line.2).map Prod.snd

@[simp] theorem placedLines_nil (isOpen : Bool) : placedLines isOpen [] = [] := rfl

theorem placedLines_cons (isOpen : Bool) (line : Text) (lines : List Text) :
    placedLines isOpen (line :: lines) =
      (isOpen, line) :: placedLines (openAfter isOpen line) lines := by
  rw [placedLines, placedLines, List.zipIdx_cons, Nat.zero_add, List.zipIdx_succ, List.map_cons,
    List.map_map]
  refine List.cons_eq_cons.2 ⟨rfl, List.map_congr_left fun later _ => ?_⟩
  simp only [Function.comp, List.take_succ_cons, openAfter_joined_cons]

theorem leadingLines_cons (isOpen : Bool) (line : Text) (lines : List Text) :
    leadingLines isOpen (line :: lines) =
      if startsDirectives isOpen line then []
      else (isOpen, line) :: leadingLines (openAfter isOpen line) lines := by
  rw [leadingLines, placedLines_cons, List.takeWhile_cons]
  cases startsDirectives isOpen line with
  | true => rfl
  | false => rfl

theorem leadingComments_cons (isOpen : Bool) (line : Text) (lines : List Text) :
    leadingComments isOpen (line :: lines) =
      if startsDirectives isOpen line then []
      else (if isOpen || hasMarker line then [line] else []) ++
        leadingComments (openAfter isOpen line) lines := by
  rw [leadingComments, leadingLines_cons]
  split
  · rfl
  · rw [List.filter_cons]
    split
    · rfl
    · rfl

theorem leadingLines_length_take (isOpen : Bool) (lines : List Text) (k : Nat) :
    (leadingLines isOpen (lines.take k)).length = min k (leadingLines isOpen lines).length := by
  induction lines generalizing isOpen k with
  | nil => simp [leadingLines]
  | cons line lines ih =>
    cases k with
    | zero => simp [leadingLines]
    | succ k =>
      rw [List.take_succ_cons, leadingLines_cons, leadingLines_cons]
      split
      · simp
      · rw [List.length_cons, List.length_cons, ih]
        omega

namespace CommentScan

theorem feed_of_directives (h : s.state = .directives) (line : Text) : s.feed line = s := by
  rw [feed]
  simp only [h]

theorem foldl_feed_of_directives (h : s.state = .directives) (lines : List Text) :
    lines.foldl feed s = s := by
  induction lines with
  | nil => rfl
  | cons line lines ih => rw [List.foldl_cons, feed_of_directives h, ih]

/-- Nothing is lost by ending at the directives. -/
theorem feedAll_eq_foldl (s : CommentScan) (lines : List Text) :
    s.feedAll lines = lines.foldl feed s := by
  induction lines generalizing s with
  | nil => rfl
  | cons line lines ih =>
    rw [feedAll, List.foldl_cons]
    split
    · next h => exact (foldl_feed_of_directives h lines).symm
    · exact ih (s.feed line)

theorem feed_ofOpen (h : IsPlain line) :
    feed ⟨.ofOpen isOpen, kept⟩ line =
      if startsDirectives isOpen line then ⟨.directives, kept⟩
      else ⟨.ofOpen (openAfter isOpen line),
        kept ++ if isOpen || hasMarker line then [line] else []⟩ := by
  have hfeed : feed ⟨.ofOpen isOpen, kept⟩ line =
      ⟨((CommentState.ofOpen isOpen).next line).1,
        if ((CommentState.ofOpen isOpen).next line).2 then kept ++ [line] else kept⟩ := by
    cases isOpen with
    | false => rfl
    | true => rfl
  rw [hfeed, CommentState.next_ofOpen h]
  split
  · rfl
  · cases hkeep : isOpen || hasMarker line with
    | false => simp
    | true => simp

/-- A scan of plain lines keeps the leading comments, and it knows whether a comment is open until it
comes to the directives. -/
theorem foldl_feed (h : ∀ line ∈ lines, IsPlain line) :
    lines.foldl feed ⟨.ofOpen isOpen, kept⟩ =
      ⟨if (leadingLines isOpen lines).length < lines.length then .directives
        else .ofOpen (openAfter isOpen (joined ['\n'] lines)),
        kept ++ leadingComments isOpen lines⟩ := by
  induction lines generalizing isOpen kept with
  | nil => simp [leadingLines, leadingComments, joined, openAfter]
  | cons line lines ih =>
    obtain ⟨hline, hlines⟩ := List.forall_mem_cons.1 h
    rw [List.foldl_cons, feed_ofOpen hline, leadingLines_cons, leadingComments_cons,
      openAfter_joined_cons]
    split
    · rw [foldl_feed_of_directives rfl]
      simp
    · rw [ih hlines, List.append_assoc]
      simp

end CommentScan

/-- The scan of plain lines and the reading of their characters agree on whether a comment is open, up
to the first line that starts outside of comments, has no marker and has a directive; there the scan
ends for good. The copyright text has the lines before it that start inside a comment or have a marker,
and it does not change if the scan is given all lines. -/
theorem copyright_is_leading_comments (lines : List Text) (h : ∀ line ∈ lines, IsPlain line) :
    (∀ k ≤ lines.length, ((lines.take k).foldl CommentScan.feed .start).state =
      if (leadingLines false lines).length < k then .directives
      else .ofOpen (openAfter false (joined ['\n'] (lines.take k)))) ∧
    copyrightOf lines = joined ['\n'] (leadingComments false lines) ++ ['\n', '\n'] ∧
    copyrightOf lines = (lines.foldl CommentScan.feed .start).text := by
  have hscan : copyrightOf lines = (lines.foldl CommentScan.feed .start).text := by
    have htrim : lines.map trimEnd = lines :=
      (List.map_congr_left fun line hline => (h line hline).trimmed).trans (List.map_id lines)
    rw [copyrightOf, htrim, CommentScan.feedAll_eq_foldl]
  refine ⟨fun k hk => ?_, ?_, hscan⟩
  · have htake : ∀ line ∈ lines.take k, IsPlain line := fun line hline =>
      h line (List.mem_of_mem_take hline)
    have hcut : (leadingLines false (lines.take k)).length < (lines.take k).length ↔
        (leadingLines false lines).length < k := by
      rw [leadingLines_length_take, List.length_take]
      omega
    rw [CommentScan.start, ← CommentState.ofOpen_false, CommentScan.foldl_feed htake]
    simp only [hcut]
  · rw [hscan, CommentScan.start, ← CommentState.ofOpen_false, CommentScan.foldl_feed h]
    rfl

theorem copyright_is_leading_comments_pound :
    (∀ line ∈ (["/* #one", "*/ int x;", "int y;", "#define A 1", "/* two */"] : List Text),
      IsPlain line) ∧
    copyrightOf ["/* #one", "*/ int x;", "int y;", "#define A 1", "/* two */"] =
      "/* #one\n*/ int x;\n\n" := by
  have hplain : ∀ line ∈ (["/* #one", "*/ int x;", "int y;", "#define A 1", "/* two */"] : List Text),
      IsPlain line := by
    decide +kernel
  exact ⟨hplain, (copyright_is_leading_comments _ hplain).2.1.trans (by decide +kernel)⟩

end HeaderConstants.Header
