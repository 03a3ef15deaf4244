import HeaderConstants.Proofs.Emit.DocComment

/-!
# Compiler output in a comment

In the verbose Java form the documentation of a constant also has what the compiler printed when the
constant was checked, each line trimmed and behind a mark. Unlike the line of the definition it goes
there with its markers. Trimming and marking neither make nor undo a closing marker, so that the
comment ends at its closing line only where the compiler printed none.

* `Emit.Java.docBlock`: the comment of a constant;
* `closes_at_end_iff`: texts that a comment ends behind;
* `Emit.Java.noCloser_commentLines_iff`: an output line by line;
* `Emit.Java.doc_closes_once_iff`: where the comment of a constant ends.
-/

namespace HeaderConstants
set_option autoImplicit false

open Text Header

variable {c : Constant} {s t x : Text}

/-! ## Blanks around a text -/

theorem noCloser_of_isBlank (hs : ∀ c ∈ s, isBlank c = true) : NoCloser s := fun hin =>
  absurd (hs '*' (hin.subset (List.mem_cons_self ..))) (by decide)

theorem noCloser_blanks_append (hs : ∀ c ∈ s, isBlank c = true) :
    NoCloser (s ++ t) ↔ NoCloser t := by
  refine ⟨fun h => h.of_infix (List.suffix_append s t).isInfix, fun h => ?_⟩
  refine (noCloser_of_isBlank hs).append h (.inl fun hlast => ?_)
  exact absurd (hs '*' (List.mem_of_getLast? hlast)) (by decide)

theorem noCloser_append_blanks (hs : ∀ c ∈ s, isBlank c = true) :
    NoCloser (t ++ s) ↔ NoCloser t := by
  refine ⟨fun h => h.of_infix (List.prefix_append t s).isInfix, fun h => ?_⟩
  refine h.append (noCloser_of_isBlank hs) (.inr fun hhead => ?_)
  exact absurd (hs '/' (List.mem_of_head? hhead)) (by decide)

theorem noCloser_trimStart : NoCloser (trimStart t) ↔ NoCloser t := by
  obtain ⟨s, hs, hblank⟩ := exists_blanks_trimStart t
  conv_rhs => rw [hs]
  exact (noCloser_blanks_append hblank).symm

theorem noCloser_trimEnd : NoCloser (trimEnd t) ↔ NoCloser t := by
  obtain ⟨s, hs, hblank⟩ := exists_blanks_trimEnd t
  conv_rhs => rw [hs]
  exact (noCloser_append_blanks hblank).symm

theorem noCloser_trim : NoCloser t.trim ↔ NoCloser t :=
  noCloser_trimEnd.trans noCloser_trimStart

/-! ## The end of a comment -/

/-- The closing marker behind a text is the first one exactly if the text has none. -/
theorem closes_at_end_iff :
    (∀ u w, x ++ closer ++ ['\n'] = u ++ closer ++ w → w = ['\n']) ↔ NoCloser x := by
  constructor
  · rintro honly ⟨u, w, rfl⟩
    have hrest := honly u (w ++ closer ++ ['\n']) (by simp)
    have hlength := congrArg List.length hrest
    simp only [closer, List.length_append, List.length_cons] at hlength
    omega
  · intro hx u w hsplit
    -- a marker further to the left would stand before the slash of this one
    rcases List.eq_nil_or_concat w with rfl | ⟨more, last, rfl⟩
    · have hlast := congrArg List.getLast? hsplit
      simp [closer] at hlast
    · rw [List.concat_eq_append, ← List.append_assoc] at hsplit
      obtain ⟨hbefore, hfeed⟩ := List.append_inj' hsplit rfl
      rcases List.eq_nil_or_concat more with rfl | ⟨more, slash, rfl⟩
      · exact hfeed.symm
      · rw [List.concat_eq_append, ← List.append_assoc] at hbefore
        have hslash : x ++ ['*'] ++ ['/'] = u ++ closer ++ more ++ [slash] := by
          rw [List.append_assoc]
          exact hbefore
        have hstar := (List.append_inj' hslash rfl).1
        have hnone : NoCloser (x ++ ['*']) := (noCloser_concat (by decide)).2 hx
        exact absurd ⟨u, more, hstar.symm⟩ hnone

namespace Emit.Java

variable {d : Document} {title output : Text} {v : UInt64}

/-! ## Outputs -/

theorem isLabel_commentMark : IsLabel commentMark where
  ne_nil := by decide
  noCloser := noCloser_of_not_mem (by decide)
  head := by decide
  last := by decide

theorem noCloser_commentLines_iff :
    (∀ line ∈ commentLines commentMark output, NoCloser line) ↔ NoCloser output := by
  have hline (piece : Text) : NoCloser (commentMark ++ piece.trim).trimEnd ↔ NoCloser piece := by
    rw [noCloser_trimEnd, ← noCloser_trim (t := piece)]
    exact ⟨fun h => h.of_infix (List.suffix_append commentMark _).isInfix,
      fun h => isLabel_commentMark.append h⟩
  have hpieces : NoCloser (unlines (splitAtFeeds output)) ↔
      ∀ piece ∈ splitAtFeeds output, NoCloser piece := noCloser_unlines_iff
  rw [unlines_splitAtFeeds, noCloser_concat (by decide)] at hpieces
  rw [hpieces, commentLines, List.forall_mem_map]
  exact forall₂_congr fun piece _ => hline piece

theorem noCloser_streamLines_iff (htitle : NoCloser title) :
    (∀ line ∈ streamLines title output, NoCloser line) ↔ NoCloser output := by
  rw [streamLines]
  split
  · next hnil =>
    rw [List.isEmpty_iff.1 hnil]
    exact iff_of_true (List.forall_mem_nil _) noCloser_nil
  · have hblank : NoCloser blankComment := noCloser_of_not_mem (by decide)
    have hmarked : NoCloser (commentMark ++ title) := isLabel_commentMark.append htitle
    rw [List.forall_mem_cons, List.forall_mem_cons, noCloser_commentLines_iff,
      and_iff_right hblank, and_iff_right hmarked]

theorem noCloser_probeLines_iff {o : ProbeOutput} :
    (∀ line ∈ probeLines o, NoCloser line) ↔ NoCloser o.stdout ∧ NoCloser o.stderr := by
  have hstdout : NoCloser "check stdout:" := noCloser_of_not_mem (by decide)
  have hstderr : NoCloser "check stderr:" := noCloser_of_not_mem (by decide)
  rw [probeLines, List.forall_mem_append, noCloser_streamLines_iff hstdout,
    noCloser_streamLines_iff hstderr]

/-! ## The comment of a constant -/

/-- The documentation of a constant with its opening and its closing line. -/
def docBlock (d : Document) (c : Constant) : Text :=
  unlines (docOpening ++ docLines d c ++ [docClosing])

/-- The outputs come behind what is there without a report. -/
theorem docLines_eq_append (d : Document) (c : Constant) :
    docLines d c = docLines { d with report := none } c ++
      ((d.probeOutput? c.name).map probeLines).getD [] := by
  have hprobe : ({ d with report := none } : Document).probeOutput? c.name = none := by
    rw [Document.probeOutput?]
    split <;> rfl
  rw [docLines, docLines, hprobe]
  simp

theorem noCloser_docLines_iff (h : c.CommentSafe) :
    (∀ line ∈ docLines d c, NoCloser line) ↔
      ∀ o, d.probeOutput? c.name = some o → NoCloser o.stdout ∧ NoCloser o.stderr := by
  rw [docLines_eq_append, List.forall_mem_append, and_iff_right (noCloser_docLines h rfl)]
  cases d.probeOutput? c.name with
  | none => simp
  | some o =>
    rw [Option.map_some, Option.getD_some, noCloser_probeLines_iff]
    simp

theorem closes_once_iff :
    (∀ u w, docBlock d c = u ++ closer ++ w → w = ['\n']) ↔
      ∀ line ∈ docLines d c, NoCloser line := by
  have hclosing : unlines [docClosing] = "     " ++ closer ++ ['\n'] := rfl
  have hblock : docBlock d c =
      unlines (docOpening ++ docLines d c) ++ "     " ++ closer ++ ['\n'] := by
    rw [docBlock, unlines_append, hclosing, List.append_assoc, List.append_assoc,
      List.append_assoc]
  have hopening : ∀ line ∈ docOpening, NoCloser line := by decide +kernel
  have hmargin : ("     " : Text).all isBlank = true := rfl
  rw [hblock, closes_at_end_iff, noCloser_append_blanks (List.all_eq_true.1 hmargin),
    noCloser_unlines_iff, List.forall_mem_append, and_iff_right hopening]

theorem constantLines_eq_docBlock (d : Document) (hv : c.resolvedValue = some v) :
    (constantLines d c).map unlines = .ok (docBlock d c ++ unlines [declaration c v]) := by
  have hsplit : docOpening ++ docLines d c ++ [docClosing, declaration c v] =
      docOpening ++ docLines d c ++ [docClosing] ++ [declaration c v] := by
    simp
  rw [constantLines, Constant.requireValue, hv]
  change Except.ok (unlines _) = _
  rw [hsplit, unlines_append, docBlock]

/-- The comment of a constant whose own texts have no closing marker ends at its closing line and
nowhere before, exactly if the output that it shows has no closing marker either. -/
theorem doc_closes_once_iff (d : Document) (c : Constant) {v : UInt64} (h : c.CommentSafe)
    (hv : c.resolvedValue = some v) :
    (constantLines d c).map unlines = .ok (docBlock d c ++ unlines [declaration c v]) ∧
    ((∀ u w, docBlock d c = u ++ ['*', '/'] ++ w → w = ['\n']) ↔
      ∀ o, d.probeOutput? c.name = some o →
        ¬ ['*', '/'] <:+: o.stdout ∧ ¬ ['*', '/'] <:+: o.stderr) :=
  ⟨constantLines_eq_docBlock d hv, closes_once_iff.trans (noCloser_docLines_iff h)⟩

/-- A line with a comment in it, and an output with half of a marker at the end of a line. -/
theorem doc_closes_once_iff_star :
    let c : Constant :=
      (Constant.define "CKA_A" "CKA_B" "t.h" 3 "#define CKA_A CKA_B /* a */").resolve 6
        [⟨"CKA_B", "CKA_B", "(0x00000006)"⟩]
    let d : Document := ⟨[c], [], some ⟨1, [("CKA_A", ⟨"", "t.h:3: note: *\n/ \n"⟩)]⟩, true⟩
    c.CommentSafe ∧ c.resolvedValue = some 6 ∧
    (constantLines d c).map unlines = .ok (docBlock d c ++ unlines [declaration c 6]) ∧
    ((∀ u w, docBlock d c = u ++ ['*', '/'] ++ w → w = ['\n']) ↔
      ∀ o, d.probeOutput? c.name = some o →
        ¬ ['*', '/'] <:+: o.stdout ∧ ¬ ['*', '/'] <:+: o.stderr) := by
  intro c d
  have htrace : ∀ st ∈ c.trace, st.HasNoCloser := by
    intro st hst
    obtain rfl := List.mem_singleton.1 hst
    exact ⟨noCloser_of_not_mem (by decide), noCloser_of_not_mem (by decide),
      noCloser_of_not_mem (by decide)⟩
  have h : c.CommentSafe :=
    ⟨noCloser_of_not_mem (by decide), noCloser_of_not_mem (by decide),
      noCloser_of_not_mem (by decide), noCloser_defuse _, htrace⟩
  exact ⟨h, rfl, doc_closes_once_iff d c h rfl⟩

/-- The compiler repeats the line of the definition with the comment in it. -/
theorem not_always_closes_once :
    ¬ ∀ (d : Document) (c : Constant), d.verbose = true → c.isResolved = true →
      Resolve.Identifier c.name → NoCloser c.rawValue → NoCloser c.sourceFile → NoCloser c.line →
      (∀ st ∈ c.trace, st.HasNoCloser) →
      ∀ u w, docBlock d c = u ++ ['*', '/'] ++ w → w = ['\n'] := by
  intro hclose
  let c : Constant := (Constant.define "CKA_A" "6" "t.h" 1 "#define CKA_A 6").resolve 6 []
  let o : ProbeOutput := ⟨"", "t.h:1: note: #define CKA_A 6 /* six */"⟩
  let d : Document := ⟨[c], [], some ⟨1, [("CKA_A", o)]⟩, true⟩
  have h : c.CommentSafe :=
    ⟨noCloser_of_not_mem (by decide), noCloser_of_not_mem (by decide),
      noCloser_of_not_mem (by decide), noCloser_defuse _, List.forall_mem_nil _⟩
  have honce := hclose d c rfl rfl (by decide) h.rawValue h.sourceFile h.line h.trace
  have houtput := (noCloser_docLines_iff h).1 (closes_once_iff.1 honce) o rfl
  exact houtput.2 ⟨"t.h:1: note: #define CKA_A 6 /* six ", [], rfl⟩

end Emit.Java

end HeaderConstants
