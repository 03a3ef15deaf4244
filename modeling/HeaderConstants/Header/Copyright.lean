import HeaderConstants.Text.Line
import HeaderConstants.Text.Search

/-!
# Leading comments

The copyright text of a header is in the comments before its first directive. Lines are looked at
whole: a line that holds a comment marker, and a line inside a comment, is kept, and the first line
outside of a comment that has neither marker but a `#` starts the directives, after which no line
counts. A line with both markers closes a comment only if its first marker opens and its last closes
one.

* `Header.CommentScan.feed`: one line;
* `Header.copyrightOf`: the text kept of a list of lines.
-/

namespace HeaderConstants.Header
set_option autoImplicit false

inductive CommentState where
  | outside
  | inside
  | directives
  deriving DecidableEq, Repr

def opener : Text := ['/', '*']

def closer : Text := ['*', '/']

/-- The state after a line and whether the line is kept. -/
def CommentState.next (state : CommentState) (line : Text) : CommentState × Bool :=
  match Text.find? opener line, Text.find? closer line with
  | some first, some last =>
    if first < last ∧ line.endsWith closer then (.outside, true) else (.inside, true)
  | some _, none => (.inside, true)
  | none, some _ => (.outside, true)
  | none, none =>
    match state with
    | .inside => (.inside, true)
    | _ => if line.contains '#' then (.directives, false) else (.outside, false)

structure CommentScan where
  state : CommentState
  kept : List Text
  deriving DecidableEq, Repr

namespace CommentScan

def start : CommentScan := ⟨.outside, []⟩

def feed (s : CommentScan) (line : Text) : CommentScan :=
  match s.state with
  | .directives => s
  | state =>
    let (state', keep) := state.next line
    ⟨state', if keep then s.kept ++ [line] else s.kept⟩

def text (s : CommentScan) : Text := Text.joined ['\n'] s.kept ++ ['\n', '\n']

/-- Feeds lines until the directives start. -/
def feedAll : CommentScan → List Text → CommentScan
  | s, [] => s
  | s, line :: lines =>
    let s' := s.feed line
    if s'.state = .directives then s' else feedAll s' lines

end CommentScan

def copyrightOf (lines : List Text) : Text :=
  (CommentScan.start.feedAll (lines.map Text.trimEnd)).text

end HeaderConstants.Header
