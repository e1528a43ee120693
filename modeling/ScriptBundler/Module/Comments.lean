import ScriptBundler.Script.Tree

/-!
# Comments of top-level statements

Every comment between two statements goes with one of them.  A comment on the line on which a
statement ends trails that statement, if no other comment does; any other comment leads the
statement after it.  A comment inside a statement is part of its text and goes with none.
-/

namespace ScriptBundler
namespace Module

open Script Text

/-- The comments that go with a statement. -/
structure Attached where
  leading : List Span
  trailing : Option Span
deriving Repr, DecidableEq

/-- The comments between the end of a statement and the start of the next one: the one that
trails, those that lead, and the comments that come later. -/
structure Claimed where
  trailing : Option Span
  leading : List Span
  later : List Comment

/-- Whether a line ends between two offsets. -/
def newlineBetween (source : List Char) (start stop : Nat) : Bool :=
  (slice source start stop).contains '\n'

/-- Hands out the comments before the statement that starts at `start`.  `before` is the end of
the statement before it, `mayTrail` says whether a comment may still trail that one. -/
def claim (source : List Char) (before : Option Nat) (start : Nat) :
    Bool → List Comment → Claimed
  | _, [] => ⟨none, [], []⟩
  | mayTrail, comment :: rest =>
    if start < comment.span.stop then ⟨none, [], comment :: rest⟩
    else
      match before with
      | none =>
        let claimed := claim source before start false rest
        { claimed with leading := comment.span :: claimed.leading }
      | some stop =>
        if comment.span.start < stop then claim source before start mayTrail rest
        else if mayTrail && !newlineBetween source stop comment.span.start then
          let claimed := claim source before start false rest
          { claimed with trailing := some comment.span }
        else
          let claimed := claim source before start false rest
          { claimed with leading := comment.span :: claimed.leading }

/-- The comment that trails the last statement, which ends at `stop`. -/
def trailsLast (source : List Char) (stop : Nat) (comments : List Comment) : Option Span :=
  match comments.find? fun comment => stop ≤ comment.span.start with
  | some comment =>
    if newlineBetween source stop comment.span.start then none else some comment.span
  | none => none

/-- Attaches comments to statements, from the end of a statement on: the comment that trails it,
and what goes with the statements after it. -/
def attachAfter (source : List Char) :
    Option Nat → List Span → List Comment → Option Span × List Attached
  | none, [], _ => (none, [])
  | some stop, [], comments => (trailsLast source stop comments, [])
  | before, span :: spans, comments =>
    let claimed := claim source before span.start before.isSome comments
    let (own, others) := attachAfter source (some span.stop) spans claimed.later
    (claimed.trailing, ⟨claimed.leading, own⟩ :: others)

/-- Attaches the comments of a source to its statements, both in source order. -/
def attachComments (source : List Char) (spans : List Span) (comments : List Comment) :
    List Attached :=
  (attachAfter source none spans comments).2

/-- The range of a statement with the comments that go with it. -/
def rangeWith (span : Span) (attached : Attached) : Span :=
  { start := match attached.leading with
      | [] => span.start
      | first :: _ => first.start
    stop := match attached.trailing with
      | none => span.stop
      | some comment => comment.stop }

/-- How far the ranges of statements are apart: for each one, one more than the number of newlines
between it and the one before, or the start of the source. -/
def gaps (source : List Char) : Nat → List Span → List Nat
  | _, [] => []
  | before, range :: rest =>
    (newlines (slice source (min before range.start) range.start) + 1) ::
      gaps source range.stop rest

end Module
end ScriptBundler
