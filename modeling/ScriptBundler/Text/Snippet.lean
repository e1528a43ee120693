import ScriptBundler.Text.Bytes

/-!
# Snippets

A snippet is a view of a range of bytes of a source together with edits of it.  The edits of a
snippet never overlap and are kept in the order of their places; rendering goes through the source
once and puts them in.  The source itself never changes, so that any number of snippets can be cut
from it.
-/

namespace ScriptBundler
namespace Text

/-- New content for the bytes from `start` up to `stop` of a source. -/
structure Edit where
  start : Nat
  stop : Nat
  content : List Char
deriving Repr, DecidableEq

/-- Why an edit is refused. -/
inductive EditFault where
  | emptyRange
  | outside
  | overlap
deriving Repr, DecidableEq

/-- The reason in words. -/
def EditFault.reason : EditFault → String
  | emptyRange => "empty range"
  | outside => "outside of snippet"
  | overlap => "overlaps an earlier edit"

/-- An edit that was refused, and why. -/
structure RefusedEdit where
  start : Nat
  stop : Nat
  fault : EditFault
deriving Repr, DecidableEq

/-- The refusal in words. -/
def RefusedEdit.message (refused : RefusedEdit) : String :=
  s!"Cannot edit {refused.start}..{refused.stop}: {refused.fault.reason}"

/-- A view of the bytes from `start` up to `stop` of a source, with edits. -/
structure Snippet where
  source : List Char
  start : Nat
  stop : Nat
  /-- The edits, in the order of their places. -/
  edits : List Edit
  intro : List Char
  outro : List Char
  trimmed : Bool
deriving Repr, DecidableEq

/-- Puts an edit in its place among edits.  An edit that starts at the same byte gives way. -/
def insertEdit (edit : Edit) : List Edit → List Edit
  | [] => [edit]
  | first :: rest =>
    if edit.start < first.start then edit :: first :: rest
    else if edit.start = first.start then edit :: rest
    else first :: insertEdit edit rest

/-- Of edits in the order of their places, the last one that starts before an offset. -/
def lastBefore (edits : List Edit) (offset : Nat) : Option Edit :=
  (edits.filter (·.start < offset)).getLast?

namespace Snippet

/-- The view of a whole source. -/
def ofSource (source : List Char) : Snippet :=
  { source, start := 0, stop := byteLength source, edits := [], intro := [], outro := []
    trimmed := false }

/-- A view of a part of the same source.  It carries the edits that lie in that part wholly. -/
def snip (snippet : Snippet) (start stop : Nat) : Snippet :=
  { source := snippet.source, start, stop
    edits := snippet.edits.filter fun edit =>
      start ≤ edit.start && edit.start < stop && edit.stop ≤ stop
    intro := [], outro := [], trimmed := false }

/-- Replaces bytes of the source.  Refused are an empty range, a range that is not within the
view, and a range that overlaps the edit that starts last before its end. -/
def overwrite (snippet : Snippet) (start stop : Nat) (content : List Char) :
    Except RefusedEdit Snippet :=
  if stop ≤ start then .error ⟨start, stop, .emptyRange⟩
  else if start < snippet.start || snippet.stop < stop then .error ⟨start, stop, .outside⟩
  else if (lastBefore snippet.edits stop).any (start < ·.stop) then .error ⟨start, stop, .overlap⟩
  else .ok { snippet with edits := insertEdit ⟨start, stop, content⟩ snippet.edits }

/-- Removes bytes of the source. -/
def remove (snippet : Snippet) (start stop : Nat) : Except RefusedEdit Snippet :=
  snippet.overwrite start stop []

/-- A removal is an edit that puts nothing in. -/
@[simp] theorem remove_eq_overwrite (snippet : Snippet) (start stop : Nat) :
    snippet.remove start stop = snippet.overwrite start stop [] := rfl

/-- Adds text before everything else. -/
def prepend (snippet : Snippet) (content : List Char) : Snippet :=
  { snippet with intro := content ++ snippet.intro }

/-- Adds text after everything else. -/
def append (snippet : Snippet) (content : List Char) : Snippet :=
  { snippet with outro := snippet.outro ++ content }

/-- Has white space stripped from both ends of the rendered text. -/
def trim (snippet : Snippet) : Snippet :=
  { snippet with trimmed := true }

/-- The source from `cursor` up to `stop`, with edits put in, up to the first one that goes past
the end. -/
def applyEdits (source : List Char) (stop : Nat) : List Edit → Nat → List Char
  | [], cursor => slice source cursor stop
  | edit :: rest, cursor =>
    if stop < edit.stop then slice source cursor stop
    else slice source cursor edit.start ++ edit.content ++ applyEdits source stop rest edit.stop

/-- The text of a snippet before it is trimmed. -/
def untrimmed (snippet : Snippet) : List Char :=
  let edits := snippet.edits.filter fun edit =>
    snippet.start ≤ edit.start && edit.start < snippet.stop
  snippet.intro ++ applyEdits snippet.source snippet.stop edits snippet.start ++ snippet.outro

/-- The text of a snippet. -/
def render (snippet : Snippet) : List Char :=
  if snippet.trimmed then Text.trim snippet.untrimmed else snippet.untrimmed

end Snippet

end Text
end ScriptBundler
