import ScriptBundler.Text.Snippet

/-!
# Compositions

A composition joins rendered snippets into one text, with a separator before each of them but
the first.  It also tells by which indentation its parts are written.
-/

namespace ScriptBundler
namespace Text

/-- A rendered snippet with the separator that comes before it. -/
structure Part where
  separator : List Char
  text : List Char
deriving Repr, DecidableEq

/-- Parts joined into one text. -/
structure Composition where
  parts : List Part
  intro : List Char
  outro : List Char
  trimmed : Bool
deriving Repr, DecidableEq

/-- The lines of a text, without the characters that end them. -/
def lines (text : List Char) : List (List Char) :=
  text.splitOn '\n'

/-- How many spaces a line starts with. -/
def leadingSpaces (line : List Char) : Nat :=
  (line.takeWhile (· == ' ')).length

namespace Composition

/-- The composition without parts. -/
def empty : Composition :=
  ⟨[], [], [], false⟩

/-- Adds a snippet as it is rendered now. -/
def add (composition : Composition) (snippet : Snippet) (separator : List Char) : Composition :=
  { composition with parts := composition.parts ++ [⟨separator, snippet.render⟩] }

/-- Adds text before everything else. -/
def prepend (composition : Composition) (content : List Char) : Composition :=
  { composition with intro := content ++ composition.intro }

/-- Adds text after everything else. -/
def append (composition : Composition) (content : List Char) : Composition :=
  { composition with outro := composition.outro ++ content }

/-- Has white space stripped from both ends of the rendered text. -/
def trim (composition : Composition) : Composition :=
  { composition with trimmed := true }

/-- One step of indentation in the parts: a tab, unless more lines start with two spaces than
with a tab; then as many spaces as the least indented of those lines. -/
def indent (composition : Composition) : List Char :=
  let all := composition.parts.flatMap fun part => lines part.text
  let tabbed := all.countP fun line => line.head? == some '\t'
  let spaced := (all.map leadingSpaces).filter (2 ≤ ·)
  match spaced with
  | [] => ['\t']
  | first :: rest =>
    if spaced.length ≤ tabbed then ['\t'] else List.replicate (rest.foldl min first) ' '

/-- The parts with the separators between them. -/
def joined : List Part → List Char
  | [] => []
  | first :: rest => first.text ++ rest.flatMap fun part => part.separator ++ part.text

/-- The text of a composition. -/
def render (composition : Composition) : List Char :=
  let text := composition.intro ++ joined composition.parts ++ composition.outro
  if composition.trimmed then Text.trim text else text

end Composition

end Text
end ScriptBundler
