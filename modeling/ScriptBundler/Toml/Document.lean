import ScriptBundler.Toml.Text

/-!
# TOML documents

A document is a sequence of lines: blank lines, headers of tables, and keys with values.  Numbers,
truth values, dates and arrays of tables are refused like anything that is malformed, since no
setting has such a value.

Reading is bounded by the length of the text, as every step takes at least one character.
-/

namespace ScriptBundler
namespace Toml

mutual

/-- A value. -/
def readValue : Nat → List Char → Option (Value × List Char)
  | 0, _ => none
  | fuel + 1, text =>
    match text with
    | '[' :: rest => do
      let (items, rest) ← readItems fuel rest
      pure (.list items, rest)
    | '{' :: rest =>
      match skipSpaces rest with
      | '}' :: rest => some (.table .braced [], rest)
      | rest => do
        let (members, rest) ← readMembers fuel [] rest
        pure (.table .braced members, rest)
    | text => do
      let (chars, rest) ← readText text
      pure (.text chars, rest)

/-- The items of a list, after its bracket or a comma. -/
def readItems : Nat → List Char → Option (List Value × List Char)
  | 0, _ => none
  | fuel + 1, text => do
    match ← skipLines (text.length + 1) text with
    | ']' :: rest => pure ([], rest)
    | text =>
      let (first, rest) ← readValue fuel text
      match ← skipLines (rest.length + 1) rest with
      | ']' :: rest => pure ([first], rest)
      | ',' :: rest =>
        let (others, rest) ← readItems fuel rest
        pure (first :: others, rest)
      | _ => none

/-- The members of a table in braces, after its brace or a comma. -/
def readMembers : Nat → Members → List Char → Option (Members × List Char)
  | 0, _, _ => none
  | fuel + 1, members, text => do
    let (key, rest) ← readKey (text.length + 1) text
    match rest with
    | '=' :: rest =>
      let (value, rest) ← readValue fuel (skipSpaces rest)
      let members ← Members.add key value members
      match skipSpaces rest with
      | '}' :: rest => pure (members, rest)
      | ',' :: rest => readMembers fuel members rest
      | _ => none
    | _ => none

end

/-- The header of a table, after its bracket. -/
def readHeader (text : List Char) : Option (KeyPath × List Char) := do
  let (path, rest) ← readKey (text.length + 1) text
  match rest with
  | ']' :: rest =>
    let rest ← finishLine rest
    pure (path, rest)
  | _ => none

/-- A key with its value. -/
def readEntry (text : List Char) : Option ((KeyPath × Value) × List Char) := do
  let (key, rest) ← readKey (text.length + 1) text
  match rest with
  | '=' :: rest =>
    let (value, rest) ← readValue (rest.length + 1) (skipSpaces rest)
    let rest ← finishLine rest
    pure ((key, value), rest)
  | _ => none

/-- The lines of a document.  Entries go into the table that a path leads to. -/
def readLines : Nat → KeyPath → Members → List Char → Option Members
  | 0, _, _, _ => none
  | fuel + 1, current, members, text => do
    match ← skipLines (text.length + 1) text with
    | [] => pure members
    | '[' :: '[' :: _ => none
    | '[' :: rest =>
      let (path, rest) ← readHeader rest
      let members ← Members.openTable path members
      readLines fuel path members rest
    | text =>
      let ((key, value), rest) ← readEntry text
      let members ← Members.addWithin current key value members
      readLines fuel current members rest

/-- Reads a document.  A byte order mark at its start does not count. -/
def readDocument (text : List Char) : Option Members :=
  match text with
  | '\uFEFF' :: rest => readLines (rest.length + 1) [] [] rest
  | text => readLines (text.length + 1) [] [] text

end Toml
end ScriptBundler
