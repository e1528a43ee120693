/-!
# TOML values

The values that a TOML document is made of, as far as settings need them: texts, lists and tables.
A table remembers how it came into being, since that decides what may be added to it later.
-/

namespace ScriptBundler
namespace Toml

/-- How a table came into being. -/
inductive TableOrigin where
  /-- A header names a table within it. -/
  | implied
  /-- A header names it. -/
  | headed
  /-- It is on the way of a dotted key. -/
  | dotted
  /-- It is written in braces, and complete. -/
  | braced
deriving Repr, DecidableEq

/-- A value. -/
inductive Value where
  | text (chars : String)
  | list (items : List Value)
  | table (origin : TableOrigin) (members : List (String × Value))

/-- The members of a table, in the order in which they are written. -/
abbrev Members := List (String × Value)

/-- The names from one table to a member of a table in it. -/
abbrev KeyPath := List String

namespace Members

/-- Puts a value in place of the value of a key. -/
def replace (members : Members) (key : String) (value : Value) : Members :=
  members.map fun member => if member.1 == key then (key, value) else member

/-- Adds a value under a dotted key.  No value takes the place of another one, and tables that have
a header of their own are not extended. -/
def add : KeyPath → Value → Members → Option Members
  | [], _, _ => none
  | [key], value, members =>
    match members.lookup key with
    | none => some (members ++ [(key, value)])
    | some _ => none
  | key :: path, value, members =>
    match members.lookup key with
    | none => do
      let inner ← add path value []
      pure (members ++ [(key, .table .dotted inner)])
    | some (.table .dotted inner) => do
      let inner ← add path value inner
      pure (replace members key (.table .dotted inner))
    | some (.table .implied inner) => do
      let inner ← add path value inner
      pure (replace members key (.table .implied inner))
    | some _ => none

/-- Makes the table of a header.  No table has two headers. -/
def openTable : KeyPath → Members → Option Members
  | [], _ => none
  | [key], members =>
    match members.lookup key with
    | none => some (members ++ [(key, .table .headed [])])
    | some (.table .implied inner) => some (replace members key (.table .headed inner))
    | some _ => none
  | key :: path, members =>
    match members.lookup key with
    | none => do
      let inner ← openTable path []
      pure (members ++ [(key, .table .implied inner)])
    | some (.table .braced _) => none
    | some (.table origin inner) => do
      let inner ← openTable path inner
      pure (replace members key (.table origin inner))
    | some _ => none

/-- Adds a value under a dotted key to the table that a path leads to. -/
def addWithin : KeyPath → KeyPath → Value → Members → Option Members
  | [], key, value, members => add key value members
  | name :: path, key, value, members =>
    match members.lookup name with
    | some (.table origin inner) => do
      let inner ← addWithin path key value inner
      pure (replace members name (.table origin inner))
    | _ => none

end Members

end Toml
end ScriptBundler
