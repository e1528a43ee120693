import ScriptBundler.Text.Bytes

/-!
# Paths

A path is text; what it means is its list of components.  Repeated and trailing slashes and inner
dots do not count, so that two texts can be the same path.  Normalizing folds `.` and `..` without
looking at any file.
-/

namespace ScriptBundler
namespace Files

/-- A step of a path. -/
inductive Component where
  | root
  /-- A dot at the start of a relative path. -/
  | current
  | parent
  | name (text : String)
deriving Repr, DecidableEq

/-- The component in text. -/
def Component.text : Component → String
  | root => "/"
  | current => "."
  | parent => ".."
  | name text => text

/-- A path as it is written. -/
structure Path where
  text : String
deriving Repr, DecidableEq, Inhabited

/-- The pieces of a text between its slashes. -/
def pieces (text : List Char) : List (List Char) :=
  text.splitOn '/'

/-- The component that a piece between slashes is, if it counts. -/
def pieceComponent (piece : List Char) : Option Component :=
  match piece with
  | [] | ['.'] => none
  | ['.', '.'] => some .parent
  | piece => some (.name (String.ofList piece))

/-- The components of a text. -/
def componentsOf (text : List Char) : List Component :=
  let steps := (pieces text).filterMap pieceComponent
  match text with
  | '/' :: _ => .root :: steps
  | ['.'] | '.' :: '/' :: _ => .current :: steps
  | _ => steps

namespace Path

/-- The components of a path. -/
def components (path : Path) : List Component :=
  componentsOf path.text.toList

/-- Whether two texts are the same path. -/
def same (left right : Path) : Bool :=
  left.components == right.components

/-- Whether a path starts at the root. -/
def isAbsolute (path : Path) : Bool :=
  path.text.toList.head? == some '/'

/-- The components written as a path. -/
def ofComponents (components : List Component) : Path :=
  match components with
  | .root :: steps => ⟨"/" ++ "/".intercalate (steps.map Component.text)⟩
  | steps => ⟨"/".intercalate (steps.map Component.text)⟩

/-- A path seen from another one.  An absolute path stays as it is. -/
def join (base path : Path) : Path :=
  if path.isAbsolute then path
  else
    match base.text.toList.getLast? with
    | none => path
    | some '/' => ⟨base.text ++ path.text⟩
    | some _ => ⟨base.text ++ "/" ++ path.text⟩

/-- The components of the directory that a path is in; the root and the empty path are in none. -/
def parent? (path : Path) : Option (List Component) :=
  match path.components.getLast? with
  | none | some .root => none
  | some _ => some path.components.dropLast

/-- Pieces in reverse without those at the end that do not count.  The first piece stays. -/
def trimPieces : List (List Char) → List (List Char)
  | piece :: next :: rest =>
    if (pieceComponent piece).isSome then piece :: next :: rest else trimPieces (next :: rest)
  | short => short

/-- The directory that a path is in, as it is written in the path. -/
def directory? (path : Path) : Option Path :=
  match trimPieces (pieces path.text.toList).reverse with
  | [] | [[]] => none
  | [_] => some ⟨""⟩
  | _ :: before =>
    match trimPieces before with
    | [[]] => some ⟨"/"⟩
    | kept => some ⟨String.ofList (['/'].intercalate kept.reverse)⟩

/-- The last component, if it is a name. -/
def fileName? (path : Path) : Option String :=
  match path.components.getLast? with
  | some (.name text) => some text
  | _ => none

/-- The name of a file without its last dot and what follows.  A dot at its start does not
count. -/
def fileStem? (path : Path) : Option String := do
  let name ← path.fileName?
  let text := name.toList
  match (text.reverse.dropWhile (· != '.')).reverse with
  | [] | ['.'] => pure name
  | stem => pure (String.ofList stem.dropLast)

end Path

/-- One step of normalizing: a dot counts for nothing, and `..` takes back the step before it,
whatever that is, except the root. -/
def foldStep (steps : List Component) (next : Component) : List Component :=
  match next with
  | .current => steps
  | .parent =>
    match steps.getLast? with
    | none | some .root => steps ++ [.parent]
    | some _ => steps.dropLast
  | next => steps ++ [next]

/-- The components that remain when dots are folded. -/
def foldDots (components : List Component) : List Component :=
  components.foldl foldStep []

/-- A path with `.` and `..` folded. -/
def Path.normalize (path : Path) : Path :=
  .ofComponents (foldDots path.components)

end Files
end ScriptBundler
