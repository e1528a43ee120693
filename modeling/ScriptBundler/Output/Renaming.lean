import ScriptBundler.Module.Statement

/-!
# Renaming in the text of a statement

The references of a statement to top-level names are replaced by the canonical names.  A walk over
the statement keeps a stack of frames, one for each open scope and one for the statement itself: a
frame holds the replacements of names that no open scope declares.  A name that is both key and
name keeps its key.
-/

namespace ScriptBundler

open Script ScriptBundler.Module

/-- The canonical names that take the place of names. -/
abbrev Replacements := Table String

/-- The state of a walk that renames. -/
structure Renaming where
  /-- The replacements within each open scope, the innermost scope first. -/
  frames : List Replacements
  snippet : Text.Snippet
  refused : Option Text.RefusedEdit

namespace Renaming

/-- The replacements in the innermost open scope. -/
def current (state : Renaming) : Replacements :=
  state.frames.head?.getD []

/-- Replaces a name, if it has a replacement here. -/
def replace (state : Renaming) (id : Ident) (isShorthand : Bool) : Control × Renaming :=
  match state.current.get? id.name with
  | none => (.proceed, state)
  | some canonical =>
    let content := if isShorthand then id.name ++ ": " ++ canonical else canonical
    match state.snippet.overwrite id.span.start id.span.stop content.toList with
    | .ok snippet => (.proceed, { state with snippet })
    | .error refused => (.abort, { state with refused := some refused })

/-- The replacements that are left within a scope. -/
def within (replacements : Replacements) (tree : ScopeTree) (scope : Option ScopeId) :
    Replacements :=
  match scope with
  | some id => replacements.filter fun entry => !tree.declares id entry.1
  | none => replacements

/-- Opens the scope of a node. -/
def openScope (state : Renaming) (tree : ScopeTree) (scope : Option ScopeId) :
    Control × Renaming :=
  let frame := within state.current tree scope
  (if frame.isEmpty then .skip else .proceed, { state with frames := frame :: state.frames })

end Renaming

/-- The walk that renames.  It passes over scopes in which nothing is left to replace. -/
def renamer (tree : ScopeTree) (scopes : OpenedScopes) : Visitor Renaming where
  enter shape state :=
    match shape with
    | .ident id => state.replace id false
    | .shorthand id => state.replace id true
    | shape =>
      match shape.scopeKey? with
      | some key => state.openScope tree (scopes.lookup key)
      | none => (.proceed, state)
  leave shape state :=
    match shape.scopeKey? with
    | some _ => { state with frames := state.frames.tail }
    | none => state

/-- A statement's text with replacements put in. -/
def renameWithin (tree : ScopeTree) (statement : Statement) (replacements : Replacements)
    (snippet : Text.Snippet) : Except Text.RefusedEdit Text.Snippet :=
  if replacements.isEmpty then .ok snippet
  else
    let final := (renamer tree statement.scopes).run statement.outline
      { frames := [replacements], snippet, refused := none }
    match final.refused with
    | some refused => .error refused
    | none => .ok final.snippet

end ScriptBundler
