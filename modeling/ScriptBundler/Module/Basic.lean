import ScriptBundler.Module.Bindings
import ScriptBundler.Module.Statement
import ScriptBundler.Script.Parser.Module
import ScriptBundler.Text.MadeName
import ScriptBundler.Files.Path

/-!
# Modules

A parsed and analysed source file: its statements, its imports and exports, where its top-level
names are defined and changed, and what its importers have asked for.
-/

namespace ScriptBundler

open Script Text Files

/-- A module of the project. -/
structure Module where
  path : Path
  source : List Char
  imports : Table Module.Import
  exports : Table Module.Export
  statements : List Module.Statement
  scopes : ScopeTree
  /-- For each top-level name the last statement that defines it. -/
  definitions : Table Nat
  /-- For each top-level name the statements that may modify it, in source order. -/
  modifications : Table (List Nat)
  /-- Names that importers suggest for the default export and for the whole module. -/
  suggestedNames : Table String
  /-- Names that have been asked for, whether they have been found or are being looked for. -/
  requested : List String

namespace Module

/-- Where names are defined: a later statement takes the place of an earlier one. -/
def definitionTable (statements : List Statement) : Table Nat :=
  statements.foldl
    (fun table statement =>
      statement.defines.foldl (fun table name => table.set name statement.index) table) []

/-- Which statements may modify names. -/
def modificationTable (statements : List Statement) : Table (List Nat) :=
  statements.foldl
    (fun table statement =>
      statement.modifies.foldl
        (fun table name => table.set name ((table.get? name).getD [] ++ [statement.index])) table)
    []

/-- The module with a path and a syntax tree. -/
def ofTree (path : Path) (source : List Char) (tree : Tree) : Module :=
  let (statements, scopes) := analyse source tree
  let forms := tree.items.map (·.form)
  { path, source, imports := importTable forms, exports := exportTable forms, statements, scopes
    definitions := definitionTable statements
    modifications := modificationTable statements
    suggestedNames := [], requested := [] }

/-- Parses and analyses a source file. -/
def ofSource (path : Path) (source : List Char) : Except SyntaxError Module := do
  let tree ← parse source
  pure (ofTree path source tree)

/-- What the log tells about a module that has been read. -/
def report (module : Module) : List Log.Entry :=
  let statements := s!"{module.statements.length} statements"
  let imports := s!"{module.imports.length} imports"
  let exports := s!"{module.exports.length} exports"
  module.statements.map Statement.report ++
    [⟨.debug, .module,
      s!"Analysed {module.path.text}: {statements}, {imports}, {exports}"⟩]

/-- The statement at a position. -/
def statement? (module : Module) (index : Nat) : Option Statement :=
  module.statements[index]?

/-- Suggests a name for the default export or the whole module.  The first suggestion counts. -/
def suggest (module : Module) (exported suggestion : String) : Module :=
  { module with suggestedNames := module.suggestedNames.setNew exported suggestion }

/-- The statement that is a default export without a name, and not just of a name. -/
def anonymousDefault? (module : Module) : Option Nat := do
  let entry ← module.exports.get? "default"
  if entry.localName == "default" && entry.identifier.isNone then entry.statement else none

/-- The name for a default export without one: what the first importer suggests, or one made from
the name of the file. -/
def anonymousDefaultName (module : Module) : String :=
  match module.suggestedNames.get? "default" with
  | some suggestion => suggestion
  | none => madeName (module.path.fileStem?.getD "")

/-- Notes that a name has been asked for. -/
def request (module : Module) (name : String) : Module :=
  { module with requested := module.requested ++ [name] }

/-- Notes where an import leads. -/
def link (module : Module) (localName : String) (target : Target) : Module :=
  match module.imports.get? localName with
  | some entry =>
    { module with imports := module.imports.set localName { entry with target := some target } }
  | none => module

/-- Marks a statement as held by the bundle. -/
def includeStatement (module : Module) (index : Nat) : Module :=
  { module with
    statements := module.statements.modify index fun statement =>
      { statement with included := true } }

end Module

end ScriptBundler
