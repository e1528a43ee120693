import ScriptBundler.Graph.Basic

/-!
# Expansion

Which statements a bundle holds.  A statement that is included needs every name that it depends
on, and brings with it the statements that may modify a name that it defines.  A name of a module
needs the statement that defines it; an imported name needs what it means in the module that
exports it.  A module that is imported as a whole needs all its statements.

Statements are included in depth first: what a statement needs comes before it, what may modify it
comes after it, and nothing is included twice.
-/

namespace ScriptBundler

open Files ScriptBundler.Module Script

/-- What must be included for a name to have a meaning. -/
inductive Need where
  | nothing
  | statement (address : Address)
  | name (module : Nat) (name : String)
  /-- All statements of a module. -/
  | everything (module : Nat)
deriving Repr, DecidableEq

/-- What a module that is needed as a whole does with one of its statements. -/
inductive Role where
  /-- The statement is included only if something else needs it. -/
  | onDemand
  /-- The statement lists exported names, each of which is needed. -/
  | listing (locals : List String)
  | included
deriving Repr, DecidableEq

/-- The name within the module that an export specifier lists. -/
def ExportSpecifier.listed : ExportSpecifier → String
  | .named name _ => name.text
  | .everything exported => exported.text

/-- The role of a statement.  Export lists count only in the entry module. -/
def roleOf (isEntry : Bool) : ItemForm → Role
  | .importDecl _ _ => .onDemand
  | .exportList [] _ => .included
  | .exportList specifiers _ =>
    if isEntry then .listing (specifiers.map ExportSpecifier.listed) else .onDemand
  | _ => .included

namespace Module

/-- The statement or name that stands behind a name of a module that is not imported. -/
def ownNeed (module : Module) (id : Nat) (name : String) : Need :=
  if name == "default" then
    match module.exports.get? "default" with
    | none => .nothing
    | some entry =>
      if entry.isDeclaration then .name id entry.localName
      else
        match entry.statement with
        | some index => .statement ⟨id, index⟩
        | none => .nothing
  else
    match module.definitions.get? name with
    | some index => .statement ⟨id, index⟩
    | none => .nothing

/-- The statements that may modify a name. -/
def modifiersOf (module : Module) (name : String) : List Nat :=
  (module.modifications.get? name).getD []

/-- A bound on how often expansion can go deeper within a module. -/
def weight (module : Module) : Nat :=
  let listed (statement : Statement) : Nat :=
    match roleOf true statement.form with
    | .listing locals => locals.length
    | _ => 0
  let names := module.statements.map fun statement => statement.dependsOn.length + listed statement
  module.statements.length + total names + module.imports.length + 2 * module.exports.length + 2

end Module

namespace Graph

/-- How deep expansion goes at most.  A file can be reached under the path that normalizing gives
and under absolute specifiers; `paths` counts these, and has room for paths that climb. -/
def budget (disk : Disk) (graph : Graph) : Nat :=
  let sources := disk.files.filterMap fun file =>
    match file.2 with
    | .text chars => (Module.ofSource ⟨""⟩ chars).toOption
    | .binary => none
  let specifiers := total (sources.map (·.imports.length))
  let known := total (graph.modules.map Module.weight)
  let unknown := total (sources.map Module.weight)
  let paths := (specifiers + graph.modules.length + 4) * (disk.workingDirectory.length + 4)
  2 * (known + paths * unknown) + 4

end Graph

namespace Build

/-- What an imported name needs.  The import is followed: the module it leads to is read, and gets
suggestions for its names. -/
def importNeed (disk : Disk) (id : Nat) (importer : Module) (localName : String)
    (entry : Import) : Build Need := do
  let target ← fetch disk entry.source importer.path
  change (·.updateModule id (·.link localName target))
  let suggestion := (importer.suggestedNames.get? localName).getD localName
  if entry.isDefault then
    change (·.suggest target "default" suggestion)
  if entry.isNamespace then
    change fun graph =>
      (graph.suggest target "*" suggestion).suggest target "default" (suggestion ++ "__default")
  match target with
  | .external external =>
    change (·.updateExternal external (·.request entry.name))
    pure .nothing
  | .internal exporterId =>
    match (← get).graph.module? exporterId with
    | none => pure .nothing
    | some exporter =>
      if entry.isNamespace then
        report [⟨.debug, .expansion,
          s!"{exporter.path.text} is imported as a namespace by {importer.path.text}"⟩]
        change (·.addNamespace exporterId)
        pure (.everything exporterId)
      else
        match exporter.exports.get? entry.name with
        | some exported => pure (.name exporterId exported.localName)
        | none => throw (.missingExport exporter.path entry.name importer.path)

/-- What a name of a module needs. -/
def need (disk : Disk) (id : Nat) (module : Module) (name : String) : Build Need :=
  match module.imports.get? name with
  | some entry => importNeed disk id module name entry
  | none => do
    match module.ownNeed id name with
    | .nothing =>
      report [⟨.trace, .expansion,
        s!"'{name}' has no definition in {module.path.text}, treating it as a global"⟩]
      pure .nothing
    | other => pure other

/-- Marks a statement as included. -/
def mark (address : Address) : Build Unit :=
  change (·.updateModule address.module (·.includeStatement address.index))

/-- Whether a statement is included. -/
def isIncluded (address : Address) : Build Bool := do
  match (← get).graph.statement? address with
  | some statement => pure statement.included
  | none => pure true

mutual

/-- Includes all statements of a module in source order. -/
def expandAll (disk : Disk) : Nat → Nat → Bool → Build Unit
  | 0, _, _ => throw .endlessProject
  | budget + 1, id, isEntry => do
    match (← get).graph.module? id with
    | none => pure ()
    | some module =>
      module.statements.forM fun statement => do
        let address : Address := ⟨id, statement.index⟩
        if !(← isIncluded address) then
          match roleOf isEntry statement.form with
          | .onDemand => pure ()
          | .listing locals =>
            mark address
            locals.forM (define disk budget id)
          | .included => expandStatement disk budget address

/-- Includes a statement with what it needs and what may modify it. -/
def expandStatement (disk : Disk) : Nat → Address → Build Unit
  | 0, _ => throw .endlessProject
  | budget + 1, address => do
    match (← get).graph.statement? address with
    | none => pure ()
    | some statement =>
      if !statement.included then
        mark address
        statement.dependsOn.forM (define disk budget address.module)
        emit address
        statement.defines.forM fun name => do
          match (← get).graph.module? address.module with
          | none => pure ()
          | some module =>
            (module.modifiersOf name).forM fun index => do
              let modifier : Address := ⟨address.module, index⟩
              if !(← isIncluded modifier) then
                report [⟨.trace, .expansion,
                  s!"Including statement {index} because it modifies '{name}'"⟩]
                expandStatement disk budget modifier

/-- Includes what a name of a module needs.  Every name is looked after once. -/
def define (disk : Disk) : Nat → Nat → String → Build Unit
  | 0, _, _ => throw .endlessProject
  | budget + 1, id, name => do
    match (← get).graph.module? id with
    | none => pure ()
    | some module =>
      if !module.requested.contains name then
        change (·.updateModule id (·.request name))
        match ← need disk id module name with
        | .nothing => pure ()
        | .statement address => expandStatement disk budget address
        | .name exporter exported => define disk budget exporter exported
        | .everything exporter => expandAll disk budget exporter false

end

/-- The statements that a computation puts into the bundle. -/
def emitted (request : Build Unit) : Build (List Address) := do
  request
  pure (← get).emitted

end Build

/-- The outcome of a request to a graph. -/
structure Outcome (α : Type) where
  /-- The graph afterwards, also after a fault. -/
  graph : Graph
  log : List Log.Entry
  result : Except Fault α

namespace Graph

/-- Runs a request. -/
def run {α : Type} (graph : Graph) (request : Build α) : Outcome α :=
  match EStateM.run request { graph, emitted := [], log := [] } with
  | .ok value progress => ⟨progress.graph, progress.log, .ok value⟩
  | .error fault progress => ⟨progress.graph, progress.log, .error fault⟩

/-- Includes all statements of a module, and gives those that are new. -/
def expandAll (disk : Disk) (graph : Graph) (id : Nat) (isEntry : Bool) :
    Outcome (List Address) :=
  graph.run (Build.expandAll disk (graph.budget disk) id isEntry).emitted

/-- Includes a statement, and gives the statements that are new. -/
def expandStatement (disk : Disk) (graph : Graph) (address : Address) : Outcome (List Address) :=
  graph.run (Build.expandStatement disk (graph.budget disk) address).emitted

/-- Includes what a name of a module needs, and gives the statements that are new. -/
def define (disk : Disk) (graph : Graph) (id : Nat) (name : String) : Outcome (List Address) :=
  graph.run (Build.define disk (graph.budget disk) id name).emitted

end Graph

end ScriptBundler
