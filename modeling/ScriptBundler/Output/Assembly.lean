import ScriptBundler.Graph.Naming
import ScriptBundler.Output.Renaming
import ScriptBundler.Text.Composition

/-!
# Assembling the body of a bundle

The statements that a bundle holds are joined into one text, in their order.  Each of them loses
its export syntax and has its references renamed; between two of them are as many line breaks as
the sources had around them.  Objects for the modules that are imported as a whole come first.

Assembling is a computation with a `Draft`: the names settled so far, and the log.
-/

namespace ScriptBundler

open Script ScriptBundler.Module Text

/-- The state of assembling. -/
structure Draft where
  naming : Naming
  log : List Log.Entry

/-- A computation that assembles text. -/
abbrev Assembly := EStateM Fault Draft

namespace Assembly

/-- Adds an entry to the log. -/
def report (entry : Log.Entry) : Assembly Unit :=
  modify fun draft => { draft with log := draft.log ++ [entry] }

/-- The canonical name of a name of a module. -/
def canonicalName (graph : Graph) (id : Nat) (name : String) : Assembly String :=
  modifyGet fun draft =>
    let (canonical, naming) := draft.naming.canonicalName graph id name
    (canonical, { draft with naming })

/-- The outcome of an edit. -/
def edited (outcome : Except RefusedEdit Snippet) : Assembly Snippet :=
  match outcome with
  | .ok snippet => pure snippet
  | .error refused => throw (.refusedEdit refused)

/-- Puts the declaration of a variable in place of what stands before a value. -/
def declareValue (snippet : Snippet) (span : Span) (valueStart : Nat) (canonical : String) :
    Assembly (Option Snippet) :=
  some <$> edited (snippet.overwrite span.start valueStart s!"var {canonical} = ".toList)

/-- The text of an exported declaration without `export` before it. -/
def withoutKeyword (snippet : Snippet) (span : Span) (declarationStart : Nat) :
    Assembly (Option Snippet) :=
  some <$> edited (snippet.remove span.start declarationStart)

/-- A default export of a declaration, without a name or with one. -/
def stripDefault (graph : Graph) (id : Nat) (name : Option Ident) (snippet : Snippet) (span : Span)
    (declarationStart : Nat) : Assembly (Option Snippet) := do
  match name with
  | some _ => withoutKeyword snippet span declarationStart
  | none => declareValue snippet span declarationStart (← canonicalName graph id "default")

/-- The text of a statement without export syntax.  Imports and export lists have none, and
neither has a default export that is only another mention of its name. -/
def stripExport (graph : Graph) (id : Nat) (module : Module) (statement : Statement) :
    Assembly (Option Snippet) := do
  let snippet := statement.snippet
  let span := statement.span
  match statement.form with
  | .statement _ => pure (some snippet)
  | .importDecl _ _ | .exportList _ _ => pure none
  | .exportDecl declaration => withoutKeyword snippet span declaration.span.start
  | .exportDefaultFunction name body => stripDefault graph id name snippet span body.span.start
  | .exportDefaultClass name _ _ extent => stripDefault graph id name snippet span extent.start
  | .exportDefaultExpr value =>
    let canonical ← canonicalName graph id "default"
    match value with
    | .ident name =>
      if (← canonicalName graph id name.name) == canonical then pure none
      else declareValue snippet span value.span.start canonical
    | value => declareValue snippet span value.span.start canonical
  | .exportAll _ => throw (.exportEverything module.path)

/-- The names among some names that have another form in the bundle, with that form. -/
def replacements (graph : Graph) (id : Nat) : List String → Assembly Replacements
  | [] => pure []
  | name :: rest => do
    let canonical ← canonicalName graph id name
    let others ← replacements graph id rest
    pure (if canonical == name then others else (name, canonical) :: others)

/-- The text of a statement in the bundle, if it has any. -/
def renderStatement (graph : Graph) (id : Nat) (module : Module) (statement : Statement) :
    Assembly (Option Snippet) := do
  match ← stripExport graph id module statement with
  | none => pure none
  | some snippet =>
    let table ← replacements graph id (statement.dependsOn ++ statement.defines)
    let renamed ← edited (renameWithin module.scopes statement table snippet)
    pure (some renamed.trim)

/-- The line breaks between a statement and the one before it, at least one. -/
def separator (before after : Nat) : List Char :=
  List.replicate (max (max before after) 2 - 1) '\n'

/-- The texts of statements, joined to those before them.  `margin` is the one after the last
statement so far. -/
def joinStatements (graph : Graph) :
    List Address → Nat → Composition → Assembly Composition
  | [], _, composition => pure composition
  | address :: rest, margin, composition => do
    match graph.module? address.module, graph.statement? address with
    | some module, some statement =>
      match ← renderStatement graph address.module module statement with
      | none =>
        report ⟨.trace, .assembly,
          s!"Dropping redundant statement {address.index} of module ModuleId({address.module})"⟩
        joinStatements graph rest margin composition
      | some snippet =>
        let breaks := separator statement.marginBefore margin
        joinStatements graph rest statement.marginAfter (composition.add snippet breaks)
    | _, _ => joinStatements graph rest margin composition

/-- The accessors of the object for a module: one for each of its exports. -/
def getters (graph : Graph) (id : Nat) (indent : String) :
    Table Export → Assembly (List String)
  | [] => pure []
  | (key, entry) :: rest => do
    let canonical ← canonicalName graph id entry.localName
    let others ← getters graph id indent rest
    pure (s!"{indent}get {key} () \x7b return {canonical} \x7d" :: others)

/-- The objects for modules that are imported as a whole. -/
def namespaceObjects (graph : Graph) (indent : String) : List Nat → Assembly String
  | [] => pure ""
  | id :: rest =>
    match graph.module? id with
    | none => namespaceObjects graph indent rest
    | some module => do
      let name ← canonicalName graph id "*"
      report ⟨.debug, .assembly, s!"Emitting namespace object '{name}' for {module.path.text}"⟩
      let lines ← getters graph id indent module.exports
      let others ← namespaceObjects graph indent rest
      let members := ",\n".intercalate lines
      pure (s!"var {name} = \x7b\n{members}\n\x7d\n\n" ++ others)

/-- The body of a bundle. -/
def body (graph : Graph) (statements : List Address) : Assembly Composition := do
  let composition ← joinStatements graph statements 0 .empty
  let objects ← namespaceObjects graph (String.ofList composition.indent) graph.namespaces
  pure (composition.prepend objects.toList).trim

end Assembly

end ScriptBundler
