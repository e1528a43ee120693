import ScriptBundler.Graph.Conflicts
import ScriptBundler.Graph.Expansion
import ScriptBundler.Output.CommonJs

/-!
# Bundles

Building a bundle reads the entry module, includes all that it needs, and gives names to what is
included.  A bundle can then be generated any number of times; generating does not change it.

Every step is a computation that writes to a log and may end with a fault.
-/

namespace ScriptBundler

open Files

/-- A computation that writes to a log and may fail.  A fault leaves the log as it is. -/
abbrev Reporting := EStateM Fault (List Log.Entry)

namespace Reporting

/-- Adds entries to the log. -/
def report (entries : List Log.Entry) : Reporting Unit :=
  modify (· ++ entries)

/-- Gives the value of a result. -/
def ofExcept {α : Type} (result : Except Fault α) : Reporting α :=
  match result with
  | .ok value => pure value
  | .error fault => throw fault

/-- The outcome of a request to a graph. -/
def ofOutcome {α : Type} (outcome : Outcome α) : Reporting (Graph × α) := do
  report outcome.log
  let value ← ofExcept outcome.result
  pure (outcome.graph, value)

end Reporting

/-- A graph with everything that its entry module needs. -/
structure Bundle where
  entryPath : Path
  graph : Graph
  naming : Naming
  /-- The number of the entry module. -/
  entry : Nat
  statements : List Address

/-- The directory that relative paths start from. -/
def Files.Disk.workingPath (disk : Disk) : Path :=
  .ofComponents (.root :: disk.workingDirectory.map .name)

/-- The components of a path, with `.js` at the end of a file name without an extension. -/
def Files.Path.withDefaultExtension (path : Path) : List Component :=
  match path.fileName?, path.fileStem? with
  | some name, some stem =>
    if name == stem then path.components.dropLast ++ [.name (name ++ ".js")] else path.components
  | _, _ => path.components

namespace Bundle

/-- The path of the entry module. -/
def entryPathOf (disk : Disk) (entry : Path) : Path :=
  .ofComponents (foldDots (disk.workingPath.join entry).withDefaultExtension)

/-- Builds the bundle of an entry module. -/
def build (disk : Disk) (entry : Path) : Reporting Bundle := do
  let path := entryPathOf disk entry
  Reporting.report [⟨.info, .bundle, s!"Bundling {path.text}"⟩]
  let (loaded, id) ← Reporting.ofOutcome (Graph.empty.run (Build.load disk path))
  let (graph, statements) ← Reporting.ofOutcome (loaded.expandAll disk id true)
  let (named, entries) := NamedGraph.deconflict ⟨graph, .empty⟩ statements
  let sources := s!"{graph.modules.length} modules and {graph.externals.length} external modules"
  Reporting.report (entries ++ [⟨.info, .bundle,
    s!"Included {statements.length} statements from {sources}"⟩])
  pure { entryPath := path, graph := named.graph, naming := named.naming, entry := id, statements }

/-- The names that the entry module exports. -/
def exportNames (bundle : Bundle) : List String :=
  match bundle.graph.module? bundle.entry with
  | some module => module.exports.map (·.1)
  | none => []

/-- The export mode that is used when some mode is asked for. -/
def exportMode (bundle : Bundle) (requested : ExportMode) : Reporting ExportMode := do
  let names := bundle.exportNames
  match requested.resolve names with
  | .error refused => throw (.refusedMode refused)
  | .ok mode =>
    Reporting.report [⟨.debug, .bundle,
      s!"Export mode {requested.text} resolved to {mode.text} for exports {Log.bracketed names}"⟩]
    pure mode

/-- The text of a bundle in an export mode. -/
def assemble (bundle : Bundle) (mode : ExportMode) : Assembly (List Char) := do
  let body ← Assembly.body bundle.graph bundle.statements
  let whole ← Assembly.commonJs bundle.graph bundle.entry mode body
  pure whole.render

/-- Generates the text of a bundle. -/
def generate (bundle : Bundle) (requested : ExportMode) : Reporting (List Char) := do
  let mode ← bundle.exportMode requested
  match EStateM.run (bundle.assemble mode) ⟨bundle.naming, []⟩ with
  | .ok code draft =>
    Reporting.report draft.log
    pure code
  | .error fault draft =>
    Reporting.report draft.log
    throw fault

/-- Makes the directory that a file goes into. -/
def prepareDirectory (disk : Disk) (destination : Path) : Except Fault Disk :=
  match destination.directory? with
  | none => .ok disk
  | some directory =>
    if directory.text.isEmpty then .ok disk
    else
      match disk.makeDirectories directory.components.reverse with
      | .ok disk => .ok disk
      | .error cause => .error (.directoryNotMade directory cause)

/-- Generates the text of a bundle and writes it to a file, whose directory is made if need be. -/
def write (bundle : Bundle) (disk : Disk) (destination : Path) (requested : ExportMode) :
    Reporting Disk := do
  let code ← bundle.generate requested
  let disk ← Reporting.ofExcept (prepareDirectory disk destination)
  match disk.write destination code with
  | .error cause => throw (.bundleNotWritten destination cause)
  | .ok disk =>
    Reporting.report [⟨.info, .bundle, s!"Wrote bundle to {destination.text}"⟩]
    pure disk

end Bundle

end ScriptBundler
