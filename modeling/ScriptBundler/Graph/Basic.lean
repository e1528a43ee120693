import ScriptBundler.External
import ScriptBundler.Fault
import ScriptBundler.Files.Resolver
import ScriptBundler.Module.Basic

/-!
# The module graph

The modules and external modules that have been reached from the entry, in the order of their
discovery.  A module is read once for each path, and an external module is registered once for each
specifier.

Building a graph is a computation with a `Progress`: the graph so far, the statements that go into
the bundle, and the log.  A fault ends the computation and leaves the progress made so far.
-/

namespace ScriptBundler

open Files ScriptBundler.Module

/-- The sum of some counts. -/
def total : List Nat → Nat
  | [] => 0
  | count :: rest => count + total rest

/-- A top-level statement, by its module and its position there. -/
structure Address where
  module : Nat
  index : Nat
deriving Repr, DecidableEq

/-- Modules and external modules, by their numbers. -/
structure Graph where
  modules : List Module
  externals : List External
  /-- The numbers of the modules, by their paths. -/
  paths : List (Path × Nat)
  /-- The numbers of the external modules, by their specifiers. -/
  specifiers : Table Nat
  /-- The modules that are imported as a whole, in the order in which this was found out. -/
  namespaces : List Nat
  resolver : Resolver

namespace Graph

/-- The graph without modules. -/
def empty : Graph :=
  ⟨[], [], [], [], [], .empty⟩

/-- The module with a number. -/
def module? (graph : Graph) (id : Nat) : Option Module :=
  graph.modules[id]?

/-- The external module with a number. -/
def external? (graph : Graph) (id : Nat) : Option External :=
  graph.externals[id]?

/-- The statement at an address. -/
def statement? (graph : Graph) (address : Address) : Option Statement :=
  (graph.module? address.module).bind (·.statement? address.index)

/-- The number of the module with a path. -/
def idOf? (graph : Graph) (path : Path) : Option Nat :=
  (graph.paths.find? (·.1.same path)).map (·.2)

/-- The number of the external module with a specifier. -/
def externalIdOf? (graph : Graph) (specifier : String) : Option Nat :=
  graph.specifiers.get? specifier

/-- Adds a module, read from a path, under the next number. -/
def addModule (graph : Graph) (path : Path) (module : Module) : Graph :=
  { graph with
    modules := graph.modules ++ [module]
    paths := graph.paths ++ [(path, graph.modules.length)] }

/-- Adds an external module for a specifier, under the next number. -/
def addExternal (graph : Graph) (specifier : String) : Graph :=
  { graph with
    externals := graph.externals ++ [.ofSpecifier specifier]
    specifiers := graph.specifiers.set specifier graph.externals.length }

/-- Changes the module with a number. -/
def updateModule (graph : Graph) (id : Nat) (change : Module → Module) : Graph :=
  { graph with modules := graph.modules.modify id change }

/-- Changes the external module with a number. -/
def updateExternal (graph : Graph) (id : Nat) (change : External → External) : Graph :=
  { graph with externals := graph.externals.modify id change }

/-- Suggests a name to what an import leads to. -/
def suggest (graph : Graph) (target : Target) (exported suggestion : String) : Graph :=
  match target with
  | .internal id => graph.updateModule id (·.suggest exported suggestion)
  | .external id => graph.updateExternal id (·.suggest exported suggestion)

/-- Notes that a module is imported as a whole. -/
def addNamespace (graph : Graph) (id : Nat) : Graph :=
  if graph.namespaces.contains id then graph
  else { graph with namespaces := graph.namespaces ++ [id] }

end Graph

/-- How far building has come. -/
structure Progress where
  graph : Graph
  /-- The statements that go into the bundle, in their order there. -/
  emitted : List Address
  log : List Log.Entry

/-- A computation that builds a graph. -/
abbrev Build := EStateM Fault Progress

namespace Build

/-- Adds entries to the log. -/
def report (entries : List Log.Entry) : Build Unit :=
  modify fun progress => { progress with log := progress.log ++ entries }

/-- Changes the graph. -/
def change (step : Graph → Graph) : Build Unit :=
  modify fun progress => { progress with graph := step progress.graph }

/-- Puts a statement into the bundle, after those that it holds. -/
def emit (address : Address) : Build Unit :=
  modify fun progress => { progress with emitted := progress.emitted ++ [address] }

/-- The number of the module with a path, which is read if it is new. -/
def load (disk : Disk) (path : Path) : Build Nat := do
  let graph := (← get).graph
  match graph.idOf? path with
  | some id => pure id
  | none =>
    report [⟨.debug, .graph, s!"Fetching module {path.text}"⟩]
    match disk.read path with
    | .error cause => throw (.unreadableModule path cause)
    | .ok source =>
      match Module.ofSource path source with
      | .error fault => throw (.syntaxError path (Text.position source fault.offset))
      | .ok module =>
        report module.report
        change fun graph => graph.addModule path module
        pure graph.modules.length

/-- The number of the external module with a specifier, which is registered if it is new. -/
def register (specifier : String) : Build Nat := do
  let graph := (← get).graph
  match graph.externalIdOf? specifier with
  | some id => pure id
  | none =>
    report [⟨.debug, .graph, s!"Registering external module '{specifier}'"⟩]
    change fun graph => graph.addExternal specifier
    pure graph.externals.length

/-- What a specifier leads to, seen from an importer. -/
def fetch (disk : Disk) (specifier : String) (importer : Path) : Build Target := do
  let (resolver, resolution, entries) := (← get).graph.resolver.resolve specifier importer
  change fun graph => { graph with resolver }
  report entries
  match resolution with
  | .file path => Target.internal <$> load disk path
  | .external => Target.external <$> register specifier

end Build

end ScriptBundler
