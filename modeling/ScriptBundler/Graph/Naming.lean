import ScriptBundler.Graph.Basic

/-!
# Names in the bundle

Each name of a module stands for one text in the bundle, its canonical name.  An imported name has
the canonical name of what it means in the module that exports it; a default export has that of the
name behind it, or a made-up one; every other name stands for itself, unless it has been renamed.

Canonical names are settled when they are first asked for.  What is suggested later does not change
a settled name; renaming does.
-/

namespace ScriptBundler

open ScriptBundler.Module

/-- What a name of a module means. -/
inductive Meaning where
  /-- The name is bound here, and this is the text for it. -/
  | here (text : String)
  /-- The name means the same as a name of some module. -/
  | elsewhere (module : Nat) (name : String)
deriving Repr, DecidableEq

namespace Graph

/-- The meaning of an imported name. -/
def importMeaning (graph : Graph) (name : String) (entry : Import) : Meaning :=
  match entry.target with
  | none => .here name
  | some (.external id) =>
    match graph.external? id with
    | some external => .here (external.canonicalName entry.name)
    | none => .here name
  | some (.internal id) =>
    if entry.isNamespace then .elsewhere id "*"
    else
      match (graph.module? id).bind (·.exports.get? entry.name) with
      | some exported => .elsewhere id exported.localName
      | none => .here name

/-- The meaning of the default export of a module. -/
def defaultMeaning (id : Nat) (module : Module) : Meaning :=
  match module.exports.get? "default" with
  | none => .here module.anonymousDefaultName
  | some entry =>
    match entry.identifier with
    | some name => .elsewhere id name
    | none =>
      if entry.localName == "default" then .here module.anonymousDefaultName
      else .elsewhere id entry.localName

/-- The meaning of a name of a module.  The name `*` stands for the module as a whole. -/
def meaning (graph : Graph) (id : Nat) (name : String) : Meaning :=
  match graph.module? id with
  | none => .here name
  | some module =>
    if name == "*" then .here ((module.suggestedNames.get? "*").getD "*")
    else
      match module.imports.get? name with
      | some entry => graph.importMeaning name entry
      | none => if name == "default" then defaultMeaning id module else .here name

/-- A bound on the length of chains of meanings that do not run in circles. -/
def chainBound (graph : Graph) : Nat :=
  total (graph.modules.map fun module => module.imports.length + 2) + 2

end Graph

/-- The canonical names that have been settled, by module and name. -/
structure Naming where
  settled : List ((Nat × String) × String)
deriving Repr, DecidableEq

namespace Naming

/-- No name is settled. -/
def empty : Naming :=
  ⟨[]⟩

/-- The settled canonical name of a name. -/
def get? (naming : Naming) (id : Nat) (name : String) : Option String :=
  naming.settled.lookup (id, name)

/-- Settles the canonical name of a name, or changes it. -/
def settle (naming : Naming) (id : Nat) (name canonical : String) : Naming :=
  ⟨((id, name), canonical) :: naming.settled⟩

/-- The canonical name of a name, after at most so many steps from one meaning to the next.  The
names on the way are settled as well. -/
def follow (graph : Graph) : Nat → Nat → String → Naming → String × Naming
  | 0, _, name, naming => (name, naming)
  | steps + 1, id, name, naming =>
    match naming.get? id name with
    | some canonical => (canonical, naming)
    | none =>
      let (canonical, naming) :=
        match graph.meaning id name with
        | .here text => (text, naming)
        | .elsewhere other exported => follow graph steps other exported naming
      (canonical, naming.settle id name canonical)

/-- The canonical name of a name of a module. -/
def canonicalName (naming : Naming) (graph : Graph) (id : Nat) (name : String) :
    String × Naming :=
  follow graph graph.chainBound id name naming

/-- The log entry for a renaming. -/
def renameEntry (graph : Graph) (id : Nat) (name replacement : String) : List Log.Entry :=
  match graph.module? id with
  | some module =>
    [⟨.debug, .module, s!"Renaming '{name}' to '{replacement}' in {module.path.text}"⟩]
  | none => []

end Naming

end ScriptBundler
