import ScriptBundler.Graph.Naming

/-!
# Name conflicts

All modules share the top level of the bundle.  Each name there is claimed by its owners, in the
order in which they are discovered.  The last owner of a name keeps it; every other one gets the
name with as many `_` in front as make it free.
-/

namespace ScriptBundler

open ScriptBundler.Module

/-- What claims a name at the top level of the bundle. -/
inductive Owner where
  /-- A module that declares the name. -/
  | module (id : Nat)
  /-- The default export of a module, which has no name of its own. -/
  | anonymousDefault (id : Nat)
  /-- The object for a module that is imported as a whole. -/
  | namespaceObject (id : Nat)
  | external (id : Nat)
deriving Repr, DecidableEq

/-- A name with an owner that claims it. -/
structure Claim where
  name : String
  owner : Owner
deriving Repr, DecidableEq

/-- A name with several owners. -/
structure Conflict where
  name : String
  /-- The owner that keeps the name. -/
  keeper : Owner
  /-- The other owners, with the names that they get instead. -/
  renamed : List (Owner × String)
deriving Repr, DecidableEq

/-- A name with some `_` in front. -/
def underscored (count : Nat) (name : String) : String :=
  String.ofList (List.replicate count '_' ++ name.toList)

/-- A name without the `_` in front. -/
def bareName (name : String) : List Char :=
  name.toList.dropWhile (· == '_')

/-- The names that a name with some `_` in front can be. -/
def rivalsOf (name : String) (taken : List String) : List String :=
  let bare := bareName name
  taken.filter fun other => bareName other == bare

/-- The name with the fewest `_` in front, at least one, that is not taken. -/
def freshName (taken : List String) (name : String) : String :=
  let candidates := (List.range (taken.length + 1)).map fun count => underscored (count + 1) name
  (candidates.find? fun candidate => !taken.contains candidate).getD name

namespace Conflict

/-- The owners of each name, both in the order of the claims. -/
def owners (claims : List Claim) : Table (List Owner) :=
  claims.foldl
    (fun table claim =>
      let known := (table.get? claim.name).getD []
      if known.contains claim.owner then table
      else table.set claim.name (known ++ [claim.owner]))
    []

/-- New names for owners of a name, none of which is taken before. -/
def replace (name : String) : List Owner → List String → List (Owner × String)
  | [], _ => []
  | owner :: rest, taken =>
    let replacement := freshName taken name
    (owner, replacement) :: replace name rest (taken ++ [replacement])

/-- The conflicts among owners, resolved one after the other.  Of the names that are taken, only
those count that differ from the name in `_` at most. -/
def resolve : Table (List Owner) → List String → List Conflict
  | [], _ => []
  | (name, owners) :: rest, taken =>
    match owners.getLast?, owners.dropLast with
    | some keeper, first :: others =>
      let renamed := replace name (first :: others) (rivalsOf name taken)
      ⟨name, keeper, renamed⟩ :: resolve rest (taken ++ renamed.map (·.2))
    | _, _ => resolve rest taken

/-- The conflicts among claims. -/
def ofClaims (claims : List Claim) : List Conflict :=
  let table := owners claims
  resolve table (table.map (·.1))

end Conflict

namespace Graph

/-- The claims of the objects for modules that are imported as a whole. -/
def namespaceClaims (graph : Graph) : List Nat → Naming → List Claim × Naming
  | [], naming => ([], naming)
  | id :: rest, naming =>
    let (name, naming) := naming.canonicalName graph id "*"
    let (others, naming) := graph.namespaceClaims rest naming
    (⟨name, .namespaceObject id⟩ :: others, naming)

/-- The claims of a statement: the names that it defines, and the name of its module's default
export if it is that. -/
def statementClaims (graph : Graph) (address : Address) : List Claim :=
  match graph.module? address.module with
  | none => []
  | some module =>
    let defines := ((module.statement? address.index).map (·.defines)).getD []
    let anonymous :=
      if module.anonymousDefault? == some address.index then
        [⟨module.anonymousDefaultName, .anonymousDefault address.module⟩]
      else []
    defines.map (⟨·, .module address.module⟩) ++ anonymous

/-- The claims of the external modules. -/
def externalClaims (graph : Graph) : List Claim :=
  graph.externals.zipIdx.map fun entry => ⟨entry.1.preferredName, .external entry.2⟩

/-- All external modules have the names that they prefer. -/
def withPreferredNames (graph : Graph) : Graph :=
  { graph with
    externals := graph.externals.map fun external => external.rename external.preferredName }

/-- An owner in words. -/
def describe (graph : Graph) (owner : Owner) : String :=
  let path (id : Nat) : String := ((graph.module? id).map (·.path.text)).getD ""
  match owner with
  | .module id => path id
  | .anonymousDefault id => s!"default export of {path id}"
  | .namespaceObject id => s!"namespace of {path id}"
  | .external id =>
    let specifier := ((graph.external? id).map (·.specifier)).getD ""
    s!"external '{specifier}'"

end Graph

/-- A graph with the names of its modules and external modules in the bundle. -/
structure NamedGraph where
  graph : Graph
  naming : Naming

namespace NamedGraph

/-- Gives the name that an owner claims another form, and tells the log. -/
def rename (named : NamedGraph) (name : String) (owner : Owner) (replacement : String) :
    NamedGraph × List Log.Entry :=
  let settle (id : Nat) (name : String) : NamedGraph × List Log.Entry :=
    ({ named with naming := named.naming.settle id name replacement },
      Naming.renameEntry named.graph id name replacement)
  match owner with
  | .module id => settle id name
  | .anonymousDefault id => settle id "default"
  | .namespaceObject id => settle id "*"
  | .external id =>
    ({ named with graph := named.graph.updateExternal id (·.rename replacement) }, [])

/-- Renames owners of a name. -/
def renameAll (named : NamedGraph) (name : String) :
    List (Owner × String) → NamedGraph × List Log.Entry
  | [] => (named, [])
  | (owner, replacement) :: rest =>
    let notice := ⟨.debug, .naming,
      s!"Renaming {named.graph.describe owner} '{name}' to '{replacement}'"⟩
    let (next, entries) := named.rename name owner replacement
    let (last, others) := next.renameAll name rest
    (last, notice :: entries ++ others)

/-- Applies the resolution of conflicts. -/
def settleConflicts (named : NamedGraph) : List Conflict → NamedGraph × List Log.Entry
  | [] => (named, [])
  | conflict :: rest =>
    let count := conflict.renamed.length + 1
    let keeper := named.graph.describe conflict.keeper
    let notice := ⟨.info, .naming,
      s!"Name conflict for '{conflict.name}' across {count} owners, {keeper} keeps it"⟩
    let (next, entries) := named.renameAll conflict.name conflict.renamed
    let (last, others) := next.settleConflicts rest
    (last, notice :: entries ++ others)

/-- Renames what has to be renamed so that no two owners have one name, among the statements that
the bundle holds. -/
def deconflict (named : NamedGraph) (statements : List Address) :
    NamedGraph × List Log.Entry :=
  let (objects, naming) := named.graph.namespaceClaims named.graph.namespaces named.naming
  let claims := objects ++ statements.flatMap named.graph.statementClaims ++
    named.graph.externalClaims
  settleConflicts ⟨named.graph.withPreferredNames, naming⟩ (Conflict.ofClaims claims)

end NamedGraph

end ScriptBundler
