import ScriptBundler.Proofs.Graph.Aliases
import ScriptBundler.Proofs.Graph.Requests
import ScriptBundler.Proofs.Graph.Tracing
import ScriptBundler.Proofs.Module.Definitions

/-!
# Chains of imports and exports

What a name of a module stands for can be told from the sources alone.  A module passes on a name
that it imports, to the name that its source exports, and it passes on its default export if that is
only a name.  The chain that this makes ends at a name that a module declares, at a default export
without a name, at a module as a whole or at an external module; or it does not end at all.

A graph has followed some of these chains.  It looks after a name if the name has been asked for, or
if the module is demanded as a whole and does not import the name; the names that follow on the
chain have then been asked for as well.
-/

namespace ScriptBundler

open Files ScriptBundler.Module

/-- What a chain of imports and exports can end at.  Modules are known by their paths here. -/
inductive Destination where
  /-- A name that the module declares. -/
  | declared (path : Path) (name : String)
  | anonymousDefault (path : Path)
  | whole (path : Path)
  /-- An export of an external module, or all of it. -/
  | external (specifier exported : String)
deriving DecidableEq

/-- Whether a module only passes on a name: it imports the name, or the name is that of a default
export which is a name itself. -/
def Module.forwards (module : Module) (name : String) : Bool :=
  (module.imports.get? name).isSome ||
    name == "default" && ((module.exports.get? "default").bind (·.identifier)).isSome

namespace Graph

/-- The module with a path: the one that has been read, or else the one that a file holds. -/
def moduleAt? (graph : Graph) (disk : Disk) (path : Path) : Option Module :=
  match graph.idOf? path with
  | some id => graph.module? id
  | none =>
    match disk.read path with
    | .ok source => (Module.ofSource path source).toOption
    | .error _ => none

/-- One step of a chain: a name of a module is passed on to another name. -/
inductive PassesOn (graph : Graph) (disk : Disk) : Module × String → Module × String → Prop where
  | imported {module target : Module} {name : String} {entry : Import} {path : Path}
      {exported : Export} (hentry : module.imports.get? name = some entry)
      (hnamed : entry.name ≠ "*")
      (hresolve : resolveFrom (directoryOf module.path) entry.source = .file path)
      (htarget : graph.moduleAt? disk path = some target)
      (hexported : target.exports.get? entry.name = some exported) :
      PassesOn graph disk (module, name) (target, exported.localName)
  | mentioned {module : Module} {name : String} {entry : Export}
      (hown : module.imports.get? "default" = none)
      (hentry : module.exports.get? "default" = some entry)
      (hidentifier : entry.identifier = some name) :
      PassesOn graph disk (module, "default") (module, name)

/-- The last step of a chain.  No module declares `default`; this is what its default export is
called. -/
inductive Ends (graph : Graph) (disk : Disk) : Module × String → Destination → Prop where
  | declared {module : Module} {name : String} {index : Nat}
      (hown : module.imports.get? name = none) (hname : name ≠ "default")
      (hindex : module.definitions.get? name = some index) :
      Ends graph disk (module, name) (.declared module.path name)
  | anonymousDefault {module : Module} {index : Nat} {statement : Statement}
      (hown : module.imports.get? "default" = none)
      (hanonymous : module.anonymousDefault? = some index)
      (hstatement : module.statement? index = some statement)
      (hnameless : isNameless statement.form = true) :
      Ends graph disk (module, "default") (.anonymousDefault module.path)
  | whole {module target : Module} {name : String} {entry : Import} {path : Path}
      (hentry : module.imports.get? name = some entry) (hwhole : entry.name = "*")
      (hresolve : resolveFrom (directoryOf module.path) entry.source = .file path)
      (htarget : graph.moduleAt? disk path = some target) :
      Ends graph disk (module, name) (.whole target.path)
  | external {module : Module} {name : String} {entry : Import}
      (hentry : module.imports.get? name = some entry)
      (hresolve : resolveFrom (directoryOf module.path) entry.source = .external) :
      Ends graph disk (module, name) (.external entry.source entry.name)

/-- Whether the chain of a name ends at something. -/
inductive EndsAt (graph : Graph) (disk : Disk) : Module × String → Destination → Prop where
  | here {place : Module × String} {destination : Destination}
      (hends : graph.Ends disk place destination) : EndsAt graph disk place destination
  | next {place next : Module × String} {destination : Destination}
      (hpasses : graph.PassesOn disk place next) (hrest : EndsAt graph disk next destination) :
      EndsAt graph disk place destination

/-- What the chain of a name ends at, if it does so within so many names. -/
def destination? (graph : Graph) (disk : Disk) : Nat → Module → String → Option Destination
  | 0, _, _ => none
  | steps + 1, module, name =>
    match module.imports.get? name with
    | some entry =>
      match resolveFrom (directoryOf module.path) entry.source with
      | .external => some (.external entry.source entry.name)
      | .file path =>
        match graph.moduleAt? disk path with
        | none => none
        | some target =>
          if entry.name = "*" then some (.whole target.path)
          else
            match target.exports.get? entry.name with
            | some exported => graph.destination? disk steps target exported.localName
            | none => none
    | none =>
      if name = "default" then
        match (module.exports.get? "default").bind (·.identifier) with
        | some mentioned => graph.destination? disk steps module mentioned
        | none =>
          match module.anonymousDefault?.bind module.statement? with
          | some statement =>
            if isNameless statement.form then some (.anonymousDefault module.path) else none
          | none => none
      else (module.definitions.get? name).map fun _ => .declared module.path name

variable {graph : Graph} {disk : Disk} {module : Module} {name : String}

theorem endsAt_of_destination? {steps : Nat} {destination : Destination}
    (hdestination : graph.destination? disk steps module name = some destination) :
    graph.EndsAt disk (module, name) destination := by
  induction steps generalizing module name with
  | zero => contradiction
  | succ steps ih =>
      unfold destination? at hdestination
      split at hdestination
      -- an imported name
      · rename_i entry hentry
        split at hdestination
        · rename_i hresolve
          obtain rfl := Option.some.inj hdestination
          exact .here (.external hentry hresolve)
        · rename_i path hresolve
          split at hdestination
          · contradiction
          · rename_i target htarget
            split at hdestination
            · rename_i hwhole
              obtain rfl := Option.some.inj hdestination
              exact .here (.whole hentry hwhole hresolve htarget)
            · rename_i hnamed
              split at hdestination
              · rename_i exported hexported
                exact .next (.imported hentry hnamed hresolve htarget hexported) (ih hdestination)
              · contradiction
      -- a name of the module itself
      · rename_i hown
        split at hdestination
        · rename_i hdefault
          subst hdefault
          split at hdestination
          · rename_i mentioned hmentioned
            obtain ⟨entry, hentry, hidentifier⟩ := Option.bind_eq_some_iff.mp hmentioned
            exact .next (.mentioned hown hentry hidentifier) (ih hdestination)
          · split at hdestination
            · rename_i statement hstatement
              obtain ⟨index, hanonymous, hget⟩ := Option.bind_eq_some_iff.mp hstatement
              split at hdestination
              · rename_i hnameless
                obtain rfl := Option.some.inj hdestination
                exact .here (.anonymousDefault hown hanonymous hget hnameless)
              · contradiction
            · contradiction
        · rename_i hname
          obtain ⟨index, hindex, rfl⟩ := Option.map_eq_some_iff.mp hdestination
          exact .here (.declared hown hname hindex)

theorem PassesOn.forwards {next : Module × String}
    (hpasses : graph.PassesOn disk (module, name) next) : module.forwards name = true := by
  cases hpasses with
  | imported hentry => simp [Module.forwards, hentry]
  | mentioned hown hentry hidentifier => simp [Module.forwards, hentry, hidentifier]

/-! ## Chains that are looked after -/

/-- Whether a graph looks after a name of a module. -/
def Supplied (graph : Graph) (id : Nat) (name : String) : Prop :=
  graph.Requested id name ∨
    (∃ isEntry, graph.Marks (.everything id isEntry)) ∧
      ∀ module ∈ graph.module? id, module.imports.get? name = none

variable {id : Nat} {requests : List Demand}

/-- An imported name is looked after only if it has been asked for. -/
theorem Supplied.requested (hsupplied : graph.Supplied id name)
    (hmodule : graph.module? id = some module) {entry : Import}
    (hentry : module.imports.get? name = some entry) : graph.Requested id name := by
  rcases hsupplied with hrequested | ⟨-, hown⟩
  · exact hrequested
  · rw [hown module hmodule] at hentry
    contradiction

/-- The statement that a name needs is included if the name is looked after, unless it were
an import or an export list. -/
theorem Supplied.includes (hcomplete : graph.Complete requests)
    (hsupplied : graph.Supplied id name) {index : Nat} {statement : Statement}
    (hcalls : graph.Calls (.name id name) (.statement ⟨id, index⟩))
    (hstatement : graph.statement? ⟨id, index⟩ = some statement)
    (himport : isImport statement.form = false) (hlisted : listedNames statement.form = []) :
    graph.Includes ⟨id, index⟩ := by
  rcases hsupplied with hrequested | ⟨⟨isEntry, hmarks⟩, -⟩
  · exact (hcomplete.settled (.name id name) hrequested).calls _ hcalls
  · exact hmarks.2 _ (.plain hstatement himport hlisted)

/-- Following an import: its target is known, and the target is the right one. -/
theorem Traced.links_of_requested (htraced : graph.Traced)
    (hrequested : graph.Requested id name) (hmodule : graph.module? id = some module)
    {entry : Import} (hentry : module.imports.get? name = some entry) :
    ∃ target, entry.target = some target ∧ graph.Links module entry target := by
  obtain ⟨found, hfound, hname⟩ := hrequested
  obtain rfl := Option.some.inj (hmodule.symm.trans hfound)
  obtain ⟨target, htarget⟩ := htraced.traced id module name entry hmodule hname hentry
  exact ⟨target, htarget, (htraced.links id module name entry target hmodule hentry htarget).2⟩

theorem moduleAt?_of_idOf? {path : Path} (hid : graph.idOf? path = some id) :
    graph.moduleAt? disk path = graph.module? id := by
  unfold moduleAt?
  rw [hid]

/-- One step of a chain whose first name is looked after: the next name has been asked for, and the
first one means the same. -/
theorem Supplied.passesOn (hcomplete : graph.Complete requests) (htraced : graph.Traced)
    (hsupplied : graph.Supplied id name) (hmodule : graph.module? id = some module)
    {next : Module} {exported : String}
    (hpasses : graph.PassesOn disk (module, name) (next, exported)) :
    ∃ other, graph.module? other = some next ∧ graph.Requested other exported ∧
      (name ≠ "*" → graph.meaning id name = .elsewhere other exported) := by
  cases hpasses with
  | @imported _ _ _ entry path found hentry hnamed hresolve htarget hexported =>
      have hrequested := hsupplied.requested hmodule hentry
      obtain ⟨target, hleads, hlinks⟩ := htraced.links_of_requested hrequested hmodule hentry
      cases target with
      | external other =>
          obtain ⟨hexternal, -⟩ := hlinks
          rw [hresolve] at hexternal
          contradiction
      | internal other =>
          obtain ⟨path', hresolve', hid, -⟩ := hlinks
          obtain rfl := Resolution.file.inj (hresolve.symm.trans hresolve')
          rw [moduleAt?_of_idOf? hid] at htarget
          have hcalls : graph.Calls (.name id name) (.name other found.localName) := by
            refine .namedImport hmodule hentry hnamed ?_ htarget hexported
            unfold leadsTo
            rw [hresolve]
            exact hid
          refine ⟨other, htarget, (hcomplete.settled (.name id name) hrequested).calls _ hcalls,
            fun hstar => ?_⟩
          simp [meaning, hmodule, hstar, hentry, importMeaning, hleads, Import.isNamespace, hnamed,
            htarget, hexported]
  | @mentioned _ _ entry hown hentry hidentifier =>
      have hsourced := htraced.sourced id module hmodule
      obtain ⟨-, hdeclared, index, statement, hindex, hget, ⟨_, hform⟩, hname⟩ :=
        hsourced.default_identifier hentry hidentifier
      have hstatement : graph.statement? ⟨id, index⟩ = some statement :=
        statement?_eq_some_iff.mpr ⟨module, hmodule, hget⟩
      have hincludes := hsupplied.includes hcomplete
        (.defaultStatement hmodule hown hentry hdeclared hindex) hstatement
        (by rw [hform]; rfl) (by rw [hform]; rfl)
      have hcalls := (hcomplete.settled (.statement ⟨id, index⟩) hincludes).calls _
        (.dependency hstatement hname)
      refine ⟨id, hmodule, hcalls, fun hstar => ?_⟩
      simp [meaning, hmodule, hown, defaultMeaning, hentry, hidentifier]

end Graph
end ScriptBundler
