import ScriptBundler.Proofs.Graph.Requests
import ScriptBundler.Proofs.Graph.Upkeep
import ScriptBundler.Proofs.Module.Sources

/-!
# Where imports lead

The target of an import is noted in the table of imports, and what the import asks of its target is
noted there.  A graph is linked if the targets so noted are those that the sources of the imports
name, if a module is noted as imported as a whole exactly for the sake of such an import, and if an
external module knows whether its default export or another one is imported.

Reading modules keeps a graph linked, also if it ends with a fault.
-/

namespace ScriptBundler

open Files ScriptBundler.Module Script

/-- Whether an external module knows that an export is imported. -/
def External.Provides (external : External) (exported : String) : Prop :=
  if exported = "default" then external.needsDefault = true else external.needsNamed = true

theorem External.provides_request_self (external : External) (exported : String) :
    (external.request exported).Provides exported := by
  unfold Provides request
  by_cases hdefault : exported = "default" <;> simp [hdefault]

theorem External.Provides.request {external : External} {exported : String}
    (hprovides : external.Provides exported) (other : String) :
    (external.request other).Provides exported := by
  unfold Provides External.request at *
  by_cases hdefault : exported = "default" <;> by_cases hother : other = "default" <;>
    simp_all

theorem External.Provides.suggest {external : External} {exported : String}
    (hprovides : external.Provides exported) (key suggestion : String) :
    (external.suggest key suggestion).Provides exported := hprovides

theorem External.specifier_request (external : External) (exported : String) :
    (external.request exported).specifier = external.specifier := by
  unfold External.request
  split <;> rfl

namespace Graph

/-- Whether a target is the one that a specifier names, seen from an importer. -/
def Names (graph : Graph) (importer : Path) (specifier : String) : Target → Prop
  | .internal id => ∃ path, resolveFrom (directoryOf importer) specifier = .file path ∧
      graph.idOf? path = some id
  | .external id => resolveFrom (directoryOf importer) specifier = .external ∧
      graph.externalIdOf? specifier = some id

/-- Whether a target is the one that the source of an import names, and knows of the import. -/
def Links (graph : Graph) (module : Module) (entry : Import) : Target → Prop
  | .internal id => ∃ path, resolveFrom (directoryOf module.path) entry.source = .file path ∧
      graph.idOf? path = some id ∧ (entry.name = "*" → id ∈ graph.namespaces)
  | .external id => resolveFrom (directoryOf module.path) entry.source = .external ∧
      graph.externalIdOf? entry.source = some id ∧
      ∃ external, graph.external? id = some external ∧ external.Provides entry.name

/-- Whether the numbers of specifiers are those of external modules. -/
def Registers (graph : Graph) : Prop :=
  ∀ specifier id, graph.externalIdOf? specifier = some id →
    ∃ external, graph.external? id = some external

/-- The modules of a graph stem from sources and are found under their paths, and the targets of
imports are right. -/
structure Linked (graph : Graph) : Prop where
  wellFormed : graph.WellFormed
  registers : graph.Registers
  sourced : ∀ id module, graph.module? id = some module → module.Sourced
  own : ∀ id module, graph.module? id = some module → graph.idOf? module.path = some id
  links : ∀ id module name entry target, graph.module? id = some module →
    module.imports.get? name = some entry → entry.target = some target →
    name ∈ module.requested ∧ graph.Links module entry target
  /-- A module is imported as a whole by some import that has been followed. -/
  namespaces : ∀ id ∈ graph.namespaces, ∃ importer module name entry,
    graph.module? importer = some module ∧ module.imports.get? name = some entry ∧
    entry.name = "*" ∧ entry.target = some (.internal id)

/-- A later graph in which all that targets rely on is as it was. -/
structure Widens (before after : Graph) : Prop extends Extends before after where
  externalIdOf : ∀ specifier id,
    before.externalIdOf? specifier = some id → after.externalIdOf? specifier = some id
  external : ∀ id external, before.external? id = some external →
    ∃ later, after.external? id = some later ∧
      ∀ exported, external.Provides exported → later.Provides exported
  namespaces : ∀ id ∈ before.namespaces, id ∈ after.namespaces
  registers : before.Registers → after.Registers

variable {graph before middle after : Graph}

theorem Extends.of_modules_eq (hmodules : after.modules = before.modules)
    (hpaths : after.paths = before.paths) : before.Extends after := by
  refine ⟨fun id module h => ⟨module, ?_, .refl module⟩, fun h => ?_⟩
  · unfold module? at h ⊢
    rwa [hmodules]
  · unfold Graph.idOf? at h ⊢
    rwa [hpaths]

theorem Widens.refl (graph : Graph) : graph.Widens graph where
  toExtends := .refl graph
  externalIdOf := fun _ _ h => h
  external := fun _ external h => ⟨external, h, fun _ h => h⟩
  namespaces := fun _ h => h
  registers := fun h => h

theorem Widens.trans (hfirst : before.Widens middle) (hsecond : middle.Widens after) :
    before.Widens after where
  toExtends := hfirst.toExtends.trans hsecond.toExtends
  externalIdOf := fun specifier id h =>
    hsecond.externalIdOf specifier id (hfirst.externalIdOf specifier id h)
  external := by
    intro id external hexternal
    obtain ⟨between, hbetween, hprovides⟩ := hfirst.external id external hexternal
    obtain ⟨later, hlater, hprovides'⟩ := hsecond.external id between hbetween
    exact ⟨later, hlater, fun exported h => hprovides' exported (hprovides exported h)⟩
  namespaces := fun id h => hsecond.namespaces id (hfirst.namespaces id h)
  registers := fun h => hsecond.registers (hfirst.registers h)

/-- The specifiers have the numbers that they had, and nothing has been taken away. -/
theorem Widens.of_specifiers_eq (hextends : before.Extends after)
    (hspecifiers : after.specifiers = before.specifiers)
    (hexternal : ∀ id external, before.external? id = some external →
      ∃ later, after.external? id = some later ∧
        ∀ exported, external.Provides exported → later.Provides exported)
    (hnamespaces : ∀ id ∈ before.namespaces, id ∈ after.namespaces) : before.Widens after where
  toExtends := hextends
  externalIdOf := fun specifier id h => by
    unfold externalIdOf? at h ⊢
    rwa [hspecifiers]
  external := hexternal
  namespaces := hnamespaces
  registers := fun hregisters specifier id h => by
    unfold externalIdOf? at h
    rw [hspecifiers] at h
    obtain ⟨external, hfound⟩ := hregisters specifier id h
    obtain ⟨later, hlater, -⟩ := hexternal id external hfound
    exact ⟨later, hlater⟩

/-- Only modules have changed, and they have grown. -/
theorem Widens.of_extends (hextends : before.Extends after)
    (hexternals : after.externals = before.externals)
    (hspecifiers : after.specifiers = before.specifiers)
    (hnamespaces : after.namespaces = before.namespaces) : before.Widens after := by
  refine .of_specifiers_eq hextends hspecifiers (fun id external h => ?_)
    fun id h => hnamespaces ▸ h
  refine ⟨external, ?_, fun _ h => h⟩
  unfold external? at h ⊢
  rwa [hexternals]

theorem external?_updateExternal (graph : Graph) (id other : Nat) (change : External → External) :
    (graph.updateExternal id change).external? other =
      if id = other then (graph.external? other).map change else graph.external? other := by
  unfold external? updateExternal
  simp only [List.getElem?_modify]
  by_cases hid : id = other
  · simp only [if_pos hid]
    rfl
  · simp only [if_neg hid]
    exact Option.map_id'

/-- Only one external module has changed, and knows no less. -/
theorem Widens.updateExternal (graph : Graph) (id : Nat) {change : External → External}
    (hprovides : ∀ external exported,
      External.Provides external exported → (change external).Provides exported) :
    graph.Widens (graph.updateExternal id change) := by
  refine .of_specifiers_eq (.of_modules_eq rfl rfl) rfl (fun other external hexternal => ?_)
    fun _ h => h
  rw [external?_updateExternal, hexternal]
  split
  · exact ⟨change external, rfl, hprovides external⟩
  · exact ⟨external, rfl, fun _ h => h⟩

theorem Widens.addNamespace (graph : Graph) (id : Nat) : graph.Widens (graph.addNamespace id) := by
  unfold Graph.addNamespace
  split
  · exact .refl graph
  · exact .of_specifiers_eq (.of_modules_eq rfl rfl) rfl
      (fun _ external h => ⟨external, h, fun _ h => h⟩) fun _ h => List.mem_append_left _ h

theorem modules_addNamespace (graph : Graph) (id : Nat) :
    (graph.addNamespace id).modules = graph.modules := by
  unfold Graph.addNamespace
  split <;> rfl

theorem paths_addNamespace (graph : Graph) (id : Nat) :
    (graph.addNamespace id).paths = graph.paths := by
  unfold Graph.addNamespace
  split <;> rfl

theorem mem_addNamespace (graph : Graph) (id other : Nat) :
    other ∈ (graph.addNamespace id).namespaces ↔ other ∈ graph.namespaces ∨ other = id := by
  unfold Graph.addNamespace
  split
  · rename_i hmem
    exact ⟨Or.inl, fun h => h.elim (fun h => h) fun heq => heq ▸ List.contains_iff_mem.mp hmem⟩
  · simp

theorem quiet_addNamespace (graph : Graph) (id : Nat) : graph.Quiet (graph.addNamespace id) := by
  refine .of_modules_eq (graph.modules_addNamespace id) (graph.paths_addNamespace id)
    fun hwf => ?_
  unfold Graph.addNamespace
  split <;> exact hwf.resolver

theorem Registers.addExternal (hregisters : graph.Registers) (specifier : String) :
    (graph.addExternal specifier).Registers := by
  intro other id h
  rw [externalIdOf?_addExternal] at h
  rw [external?_addExternal]
  by_cases hlast : id = graph.externals.length
  · exact ⟨_, if_pos hlast⟩
  · rw [if_neg hlast]
    refine hregisters other id ?_
    split at h
    · exact absurd (Option.some.inj h).symm hlast
    · exact h

/-- An external module has been added, for a new specifier. -/
theorem Widens.register (graph : Graph) {specifier : String}
    (hnew : graph.externalIdOf? specifier = none) :
    graph.Widens (graph.addExternal specifier) where
  toExtends := .of_modules_eq rfl rfl
  externalIdOf := by
    intro other id h
    rw [externalIdOf?_addExternal, if_neg, h]
    rintro rfl
    rw [hnew] at h
    contradiction
  external := by
    intro id found hfound
    refine ⟨found, ?_, fun _ h => h⟩
    rw [external?_addExternal, if_neg (Nat.ne_of_lt (List.getElem?_eq_some_iff.mp hfound).1),
      hfound]
  namespaces := fun _ h => h
  registers := fun hregisters => hregisters.addExternal specifier

theorem Links.mono (hwidens : before.Widens after) {module later : Module} {entry : Import}
    {target : Target} (hpath : later.path = module.path)
    (hlinks : before.Links module entry target) :
    after.Links later entry target := by
  cases target with
  | internal id =>
      obtain ⟨path, hresolve, hid, hwhole⟩ := hlinks
      exact ⟨path, hpath ▸ hresolve, hwidens.toExtends.idOf? hid,
        fun h => hwidens.namespaces _ (hwhole h)⟩
  | external id =>
      obtain ⟨hresolve, hid, external, hexternal, hprovides⟩ := hlinks
      obtain ⟨later, hlater, hmore⟩ := hwidens.external _ _ hexternal
      exact ⟨hpath ▸ hresolve, hwidens.externalIdOf _ _ hid, later, hlater, hmore _ hprovides⟩

/-- One step keeps what is linked, if it follows imports to where they lead and reads modules under
new paths only. -/
theorem Linked.step (hlinked : before.Linked) (hwidens : before.Widens after)
    (hwf : after.WellFormed)
    (hmodules : ∀ id later, after.module? id = some later →
      (later.Sourced ∧ after.idOf? later.path = some id ∧
        ∀ name entry, later.imports.get? name = some entry → entry.target = none) ∨
      ∃ module, before.module? id = some module ∧
        ∀ name entry target, later.imports.get? name = some entry → entry.target = some target →
          module.imports.get? name = some entry ∨
          (name ∈ later.requested ∧ after.Links later entry target))
    (hnamespaces : ∀ id ∈ after.namespaces, ∃ importer module name entry,
      after.module? importer = some module ∧ module.imports.get? name = some entry ∧
      entry.name = "*" ∧ entry.target = some (.internal id)) : after.Linked := by
  refine ⟨hwf, hwidens.registers hlinked.registers, fun id later hlater => ?_,
    fun id later hlater => ?_, ?_, hnamespaces⟩
  · rcases hmodules id later hlater with ⟨hsourced, -⟩ | ⟨module, hmodule, -⟩
    · exact hsourced
    · exact (hlinked.sourced id module hmodule).of_asRead
        (hwidens.toExtends.grows hmodule hlater).asRead
  · rcases hmodules id later hlater with ⟨-, hown, -⟩ | ⟨module, hmodule, -⟩
    · exact hown
    · rw [path_eq_of_asRead (hwidens.toExtends.grows hmodule hlater).asRead]
      exact hwidens.toExtends.idOf? (hlinked.own id module hmodule)
  · intro id later name entry target hlater hentry htarget
    rcases hmodules id later hlater with ⟨-, -, hfresh⟩ | ⟨module, hmodule, himports⟩
    · rw [hfresh name entry hentry] at htarget
      contradiction
    · rcases himports name entry target hentry htarget with hold | hnew
      · have hgrows := hwidens.toExtends.grows hmodule hlater
        obtain ⟨hname, hlinks⟩ := hlinked.links id module name entry target hmodule hold htarget
        exact ⟨hgrows.requested name hname,
          hlinks.mono hwidens (path_eq_of_asRead hgrows.asRead)⟩
      · exact hnew

/-- A step that follows no import keeps what is linked. -/
theorem Linked.of_widens (hlinked : before.Linked) (hwidens : before.Widens after)
    (hwf : after.WellFormed) (hnamespaces : after.namespaces = before.namespaces)
    (hback : ∀ id later, after.module? id = some later →
      ∃ module, before.module? id = some module)
    (himports : ∀ id module later, before.module? id = some module →
      after.module? id = some later → later.imports = module.imports) :
    after.Linked := by
  refine hlinked.step hwidens hwf (fun id later hlater => Or.inr ?_) fun id hid => ?_
  · obtain ⟨module, hmodule⟩ := hback id later hlater
    exact ⟨module, hmodule, fun name entry target hentry _ =>
      Or.inl (himports id module later hmodule hlater ▸ hentry)⟩
  · rw [hnamespaces] at hid
    obtain ⟨importer, module, name, entry, hmodule, hentry, hwhole, htarget⟩ :=
      hlinked.namespaces id hid
    obtain ⟨later, hlater, -⟩ := hwidens.module importer module hmodule
    exact ⟨importer, later, name, entry, hlater,
      himports importer module later hmodule hlater ▸ hentry, hwhole, htarget⟩

theorem Linked.updateModule (hlinked : graph.Linked) (id : Nat) {change : Module → Module}
    (hgrows : ∀ module : Module, module.Grows (change module))
    (himports : ∀ module, (change module).imports = module.imports) :
    (graph.updateModule id change).Linked := by
  have hextends : graph.Extends (graph.updateModule id change) :=
    extends_updateModule fun module _ => hgrows module
  refine hlinked.of_widens (.of_extends hextends rfl rfl rfl)
    (wellFormed_updateModule (fun module => (hgrows module).asRead) hlinked.wellFormed) rfl
    (fun other later hlater => ?_) fun other module later hmodule hlater => ?_
  · rcases module?_updateModule_cases hlater with hold | ⟨-, module, hmodule, -⟩
    · exact ⟨later, hold⟩
    · exact ⟨module, hmodule⟩
  · rcases module?_updateModule_cases hlater with hold | ⟨-, earlier, hearlier, rfl⟩
    · rw [Option.some.inj (hold.symm.trans hmodule)]
    · rw [Option.some.inj (hearlier.symm.trans hmodule)]
      exact himports module

/-- Only what is not about modules has changed. -/
theorem Linked.of_modules_eq (hlinked : before.Linked) (hwidens : before.Widens after)
    (hwf : after.WellFormed) (hnamespaces : after.namespaces = before.namespaces)
    (hmodules : after.modules = before.modules) : after.Linked := by
  have hmodule : ∀ id, after.module? id = before.module? id := fun id => by
    unfold module?
    rw [hmodules]
  exact hlinked.of_widens hwidens hwf hnamespaces
    (fun id later h => ⟨later, (hmodule id).symm.trans h⟩) fun id module later h h' => by
      rw [hmodule, h] at h'
      rw [Option.some.inj h']

end Graph

namespace Module

theorem grows_includeStatement (module : Module) (index : Nat) :
    module.Grows (module.includeStatement index) :=
  ⟨asRead_includeStatement module index,
    fun _ h => includes_includeStatement.mpr (Or.inl h), fun _ h => h⟩

theorem grows_request (module : Module) (name : String) : module.Grows (module.request name) :=
  ⟨rfl, fun _ h => h, fun _ h => List.mem_append_left _ h⟩

end Module

/-! ## Following a specifier -/

namespace Graph

variable {before middle after : Graph}

/-- A later graph with more modules, of which nothing has been asked for yet. -/
def Reads (before after : Graph) : Prop :=
  ∃ fresh : List Module, after.modules = before.modules ++ fresh ∧
    ∀ module ∈ fresh, module.requested = []

theorem Reads.of_modules_eq (hmodules : after.modules = before.modules) : before.Reads after :=
  ⟨[], by rw [hmodules, List.append_nil], by simp⟩

/-- What is read is there as it was. -/
theorem Reads.module? (hreads : before.Reads after) {id : Nat} {module : Module}
    (hmodule : before.module? id = some module) : after.module? id = some module := by
  obtain ⟨fresh, hmodules, -⟩ := hreads
  unfold Graph.module? at hmodule ⊢
  rw [hmodules, List.getElem?_append_left (List.getElem?_eq_some_iff.mp hmodule).1]
  exact hmodule

theorem Reads.module?_back (hreads : before.Reads after) {id : Nat} {module : Module}
    (hmodule : after.module? id = some module) :
    before.module? id = some module ∨ module.requested = [] := by
  obtain ⟨fresh, hmodules, hfresh⟩ := hreads
  unfold Graph.module? at hmodule ⊢
  rw [hmodules, List.getElem?_append] at hmodule
  split at hmodule
  · exact Or.inl hmodule
  · exact Or.inr (hfresh module (List.mem_of_getElem? hmodule))

end Graph

namespace Build

variable {disk : Disk} {before after : Progress}

theorem load_error {path : Path} {fault : Fault}
    (hrun : (load disk path).run before = .error fault after) : after.graph = before.graph := by
  rw [load, run_get_bind] at hrun
  cases hid : before.graph.idOf? path with
  | some known =>
      simp only [hid, run_pure] at hrun
      contradiction
  | none =>
      simp only [hid, run_report_bind] at hrun
      cases hread : disk.read path with
      | error cause =>
          simp only [hread, run_throw] at hrun
          obtain ⟨-, rfl⟩ := EStateM.Result.error.inj hrun
          rfl
      | ok source =>
          cases hsource : Module.ofSource path source with
          | error fault =>
              simp only [hread, hsource, run_throw] at hrun
              obtain ⟨-, rfl⟩ := EStateM.Result.error.inj hrun
              rfl
          | ok module =>
              simp only [hread, hsource, run_report_bind, run_change_bind, run_pure] at hrun
              contradiction

/-- Loading a path keeps what is linked, also if there is no module under it. -/
theorem linked_load (path : Path) (hlinked : before.graph.Linked) :
    Leaves (fun graph => graph.Linked ∧ before.graph.Reads graph)
      (fun graph => graph.Linked ∧ before.graph.Reads graph) ((load disk path).run before) := by
  cases hrun : (load disk path).run before with
  | error fault after =>
      have hsame := load_error hrun
      exact ⟨hsame ▸ hlinked, .of_modules_eq (congrArg Graph.modules hsame)⟩
  | ok id after =>
      obtain ⟨hquiet, hid⟩ := load_ok hrun
      rcases load_cases hrun with ⟨rfl, -⟩ | ⟨source, module, hnone, -, hsource, rfl, hafter⟩
      · exact ⟨hlinked, .of_modules_eq rfl⟩
      have hreads : before.graph.Reads after.graph :=
        ⟨[module], by rw [hafter]; rfl, by simpa using ofSource_requested hsource⟩
      have hwidens : before.graph.Widens after.graph :=
        .of_extends hquiet.toExtends (by rw [hafter]; rfl) (by rw [hafter]; rfl)
          (by rw [hafter]; rfl)
      refine ⟨hlinked.step hwidens (hquiet.wellFormed hlinked.wellFormed)
        (fun id later hlater => ?_) fun id hid => ?_, hreads⟩
      · rw [hafter] at hlater
        rw [Graph.module?_addModule] at hlater
        split at hlater
        · rename_i hlength
          obtain rfl := Option.some.inj hlater
          refine Or.inl ⟨.of_ofSource hsource, ?_, fun name entry hentry => ?_⟩
          · rw [hlength, ofSource_path hsource]
            exact hid
          · exact imports_target hsource hentry
        · exact Or.inr ⟨later, hlater, fun _ _ _ h _ => Or.inl h⟩
      · rw [hafter] at hid
        obtain ⟨importer, module, name, entry, hmodule, hjustified⟩ := hlinked.namespaces id hid
        exact ⟨importer, module, name, entry, hreads.module? hmodule, hjustified⟩

theorem linked_register (specifier : String) (hlinked : before.graph.Linked) :
    Leaves (fun graph => graph.Linked ∧ before.graph.Reads graph)
      (fun graph => graph.Linked ∧ before.graph.Reads graph)
      ((register specifier).run before) := by
  have hsame : before.graph.Linked ∧ before.graph.Reads before.graph :=
    ⟨hlinked, .of_modules_eq rfl⟩
  rw [register, run_get_bind]
  cases hid : before.graph.externalIdOf? specifier with
  | some id =>
      simp only [hid]
      exact leaves_pure id hsame
  | none =>
      simp only [hid, run_report_bind, run_change_bind]
      refine leaves_pure _ ⟨?_, .of_modules_eq rfl⟩
      have hquiet : before.graph.Quiet (before.graph.addExternal specifier) :=
        .of_modules_eq rfl rfl fun h => h.resolver
      exact hlinked.of_modules_eq (.register _ hid) (hquiet.wellFormed hlinked.wellFormed) rfl rfl

/-- A specifier that has been registered has the number that comes back. -/
theorem register_ok {specifier : String} {id : Nat}
    (hrun : (register specifier).run before = .ok id after) :
    after.graph.externalIdOf? specifier = some id := by
  rcases register_cases hrun with ⟨rfl, hid⟩ | ⟨hnone, rfl, hafter⟩
  · exact hid
  · rw [hafter]
    exact (Graph.externalIdOf?_addExternal _ _ _).trans (if_pos rfl)

/-- Following a specifier keeps what is linked, wherever it leads. -/
theorem linked_fetch (disk : Disk) (specifier : String) (importer : Path)
    (hlinked : before.graph.Linked) :
    Leaves (fun graph => graph.Linked ∧ before.graph.Reads graph)
      (fun graph => graph.Linked ∧ before.graph.Reads graph)
      ((fetch disk specifier importer).run before) := by
  obtain ⟨-, hanswers⟩ := Resolver.resolve_right hlinked.wellFormed.resolver specifier importer
  rw [fetch, run_get_bind]
  generalize before.graph.resolver.resolve specifier importer = resolved at *
  obtain ⟨resolver, resolution, entries⟩ := resolved
  simp only [run_change_bind, run_report_bind]
  have hquiet : before.graph.Quiet { before.graph with resolver } :=
    .of_modules_eq rfl rfl fun _ => hanswers
  have hcached : Graph.Linked { before.graph with resolver } :=
    hlinked.of_modules_eq (.of_extends hquiet.toExtends rfl rfl rfl)
      (hquiet.wellFormed hlinked.wellFormed) rfl rfl
  cases resolution with
  | file path => exact leaves_map (linked_load path hcached)
  | external => exact leaves_map (linked_register specifier hcached)

/-- What a specifier leads to is what it names. -/
theorem fetch_names {specifier : String} {importer : Path} {target : Target}
    (hwf : before.graph.WellFormed)
    (hrun : (fetch disk specifier importer).run before = .ok target after) :
    after.graph.Names importer specifier target := by
  obtain ⟨hresolution, -⟩ := Resolver.resolve_right hwf.resolver specifier importer
  rw [fetch, run_get_bind] at hrun
  generalize before.graph.resolver.resolve specifier importer = resolved at *
  obtain ⟨resolver, resolution, entries⟩ := resolved
  simp only [run_change_bind, run_report_bind] at hrun hresolution
  cases resolution with
  | file path =>
      obtain ⟨id, hload, rfl⟩ := run_map_eq_ok hrun
      exact ⟨path, hresolution.symm, (load_ok hload).2⟩
  | external =>
      obtain ⟨id, hregister, rfl⟩ := run_map_eq_ok hrun
      exact ⟨hresolution.symm, register_ok hregister⟩

end Build

end ScriptBundler
