import ScriptBundler.Proofs.Graph.Runs
import ScriptBundler.Proofs.Module.Indices

/-!
# How a graph grows

While a graph is built, modules are added to it and none is taken away.  Of a module that has been
read, only few things ever change: statements become included, names become requested, names are
suggested, and imports are followed.  `Module.asRead` is the rest, and `Graph.Extends` says that a
later graph has the modules of an earlier one, with the same rest, and with everything included
and requested that was so before.
-/

namespace ScriptBundler

open Files ScriptBundler.Module Script

/-! ## Modules -/

namespace Module

/-- A statement as it was when its module was read. -/
def Statement.asRead (statement : Statement) : Statement :=
  { statement with included := false }

/-- An import as it was when its module was read. -/
def Import.asRead (entry : Import) : Import :=
  { entry with target := none }

/-- A module as it was when it was read: nothing is included or requested, no name is suggested,
and no import has been followed. -/
def asRead (module : Module) : Module :=
  { module with
    imports := module.imports.map fun entry => (entry.1, entry.2.asRead)
    statements := module.statements.map Statement.asRead
    suggestedNames := []
    requested := [] }

/-- Whether the bundle holds the statement at a position. -/
def Includes (module : Module) (index : Nat) : Prop :=
  ∃ statement, module.statement? index = some statement ∧ statement.included = true

/-- A module that has been read, later on. -/
structure Grows (before after : Module) : Prop where
  asRead : after.asRead = before.asRead
  includes : ∀ index, before.Includes index → after.Includes index
  requested : ∀ name ∈ before.requested, name ∈ after.requested

theorem Grows.refl (module : Module) : module.Grows module :=
  ⟨rfl, fun _ h => h, fun _ h => h⟩

theorem Grows.trans {first second third : Module} (hfirst : first.Grows second)
    (hsecond : second.Grows third) : first.Grows third where
  asRead := hsecond.asRead.trans hfirst.asRead
  includes := fun index h => hsecond.includes index (hfirst.includes index h)
  requested := fun name h => hsecond.requested name (hfirst.requested name h)

section SameRest

variable {module other : Module} (hrest : other.asRead = module.asRead)

include hrest

theorem path_eq_of_asRead : other.path = module.path :=
  (congrArg Module.path hrest :)

theorem exports_eq_of_asRead : other.exports = module.exports :=
  (congrArg Module.exports hrest :)

theorem definitions_eq_of_asRead : other.definitions = module.definitions :=
  (congrArg Module.definitions hrest :)

theorem modifiersOf_eq_of_asRead : other.modifiersOf = module.modifiersOf := by
  funext name
  exact (congrArg (fun m : Module => (m.modifications.get? name).getD []) hrest :)

theorem statement?_of_asRead {index : Nat} {statement : Statement}
    (hstatement : module.statement? index = some statement) :
    ∃ later, other.statement? index = some later ∧ later.asRead = statement.asRead := by
  have hmap : other.statements.map Statement.asRead = module.statements.map Statement.asRead :=
    congrArg Module.statements hrest
  have hget : (other.statements.map Statement.asRead)[index]? = some statement.asRead := by
    rw [hmap, List.getElem?_map, show module.statements[index]? = some statement from hstatement]
    rfl
  rw [List.getElem?_map] at hget
  exact Option.map_eq_some_iff.mp hget

theorem get?_imports_of_asRead (name : String) :
    (other.imports.get? name).map Import.asRead = (module.imports.get? name).map Import.asRead := by
  rw [← Table.get?_map, ← Table.get?_map]
  exact congrArg (fun m : Module => m.imports.get? name) hrest

theorem get?_imports_eq_none_of_asRead {name : String} (hnone : module.imports.get? name = none) :
    other.imports.get? name = none := by
  have hmap := get?_imports_of_asRead hrest name
  rw [hnone] at hmap
  exact Option.map_eq_none_iff.mp hmap

theorem get?_imports_eq_some_of_asRead {name : String} {entry : Import}
    (hentry : module.imports.get? name = some entry) :
    ∃ later, other.imports.get? name = some later ∧ later.source = entry.source ∧
      later.name = entry.name := by
  have hmap := get?_imports_of_asRead hrest name
  rw [hentry] at hmap
  obtain ⟨later, hlater, heq⟩ := Option.map_eq_some_iff.mp hmap
  exact ⟨later, hlater, (congrArg Import.source heq :), (congrArg Import.name heq :)⟩

end SameRest

theorem Statement.form_eq_of_asRead {statement other : Statement}
    (hrest : other.asRead = statement.asRead) : other.form = statement.form :=
  (congrArg Statement.form hrest :)

theorem Statement.defines_eq_of_asRead {statement other : Statement}
    (hrest : other.asRead = statement.asRead) : other.defines = statement.defines :=
  (congrArg Statement.defines hrest :)

theorem Statement.dependsOn_eq_of_asRead {statement other : Statement}
    (hrest : other.asRead = statement.asRead) : other.dependsOn = statement.dependsOn :=
  (congrArg Statement.dependsOn hrest :)

/-! ## What may change in a module -/

theorem asRead_suggest (module : Module) (exported suggestion : String) :
    (module.suggest exported suggestion).asRead = module.asRead := rfl

theorem asRead_request (module : Module) (name : String) :
    (module.request name).asRead = module.asRead := rfl

theorem asRead_includeStatement (module : Module) (index : Nat) :
    (module.includeStatement index).asRead = module.asRead := by
  have hmap : (module.statements.modify index fun s => { s with included := true }).map
      Statement.asRead = module.statements.map Statement.asRead := by
    refine List.ext_getElem? fun position => ?_
    rw [List.getElem?_map, List.getElem?_map, List.getElem?_modify, Option.map_eq_map,
      Option.map_map]
    by_cases hposition : index = position
    · simp only [if_pos hposition]
      rfl
    · simp only [if_neg hposition]
      rfl
  unfold includeStatement asRead
  rw [hmap]

theorem asRead_link (module : Module) (localName : String) (target : Target) :
    (module.link localName target).asRead = module.asRead := by
  unfold link
  cases hentry : module.imports.get? localName with
  | none => rfl
  | some entry =>
      have hmap : (module.imports.set localName { entry with target := some target }).map
          (fun e => (e.1, e.2.asRead)) = module.imports.map fun e => (e.1, e.2.asRead) := by
        exact Table.map_set_eq_self (by rw [hentry]; rfl)
      unfold asRead
      simp only [hmap]

theorem link_statements (module : Module) (localName : String) (target : Target) :
    (module.link localName target).statements = module.statements := by
  unfold link
  split <;> rfl

theorem link_requested (module : Module) (localName : String) (target : Target) :
    (module.link localName target).requested = module.requested := by
  unfold link
  split <;> rfl

theorem includes_includeStatement {module : Module} {index position : Nat} :
    (module.includeStatement index).Includes position ↔
      module.Includes position ∨ position = index ∧ (module.statement? index).isSome = true := by
  unfold Includes statement? includeStatement
  simp only [List.getElem?_modify]
  by_cases hposition : index = position
  · subst hposition
    cases hstatement : module.statements[index]? <;> simp
  · have hother : ¬ position = index := fun h => hposition h.symm
    simp [hposition, hother]

theorem WellFormed.of_asRead {module other : Module} (hrest : other.asRead = module.asRead)
    (hwf : module.WellFormed) : other.WellFormed := by
  have hback : ∀ index statement, other.statement? index = some statement →
      ∃ earlier, module.statement? index = some earlier ∧ earlier.asRead = statement.asRead :=
    fun _ _ h => statement?_of_asRead hrest.symm h
  have hforth : ∀ index, (∃ statement, module.statement? index = some statement ∧
        listedNames statement.form = []) →
      ∃ statement, other.statement? index = some statement ∧ listedNames statement.form = [] := by
    rintro index ⟨statement, hstatement, hform⟩
    obtain ⟨later, hlater, heq⟩ := statement?_of_asRead hrest hstatement
    exact ⟨later, hlater, by rw [Statement.form_eq_of_asRead heq, hform]⟩
  constructor
  case index =>
    intro index statement hstatement
    obtain ⟨earlier, hearlier, heq⟩ := hback index statement hstatement
    exact (congrArg Statement.index heq :).symm.trans (hwf.index index earlier hearlier)
  case definition =>
    intro name index hget
    rw [definitions_eq_of_asRead hrest] at hget
    exact hforth index (hwf.definition name index hget)
  case modifier =>
    intro name index hmodifier
    rw [modifiersOf_eq_of_asRead hrest] at hmodifier
    exact hforth index (hwf.modifier name index hmodifier)
  case defaultExport =>
    intro entry index hget hstatement
    rw [exports_eq_of_asRead hrest] at hget
    exact hforth index (hwf.defaultExport entry index hget hstatement)
  case listing =>
    intro index statement hstatement hlisting
    obtain ⟨earlier, hearlier, heq⟩ := hback index statement hstatement
    rw [← Statement.form_eq_of_asRead heq] at hlisting ⊢
    rw [← Statement.defines_eq_of_asRead heq, ← Statement.dependsOn_eq_of_asRead heq]
    exact hwf.listing index earlier hearlier hlisting
  case imported =>
    intro index statement specifiers source hstatement hform
    obtain ⟨earlier, hearlier, heq⟩ := hback index statement hstatement
    rw [← Statement.form_eq_of_asRead heq] at hform
    rw [definitions_eq_of_asRead hrest, modifiersOf_eq_of_asRead hrest,
      exports_eq_of_asRead hrest]
    exact hwf.imported index earlier specifiers source hearlier hform

/-- A module that has just been read holds nothing in the bundle yet. -/
theorem ofSource_not_includes {path : Path} {source : List Char} {module : Module}
    (hsource : Module.ofSource path source = .ok module) (index : Nat) :
    ¬ module.Includes index := by
  obtain ⟨tree, -, rfl⟩ := ofSource_eq_ofTree hsource
  rintro ⟨statement, hstatement, hincluded⟩
  obtain ⟨item, hfrom⟩ := ofTree_statement? hstatement
  rw [hfrom.included] at hincluded
  contradiction

theorem ofSource_requested {path : Path} {source : List Char} {module : Module}
    (hsource : Module.ofSource path source = .ok module) : module.requested = [] := by
  obtain ⟨tree, -, rfl⟩ := ofSource_eq_ofTree hsource
  rfl

theorem ofSource_path {path : Path} {source : List Char} {module : Module}
    (hsource : Module.ofSource path source = .ok module) : module.path = path := by
  obtain ⟨tree, -, rfl⟩ := ofSource_eq_ofTree hsource
  rfl

end Module

/-! ## Graphs -/

namespace Graph

/-- Whether the bundle holds a statement. -/
def Includes (graph : Graph) (address : Address) : Prop :=
  ∃ module, graph.module? address.module = some module ∧ module.Includes address.index

/-- Whether a name of a module has been asked for. -/
def Requested (graph : Graph) (id : Nat) (name : String) : Prop :=
  ∃ module, graph.module? id = some module ∧ name ∈ module.requested

/-- A later graph has all modules of an earlier one, under the same numbers. -/
structure Extends (before after : Graph) : Prop where
  module : ∀ id module, before.module? id = some module →
    ∃ later, after.module? id = some later ∧ module.Grows later
  idOf? : ∀ {path id}, before.idOf? path = some id → after.idOf? path = some id

/-- The modules of a graph are well-formed, each number of a path is that of its module, and the
resolver has only given right answers. -/
structure WellFormed (graph : Graph) : Prop where
  module : ∀ id module, graph.module? id = some module → module.WellFormed
  ofPath : ∀ path id, graph.idOf? path = some id →
    ∃ module, graph.module? id = some module ∧ module.path.same path = true
  resolver : ∀ directory specifier answer,
    ((directory, specifier), answer) ∈ graph.resolver.answers →
      answer = resolveFrom directory specifier

/-- A later graph in which nothing else is included or requested than in an earlier one. -/
structure Quiet (before after : Graph) : Prop extends Extends before after where
  includes : ∀ address, after.Includes address → before.Includes address
  requested : ∀ id name, after.Requested id name → before.Requested id name
  wellFormed : before.WellFormed → after.WellFormed

variable {graph before middle after : Graph}

theorem Extends.refl (graph : Graph) : graph.Extends graph :=
  ⟨fun _ module h => ⟨module, h, .refl module⟩, id⟩

theorem Extends.trans (hfirst : before.Extends middle) (hsecond : middle.Extends after) :
    before.Extends after := by
  refine ⟨fun id module hmodule => ?_, fun hid => hsecond.idOf? (hfirst.idOf? hid)⟩
  obtain ⟨between, hbetween, hgrows⟩ := hfirst.module id module hmodule
  obtain ⟨later, hlater, hgrows'⟩ := hsecond.module id between hbetween
  exact ⟨later, hlater, hgrows.trans hgrows'⟩

theorem Extends.includes (hextends : before.Extends after) {address : Address}
    (hincludes : before.Includes address) : after.Includes address := by
  obtain ⟨module, hmodule, hstatement⟩ := hincludes
  obtain ⟨later, hlater, hgrows⟩ := hextends.module _ module hmodule
  exact ⟨later, hlater, hgrows.includes _ hstatement⟩

theorem Extends.requested (hextends : before.Extends after) {id : Nat} {name : String}
    (hrequested : before.Requested id name) : after.Requested id name := by
  obtain ⟨module, hmodule, hname⟩ := hrequested
  obtain ⟨later, hlater, hgrows⟩ := hextends.module _ module hmodule
  exact ⟨later, hlater, hgrows.requested _ hname⟩

theorem Quiet.refl (graph : Graph) : graph.Quiet graph :=
  ⟨.refl graph, fun _ h => h, fun _ _ h => h, fun h => h⟩

theorem Quiet.trans (hfirst : before.Quiet middle) (hsecond : middle.Quiet after) :
    before.Quiet after where
  toExtends := hfirst.toExtends.trans hsecond.toExtends
  includes := fun address h => hfirst.includes address (hsecond.includes address h)
  requested := fun id name h => hfirst.requested id name (hsecond.requested id name h)
  wellFormed := fun h => hsecond.wellFormed (hfirst.wellFormed h)

/-- Only what is not about modules has changed. -/
theorem Quiet.of_modules_eq (hmodules : after.modules = before.modules)
    (hpaths : after.paths = before.paths)
    (hresolver : before.WellFormed → ∀ directory specifier answer,
      ((directory, specifier), answer) ∈ after.resolver.answers →
        answer = resolveFrom directory specifier) : before.Quiet after := by
  have hmodule : ∀ id, after.module? id = before.module? id := fun id => by
    unfold module?
    rw [hmodules]
  have hids : ∀ path, after.idOf? path = before.idOf? path := fun path => by
    unfold idOf?
    rw [hpaths]
  constructor
  case toExtends =>
    exact ⟨fun id module h => ⟨module, (hmodule id).trans h, .refl module⟩, (hids _).trans⟩
  case includes =>
    rintro address ⟨module, h, hincludes⟩
    exact ⟨module, (hmodule _).symm.trans h, hincludes⟩
  case requested =>
    rintro id name ⟨module, h, hname⟩
    exact ⟨module, (hmodule _).symm.trans h, hname⟩
  case wellFormed =>
    intro hwf
    refine ⟨fun id module h => hwf.module id module ((hmodule id).symm.trans h), ?_, hresolver hwf⟩
    intro path id hid
    obtain ⟨module, h, hsame⟩ := hwf.ofPath path id ((hids path).symm.trans hid)
    exact ⟨module, (hmodule id).trans h, hsame⟩

theorem module?_updateModule (graph : Graph) (id other : Nat) (change : Module → Module) :
    (graph.updateModule id change).module? other =
      if id = other then (graph.module? other).map change else graph.module? other := by
  unfold module? updateModule
  simp only [List.getElem?_modify]
  by_cases hid : id = other
  · simp only [if_pos hid]
    rfl
  · simp only [if_neg hid]
    exact Option.map_id'

theorem module?_updateModule_cases {id other : Nat} {change : Module → Module} {module : Module}
    (hmodule : (graph.updateModule id change).module? other = some module) :
    graph.module? other = some module ∨
      id = other ∧ ∃ earlier, graph.module? other = some earlier ∧ module = change earlier := by
  rw [module?_updateModule] at hmodule
  by_cases hid : id = other
  · rw [if_pos hid] at hmodule
    obtain ⟨earlier, hearlier, heq⟩ := Option.map_eq_some_iff.mp hmodule
    exact Or.inr ⟨hid, earlier, hearlier, heq.symm⟩
  · rw [if_neg hid] at hmodule
    exact Or.inl hmodule

/-- Changing a module so that it grows extends the graph. -/
theorem extends_updateModule {id : Nat} {change : Module → Module}
    (hgrows : ∀ module, graph.module? id = some module → module.Grows (change module)) :
    graph.Extends (graph.updateModule id change) := by
  refine ⟨fun other module hmodule => ?_, fun hid => hid⟩
  rw [module?_updateModule, hmodule]
  by_cases hid : id = other
  · subst hid
    rw [if_pos rfl]
    exact ⟨change module, rfl, hgrows module hmodule⟩
  · rw [if_neg hid]
    exact ⟨module, rfl, .refl module⟩

theorem wellFormed_updateModule {id : Nat} {change : Module → Module}
    (hrest : ∀ module, (change module).asRead = module.asRead) (hwf : graph.WellFormed) :
    (graph.updateModule id change).WellFormed := by
  constructor
  case module =>
    intro other module hmodule
    rcases module?_updateModule_cases hmodule with hold | ⟨-, earlier, hearlier, rfl⟩
    · exact hwf.module other module hold
    · exact (hwf.module other earlier hearlier).of_asRead (hrest earlier)
  case ofPath =>
    intro path other hid
    obtain ⟨module, hmodule, hsame⟩ := hwf.ofPath path other hid
    rw [module?_updateModule, hmodule]
    by_cases hother : id = other
    · rw [if_pos hother]
      exact ⟨change module, rfl, path_eq_of_asRead (hrest module) ▸ hsame⟩
    · rw [if_neg hother]
      exact ⟨module, rfl, hsame⟩
  case resolver => exact hwf.resolver

/-- Changing a module without including or requesting anything is quiet. -/
theorem quiet_updateModule (graph : Graph) (id : Nat) {change : Module → Module}
    (hrest : ∀ module, (change module).asRead = module.asRead)
    (hstatements : ∀ module, (change module).statements = module.statements)
    (hrequested : ∀ module, (change module).requested = module.requested) :
    graph.Quiet (graph.updateModule id change) := by
  have hincludes : ∀ module index, (change module).Includes index ↔ module.Includes index := by
    intro module index
    unfold Module.Includes Module.statement?
    rw [hstatements]
  constructor
  case toExtends =>
    refine extends_updateModule fun module _ => ⟨hrest module, fun index h => ?_, fun name h => ?_⟩
    · exact (hincludes module index).mpr h
    · exact hrequested module ▸ h
  case includes =>
    rintro address ⟨module, hmodule, h⟩
    rcases module?_updateModule_cases hmodule with hold | ⟨-, earlier, hearlier, rfl⟩
    · exact ⟨module, hold, h⟩
    · exact ⟨earlier, hearlier, (hincludes earlier _).mp h⟩
  case requested =>
    rintro other name ⟨module, hmodule, h⟩
    rcases module?_updateModule_cases hmodule with hold | ⟨-, earlier, hearlier, rfl⟩
    · exact ⟨module, hold, h⟩
    · exact ⟨earlier, hearlier, hrequested earlier ▸ h⟩
  case wellFormed =>
    exact wellFormed_updateModule hrest

end Graph

end ScriptBundler
