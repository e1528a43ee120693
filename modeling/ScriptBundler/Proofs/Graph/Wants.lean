import ScriptBundler.Proofs.Graph.Budgets

/-!
# What a project needs

The needs of a project can be told from its files alone.  They start with all of the entry module.
What is needed of a module needs more of it, and an imported name needs what the file that it comes
from exports under its name.  Where a file is no module, or does not export the name, nothing else
is needed: there is a fault.

A graph that has been read from the disk has the same needs: `Graph.Calls` says of its modules what
`Disk.Needs` says of the files.
-/

namespace ScriptBundler

open Files ScriptBundler.Module Script Relation

/-- What can be needed of one module. -/
inductive Portion where
  | statement (index : Nat)
  | name (name : String)
  /-- All of a module, for the entry module with its export lists. -/
  | everything (isEntry : Bool)
deriving Repr, DecidableEq

/-- The demand for a part of the module with a number. -/
def Portion.demand (id : Nat) : Portion → Demand
  | .statement index => .statement ⟨id, index⟩
  | .name text => .name id text
  | .everything isEntry => .everything id isEntry

/-! ## Within a module -/

namespace Module

/-- What a part of a module needs of the same module. -/
inductive Brings (module : Module) : Portion → Portion → Prop where
  | plain {index : Nat} {isEntry : Bool} {statement : Statement}
      (hstatement : module.statement? index = some statement)
      (himport : isImport statement.form = false) (hlisted : listedNames statement.form = []) :
      Brings module (.everything isEntry) (.statement index)
  | listing {index : Nat} {statement : Statement}
      (hstatement : module.statement? index = some statement)
      (hlisted : listedNames statement.form ≠ []) :
      Brings module (.everything true) (.statement index)
  | listed {index : Nat} {statement : Statement} {name : String}
      (hstatement : module.statement? index = some statement)
      (hname : name ∈ listedNames statement.form) : Brings module (.everything true) (.name name)
  | dependency {index : Nat} {statement : Statement} {name : String}
      (hstatement : module.statement? index = some statement)
      (hname : name ∈ statement.dependsOn) : Brings module (.statement index) (.name name)
  | modifier {index modifying : Nat} {statement : Statement} {name : String}
      (hstatement : module.statement? index = some statement)
      (hname : name ∈ statement.defines) (hmodifying : modifying ∈ module.modifiersOf name) :
      Brings module (.statement index) (.statement modifying)
  | declaredDefault {entry : Export} (hown : module.imports.get? "default" = none)
      (hentry : module.exports.get? "default" = some entry)
      (hdeclared : entry.isDeclaration = true) :
      Brings module (.name "default") (.name entry.localName)
  | defaultStatement {entry : Export} {index : Nat}
      (hown : module.imports.get? "default" = none)
      (hentry : module.exports.get? "default" = some entry)
      (hdeclared : entry.isDeclaration = false) (hindex : entry.statement = some index) :
      Brings module (.name "default") (.statement index)
  | definition {name : String} {index : Nat} (hown : module.imports.get? name = none)
      (hname : name ≠ "default") (hindex : module.definitions.get? name = some index) :
      Brings module (.name name) (.statement index)

/-- Whether two modules have been read from the same text, under whatever paths. -/
def Alike (module other : Module) : Prop :=
  ({ other with path := module.path } : Module).asRead = module.asRead

theorem Alike.symm {module other : Module} (halike : module.Alike other) : other.Alike module :=
  (congrArg (fun found : Module => ({ found with path := other.path } : Module)) halike :).symm

/-- Parts of a module need the same of any module that is read from the same text. -/
theorem Brings.of_alike {module other : Module} (halike : module.Alike other)
    {part called : Portion} (hbrings : module.Brings part called) : other.Brings part called := by
  cases hbrings with
  | plain hstatement himport hlisted =>
      obtain ⟨later, hlater, heq⟩ := statement?_of_asRead halike hstatement
      have hform := Statement.form_eq_of_asRead heq
      exact .plain hlater (hform ▸ himport) (hform ▸ hlisted)
  | listing hstatement hlisted =>
      obtain ⟨later, hlater, heq⟩ := statement?_of_asRead halike hstatement
      exact .listing hlater (Statement.form_eq_of_asRead heq ▸ hlisted)
  | listed hstatement hname =>
      obtain ⟨later, hlater, heq⟩ := statement?_of_asRead halike hstatement
      exact .listed hlater (Statement.form_eq_of_asRead heq ▸ hname)
  | dependency hstatement hname =>
      obtain ⟨later, hlater, heq⟩ := statement?_of_asRead halike hstatement
      exact .dependency hlater (Statement.dependsOn_eq_of_asRead heq ▸ hname)
  | modifier hstatement hname hmodifying =>
      obtain ⟨later, hlater, heq⟩ := statement?_of_asRead halike hstatement
      exact .modifier hlater (Statement.defines_eq_of_asRead heq ▸ hname)
        (modifiersOf_eq_of_asRead halike ▸ hmodifying)
  | declaredDefault hown hentry hdeclared =>
      exact .declaredDefault (get?_imports_eq_none_of_asRead halike hown)
        (exports_eq_of_asRead halike ▸ hentry) hdeclared
  | defaultStatement hown hentry hdeclared hindex =>
      exact .defaultStatement (get?_imports_eq_none_of_asRead halike hown)
        (exports_eq_of_asRead halike ▸ hentry) hdeclared hindex
  | definition hown hname hindex =>
      exact .definition (get?_imports_eq_none_of_asRead halike hown) hname
        (definitions_eq_of_asRead halike ▸ hindex)

end Module

namespace Graph

variable {graph : Graph} {id : Nat} {module : Module} {part : Portion} {called : Demand}

/-- What a name that is imported from another module calls for. -/
inductive Passes (graph : Graph) (module : Module) (name : String) : Demand → Prop where
  | whole {entry : Import} {target : Nat} (hentry : module.imports.get? name = some entry)
      (hwhole : entry.name = "*") (htarget : graph.leadsTo module entry = some target) :
      Passes graph module name (.everything target false)
  | named {entry : Import} {target : Nat} {exporter : Module} {exported : Export}
      (hentry : module.imports.get? name = some entry) (hnamed : entry.name ≠ "*")
      (htarget : graph.leadsTo module entry = some target)
      (hexporter : graph.module? target = some exporter)
      (hexported : exporter.exports.get? entry.name = some exported) :
      Passes graph module name (.name target exported.localName)

theorem calls_of_brings (hmodule : graph.module? id = some module) {other : Portion}
    (hbrings : module.Brings part other) : graph.Calls (part.demand id) (other.demand id) := by
  have hget : ∀ index statement, module.statement? index = some statement →
      graph.statement? ⟨id, index⟩ = some statement := fun index statement h =>
    statement?_eq_some_iff.mpr ⟨module, hmodule, h⟩
  cases hbrings with
  | plain hstatement himport hlisted => exact .plain (hget _ _ hstatement) himport hlisted
  | listing hstatement hlisted => exact .listing (hget _ _ hstatement) hlisted
  | listed hstatement hname => exact .listed (hget _ _ hstatement) hname
  | dependency hstatement hname =>
      exact .dependency (hget _ _ hstatement) hname
  | modifier hstatement hname hmodifying =>
      exact .modifier (hget _ _ hstatement) hname hmodule hmodifying
  | declaredDefault hown hentry hdeclared => exact .declaredDefault hmodule hown hentry hdeclared
  | defaultStatement hown hentry hdeclared hindex =>
      exact .defaultStatement hmodule hown hentry hdeclared hindex
  | definition hown hname hindex => exact .definition hmodule hown hname hindex

/-- What a demand calls for is in the same module, or what an import leads to. -/
theorem Calls.cases_module (hmodule : graph.module? id = some module)
    (hcalls : graph.Calls (part.demand id) called) :
    (∃ other : Portion, called = other.demand id ∧ module.Brings part other) ∨
      ∃ name, part = .name name ∧ graph.Passes module name called := by
  have hsame : ∀ found, graph.module? id = some found → found = module := fun found h =>
    Option.some.inj (h.symm.trans hmodule)
  have hget : ∀ index statement, graph.statement? ⟨id, index⟩ = some statement →
      module.statement? index = some statement := by
    intro index statement h
    obtain ⟨found, hfound, hstatement⟩ := statement?_eq_some_iff.mp h
    exact hsame found hfound ▸ hstatement
  cases part with
  | statement index =>
      refine Or.inl ?_
      cases hcalls with
      | dependency hstatement hname =>
          exact ⟨.name _, rfl, .dependency (hget _ _ hstatement) hname⟩
      | modifier hstatement hname hfound hindex =>
          obtain rfl := hsame _ hfound
          exact ⟨.statement _, rfl, .modifier (hget _ _ hstatement) hname hindex⟩
  | everything isEntry =>
      refine Or.inl ?_
      cases hcalls with
      | plain hstatement himport hlisted =>
          exact ⟨.statement _, rfl, .plain (hget _ _ hstatement) himport hlisted⟩
      | listing hstatement hlisted =>
          exact ⟨.statement _, rfl, .listing (hget _ _ hstatement) hlisted⟩
      | listed hstatement hname => exact ⟨.name _, rfl, .listed (hget _ _ hstatement) hname⟩
  | name name =>
      cases hcalls with
      | wholeImport hfound hentry hwhole htarget =>
          obtain rfl := hsame _ hfound
          exact Or.inr ⟨_, rfl, .whole hentry hwhole htarget⟩
      | namedImport hfound hentry hnamed htarget hexporter hexported =>
          obtain rfl := hsame _ hfound
          exact Or.inr ⟨_, rfl, .named hentry hnamed htarget hexporter hexported⟩
      | declaredDefault hfound hown hentry hdeclared =>
          obtain rfl := hsame _ hfound
          exact Or.inl ⟨.name _, rfl, .declaredDefault hown hentry hdeclared⟩
      | defaultStatement hfound hown hentry hdeclared hindex =>
          obtain rfl := hsame _ hfound
          exact Or.inl ⟨.statement _, rfl, .defaultStatement hown hentry hdeclared hindex⟩
      | definition hfound hown hname hindex =>
          obtain rfl := hsame _ hfound
          exact Or.inl ⟨.statement _, rfl, .definition hown hname hindex⟩

end Graph

/-! ## Among the files -/

/-- What can be needed of the files on a disk: a part of the module at a path. -/
structure Want where
  path : Path
  part : Portion
deriving Repr, DecidableEq

namespace Files.Disk

variable {disk : Disk} {entry path target : Path} {want : Want}

/-- Whether a name of a module is imported from the file at a path. -/
def Imports (disk : Disk) (path : Path) (name : String) (imported : Import) (target : Path) :
    Prop :=
  ∃ module, disk.module path = .ok module ∧ module.imports.get? name = some imported ∧
    resolveFrom (directoryOf path) imported.source = .file target

/-- What is needed at once for something that is needed. -/
inductive Needs (disk : Disk) : Want → Want → Prop where
  | own {path : Path} {module : Module} {part other : Portion}
      (hmodule : disk.module path = .ok module) (hbrings : module.Brings part other) :
      Needs disk ⟨path, part⟩ ⟨path, other⟩
  /-- A name for a whole module needs all of it. -/
  | whole {path target : Path} {name : String} {imported : Import}
      (himports : disk.Imports path name imported target) (hwhole : imported.name = "*") :
      Needs disk ⟨path, .name name⟩ ⟨target, .everything false⟩
  /-- Any other imported name needs what is exported under its name. -/
  | named {path target : Path} {name : String} {imported : Import} {exporter : Module}
      {exported : Export} (himports : disk.Imports path name imported target)
      (hnamed : imported.name ≠ "*") (hexporter : disk.module target = .ok exporter)
      (hexported : exporter.exports.get? imported.name = some exported) :
      Needs disk ⟨path, .name name⟩ ⟨target, .name exported.localName⟩

/-- The least set that holds all of the entry module and is closed under needs. -/
def Needed (disk : Disk) (entry : Path) : Want → Prop :=
  ReflTransGen disk.Needs ⟨entry, .everything true⟩

/-- The fault of something that is needed: an imported name comes from a file that is no module, or
from a module that does not export it.  The modules may be told by other texts for their paths. -/
inductive Fails (disk : Disk) : Want → Fault → Prop where
  | unreadable {path target : Path} {name : String} {imported : Import} {fault : Fault}
      (himports : disk.Imports path name imported target)
      (hfault : disk.module target = .error fault) : Fails disk ⟨path, .name name⟩ fault
  | missing {path target importer found : Path} {name : String} {imported : Import}
      {exporter : Module} (himports : disk.Imports path name imported target)
      (hnamed : imported.name ≠ "*") (hexporter : disk.module target = .ok exporter)
      (hmissing : exporter.exports.get? imported.name = none)
      (hfound : found.same target = true) (himporter : importer.same path = true) :
      Fails disk ⟨path, .name name⟩ (.missingExport found imported.name importer)

/-- The paths of the entry module and of the files that needed names are imported from. -/
def Targets (disk : Disk) (entry target : Path) : Prop :=
  target = entry ∨ ∃ path name imported, disk.Needed entry ⟨path, .name name⟩ ∧
    disk.Imports path name imported target

/-- Whether two texts for one path are needed, of which one leads to a module and the other does
not. -/
def Mixed (disk : Disk) (entry : Path) : Prop :=
  ∃ path other, disk.Targets entry path ∧ disk.Targets entry other ∧ path.same other = true ∧
    (∃ module, disk.module path = .ok module) ∧ ∃ fault, disk.module other = .error fault

theorem directoryOf_of_same {path other : Path} (hsame : path.same other = true) :
    directoryOf path = directoryOf other := by
  have hcomponents : path.components = other.components := by simpa [Path.same] using hsame
  unfold directoryOf Path.parent?
  rw [hcomponents]

/-- Two texts for one path lead to the same module, if both lead to one. -/
theorem module_of_same {path other : Path} {first second : Module}
    (hsame : path.same other = true) (hfirst : disk.module path = .ok first)
    (hsecond : disk.module other = .ok second) : first = { second with path := path } := by
  obtain ⟨source, hread, hsource⟩ := disk.module_eq_ok hfirst
  obtain ⟨source', hread', hsource'⟩ := disk.module_eq_ok hsecond
  obtain rfl := Disk.read_of_same hsame hread hread'
  exact Except.ok.inj (hsource.symm.trans (Module.ofSource_other hsource' path))

end Files.Disk

namespace Graph

variable {disk : Disk} {graph before after : Graph} {entry path : Path} {id : Nat} {part : Portion}
  {fresh : Module}

/-- A module of a graph that is read from the disk is what any text for its path leads to. -/
theorem Genuine.view (hgenuine : graph.Genuine disk) (hid : graph.idOf? path = some id)
    (hfresh : disk.module path = .ok fresh) :
    ∃ module, graph.module? id = some module ∧ module.path.same path = true ∧
      module.Alike fresh := by
  obtain ⟨module, hmodule, hsame⟩ := hgenuine.wellFormed.ofPath path id hid
  obtain ⟨found, hfound, hrest⟩ := hgenuine.read id module hmodule
  refine ⟨module, hmodule, hsame, ?_⟩
  rw [Disk.module_of_same hsame hfound hfresh] at hrest
  exact hrest.symm

end Graph

end ScriptBundler
