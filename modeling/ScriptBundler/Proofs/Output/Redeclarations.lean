import ScriptBundler.Proofs.Output.Objects
import ScriptBundler.Proofs.Output.Writes

/-!
# Declarations that are repeated

Several statements of a module may declare the same name.  The index of definitions knows the last
of them only, so that a statement that depends on the name brings that one.  The others are in the
bundle if something else brings them: the module is taken as a whole, or they modify what a
statement in the bundle defines, or they are the last to declare another name that is needed.
-/

namespace ScriptBundler

open Files Script ScriptBundler.Module

namespace Module

variable {module : Module} {name : String} {position : Nat} {statement : Statement}

/-- What a module takes for a modifier of a name may modify it. -/
theorem Sourced.modifies_of_mem (hsourced : module.Sourced)
    (hmodifier : position ∈ module.modifiersOf name) :
    ∃ statement, module.statement? position = some statement ∧ name ∈ statement.modifies := by
  obtain ⟨path, source, earlier, hsource, hrest⟩ := hsourced
  obtain ⟨tree, -, rfl⟩ := ofSource_eq_ofTree hsource
  rw [modifiersOf_eq_of_asRead hrest] at hmodifier
  obtain ⟨found, hmem, rfl, hname⟩ := mem_modificationTable.mp hmodifier
  obtain ⟨later, hlater, heq⟩ := statement?_of_asRead hrest (statement?_index_of_mem hmem)
  exact ⟨later, hlater, (congrArg Statement.modifies heq :) ▸ hname⟩

/-- A statement that defines a name is neither an import nor an export list. -/
theorem Sourced.plain_of_mem_defines (hsourced : module.Sourced)
    (hstatement : module.statement? position = some statement) (hname : name ∈ statement.defines) :
    isImport statement.form = false ∧ listedNames statement.form = [] := by
  have hvoid := hsourced.isVoid_of_mem_defines hstatement hname
  generalize statement.form = form at hvoid
  cases form with
  | importDecl | exportList => contradiction
  | _ => exact ⟨rfl, rfl⟩

end Module

namespace Bundle

variable {bundle : Bundle} {id position : Nat} {module : Module} {name : String}
  {statement : Statement}

/-- Whether something other than a mention of a name brings a statement that declares the name. -/
inductive BringsOtherwise (bundle : Bundle) (id : Nat) (module : Module) (name : String)
    (position : Nat) (statement : Statement) : Prop where
  /-- The module is the entry module, or is imported as a whole. -/
  | whole (hwhole : id = bundle.entry ∨ id ∈ bundle.graph.namespaces)
  /-- The statement may modify what an included one defines. -/
  | modifies {index : Nat} {definer : Statement} {other : String}
      (hdefiner : module.statement? index = some definer) (hdefines : other ∈ definer.defines)
      (hincludes : bundle.graph.Includes ⟨id, index⟩) (hmodifies : other ∈ statement.modifies)
  /-- The statement is the last one that declares another name, which is needed. -/
  | declares {other : String} (hother : other ≠ name) (hdefault : other ≠ "default")
      (hown : module.imports.get? other = none) (hdeclares : other ∈ statement.defines)
      (hlast : module.LastDeclares other position)
      (hrequested : bundle.graph.Requested id other)
  /-- The statement is the default export, which is needed, and gives it no name. -/
  | exports {entry : Export} (hown : module.imports.get? "default" = none)
      (hentry : module.exports.get? "default" = some entry)
      (hdeclared : entry.isDeclaration = false) (hposition : entry.statement = some position)
      (hrequested : bundle.graph.Requested id "default")

/-- A module that is demanded as a whole is the entry module, or is imported as a whole. -/
theorem Built.whole_of_demanded (hbuilt : bundle.Built) {isEntry : Bool}
    (hdemanded : bundle.graph.Demanded [.everything bundle.entry true] (.everything id isEntry)) :
    id = bundle.entry ∨ id ∈ bundle.graph.namespaces := by
  cases hdemanded with
  | requested hdemand =>
      obtain ⟨rfl, -⟩ := Demand.everything.inj (List.mem_singleton.mp hdemand)
      exact Or.inl rfl
  | called hdemand hcalls =>
      cases hcalls with
      | wholeImport hmodule hentry hwhole hleads =>
          -- the import has been asked for, so it has been followed to this module
          obtain ⟨other, hother, hrequested⟩ := hbuilt.complete.marks hdemand
          obtain rfl := Option.some.inj (hmodule.symm.trans hother)
          obtain ⟨target, htarget⟩ := hbuilt.traced.traced _ _ _ _ hmodule hrequested hentry
          obtain ⟨-, hlinks⟩ := hbuilt.traced.links _ _ _ _ _ hmodule hentry htarget
          unfold Graph.leadsTo at hleads
          cases target with
          | external number =>
              obtain ⟨hresolve, -⟩ := hlinks
              rw [hresolve] at hleads
              contradiction
          | internal number =>
              obtain ⟨path, hresolve, hid, hwholes⟩ := hlinks
              rw [hresolve] at hleads
              obtain rfl := Option.some.inj (hid.symm.trans hleads)
              exact Or.inr (hwholes hwhole)

/-- A statement that declares a needed name is in the bundle exactly if it is the last one that
declares the name, or something else brings it.  A mention of `default` brings no declaration, but
the default export. -/
theorem Built.mem_statements_iff (hbuilt : bundle.Built)
    (hmodule : bundle.graph.module? id = some module)
    (hown : module.imports.get? name = none) (hrequested : bundle.graph.Requested id name)
    (hstatement : module.statement? position = some statement)
    (hdeclares : name ∈ statement.defines) :
    ⟨id, position⟩ ∈ bundle.statements ↔
      name ≠ "default" ∧ module.LastDeclares name position ∨
        bundle.BringsOtherwise id module name position statement := by
  have hsourced := hbuilt.traced.sourced _ _ hmodule
  have hwf := hbuilt.complete.wellFormed.module _ _ hmodule
  obtain ⟨himport, hlisted⟩ := hsourced.plain_of_mem_defines hstatement hdeclares
  have hget : bundle.graph.statement? ⟨id, position⟩ = some statement :=
    Graph.statement?_eq_some_iff.mpr ⟨module, hmodule, hstatement⟩
  have hsame : ∀ other, bundle.graph.module? id = some other → other = module := fun other h =>
    Option.some.inj (h.symm.trans hmodule)
  rw [hbuilt.statements]
  constructor
  · -- only what is called for is included, and each way to call for it is one reason
    rintro ⟨hincludes, -⟩
    have hdemanded := hbuilt.complete.includes _ hincludes
    cases hdemanded with
    | requested hdemand => simp at hdemand
    | called hdemand hcalls =>
        have hmarks := hbuilt.complete.marks hdemand
        cases hcalls with
        | plain => exact Or.inr (.whole (hbuilt.whole_of_demanded hdemand))
        | listing hfound hlisting =>
            obtain rfl := Option.some.inj (hget.symm.trans hfound)
            exact absurd hlisted hlisting
        | modifier hfound hdefines hother hindex =>
            obtain rfl := hsame _ hother
            obtain ⟨found, hposition, hmodifies⟩ := hsourced.modifies_of_mem hindex
            obtain rfl := Option.some.inj (hstatement.symm.trans hposition)
            obtain ⟨other, hmodule', hdefiner⟩ := Graph.statement?_eq_some_iff.mp hfound
            obtain rfl := hsame _ hmodule'
            exact Or.inr (.modifies hdefiner hdefines hmarks hmodifies)
        | @definition _ _ other _ hfound hown' hdefault hindex =>
            obtain rfl := hsame _ hfound
            obtain ⟨⟨found, hposition, hdefines⟩, hlast⟩ :=
              (hsourced.get?_definitions_iff hwf).mp hindex
            obtain rfl := Option.some.inj (hstatement.symm.trans hposition)
            by_cases hother : other = name
            · exact Or.inl (hother ▸ ⟨hdefault, hlast⟩)
            · exact Or.inr (.declares hother hdefault hown' hdefines hlast hmarks)
        | defaultStatement hfound hown' hentry hdeclared hindex =>
            obtain rfl := hsame _ hfound
            exact Or.inr (.exports hown' hentry hdeclared hindex hmarks)
  · intro hreason
    refine ⟨?_, ⟨statement, hget, hlisted⟩⟩
    have hcalls : ∀ demand, bundle.graph.Marks demand →
        bundle.graph.Calls demand (.statement ⟨id, position⟩) →
        bundle.graph.Includes ⟨id, position⟩ := fun demand hmarks hcalls =>
      (hbuilt.complete.settled demand hmarks).calls _ hcalls
    rcases hreason with ⟨hname, hlast⟩ | hbrings
    · exact hcalls (.name id name) hrequested (.definition hmodule hown hname
        ((hsourced.get?_definitions_iff hwf).mpr ⟨⟨statement, hstatement, hdeclares⟩, hlast⟩))
    cases hbrings with
    | whole hwhole =>
        rcases hwhole with rfl | hwhole
        · exact hcalls _ (hbuilt.complete.marked _ List.mem_cons_self) (.plain hget himport hlisted)
        · exact hcalls _ (hbuilt.marks_namespace hwhole) (.plain hget himport hlisted)
    | modifies hdefiner hdefines hincludes hmodifies =>
        exact hcalls (.statement _) hincludes
          (.modifier (Graph.statement?_eq_some_iff.mpr ⟨module, hmodule, hdefiner⟩) hdefines hmodule
            (hsourced.mem_modifiersOf hstatement hmodifies))
    | declares hother hdefault hown' hdefines hlast hneeded =>
        exact hcalls (.name id _) hneeded (.definition hmodule hown' hdefault
          ((hsourced.get?_definitions_iff hwf).mpr ⟨⟨statement, hstatement, hdefines⟩, hlast⟩))
    | exports hown' hentry hdeclared hposition hneeded =>
        exact hcalls (.name id _) hneeded
          (.defaultStatement hmodule hown' hentry hdeclared hposition)

/-- If a statement in a bundle depends on a name that its module declares, then the bundle has the
last statement that declares the name, and of the others those that something else brings. -/
theorem mem_statements_iff_of_dependsOn {disk : Disk} {entry : Path} {log later : List Log.Entry}
    (hbuild : (build disk entry).run log = .ok bundle later)
    (hmodule : bundle.graph.module? id = some module) {index : Nat} {user : Statement}
    (huser : module.statement? index = some user) (hincludes : bundle.graph.Includes ⟨id, index⟩)
    (hdepends : name ∈ user.dependsOn) (hown : module.imports.get? name = none)
    (hstatement : module.statement? position = some statement)
    (hdeclares : name ∈ statement.defines) :
    ⟨id, position⟩ ∈ bundle.statements ↔
      name ≠ "default" ∧ module.LastDeclares name position ∨
        bundle.BringsOtherwise id module name position statement := by
  have hbuilt := built_of_build hbuild
  have hcalls : bundle.graph.Calls (.statement ⟨id, index⟩) (.name id name) :=
    .dependency (Graph.statement?_eq_some_iff.mpr ⟨module, hmodule, huser⟩) hdepends
  have hrequested : bundle.graph.Marks (.name id name) :=
    (hbuilt.complete.settled (.statement ⟨id, index⟩) hincludes).calls _ hcalls
  exact hbuilt.mem_statements_iff hmodule hown hrequested hstatement hdeclares

/-- A module that declares a name twice, and another one along with the first declaration. -/
def companionDisk : Disk where
  workingDirectory := []
  files := [(["main.js"], .text "import \x7b b \x7d from './lib';\nexport var r = b;\n".toList),
    (["lib.js"], .text "var a = 1, c = 2;\nvar a;\nexport var b = [a, c];\n".toList)]
  directories := []

/-- The first declaration is in the bundle because of the other name. -/
theorem mem_statements_companionDisk : ∃ bundle log,
    (build companionDisk ⟨"main.js"⟩).run [] = .ok bundle log ∧
      ⟨1, 0⟩ ∈ bundle.statements ∧ ⟨1, 1⟩ ∈ bundle.statements := by
  obtain ⟨bundle, log, hbuild, hcheck⟩ := exists_of_passes companionDisk ⟨"main.js"⟩
    (fun bundle => decide (⟨1, 2⟩ ∈ bundle.statements ∧ ∃ module ∈ bundle.graph.module? 1,
      module.imports = [] ∧ module.definitions.get? "a" = some 1 ∧
        module.definitions.get? "c" = some 0 ∧ "c" ∈ module.requested ∧
        (∃ user ∈ module.statement? 2, "a" ∈ user.dependsOn) ∧
        ∃ first ∈ module.statement? 0, "a" ∈ first.defines))
    (by decide +kernel)
  obtain ⟨hmem, module, hmodule, hnone, hlast, hother, hrequested, ⟨user, huser, hdepends⟩, first,
    hfirst, hdeclares⟩ := of_decide_eq_true hcheck
  have hbuilt := built_of_build hbuild
  have hdefinitions : ∀ name position, module.definitions.get? name = some position ↔
      (∃ statement, module.statement? position = some statement ∧ name ∈ statement.defines) ∧
        module.LastDeclares name position := fun name position =>
    (hbuilt.traced.sourced _ _ hmodule).get?_definitions_iff
      (hbuilt.complete.wellFormed.module _ _ hmodule)
  have hown : ∀ name, module.imports.get? name = none := fun name => by rw [hnone]; rfl
  have hincludes := ((hbuilt.statements _).mp hmem).1
  obtain ⟨⟨second, hsecond, hdeclares'⟩, hbehind⟩ := (hdefinitions "a" 1).mp hlast
  obtain ⟨⟨found, hfound, hdefines⟩, hbehind'⟩ := (hdefinitions "c" 0).mp hother
  obtain rfl := Option.some.inj (hfound.symm.trans hfirst)
  refine ⟨bundle, log, hbuild, ?_, ?_⟩
  · exact (mem_statements_iff_of_dependsOn hbuild hmodule huser hincludes hdepends (hown _) hfirst
      hdeclares).mpr (Or.inr (.declares (by decide) (by decide) (hown "c") hdefines hbehind'
        ⟨module, hmodule, hrequested⟩))
  · exact (mem_statements_iff_of_dependsOn hbuild hmodule huser hincludes hdepends (hown _) hsecond
      hdeclares').mpr (Or.inl ⟨by decide, hbehind⟩)

/-- A module that gives a name its value in the first of two declarations. -/
def repeatedDisk : Disk where
  workingDirectory := []
  files := [(["main.js"], .text "import \x7b b \x7d from './lib';\nexport var r = b;\n".toList),
    (["lib.js"], .text "var a = 1;\nvar a;\nexport var b = a;\n".toList)]
  directories := []

/-- The bundle has the other declaration only. -/
theorem not_mem_statements_repeatedDisk : ∃ bundle log,
    (build repeatedDisk ⟨"main.js"⟩).run [] = .ok bundle log ∧
      ∃ module user first, bundle.graph.module? 1 = some module ∧
        module.statement? 2 = some user ∧ ⟨1, 2⟩ ∈ bundle.statements ∧ "a" ∈ user.dependsOn ∧
        module.imports.get? "a" = none ∧ module.statement? 0 = some first ∧ "a" ∈ first.defines ∧
        ⟨1, 0⟩ ∉ bundle.statements := by
  obtain ⟨bundle, log, hbuild, hcheck⟩ := exists_of_passes repeatedDisk ⟨"main.js"⟩
    (fun bundle => decide (∃ module ∈ bundle.graph.module? 1,
      ∃ user ∈ module.statement? 2, ∃ first ∈ module.statement? 0,
        ⟨1, 2⟩ ∈ bundle.statements ∧ "a" ∈ user.dependsOn ∧ module.imports.get? "a" = none ∧
        "a" ∈ first.defines ∧ ⟨1, 0⟩ ∉ bundle.statements))
    (by decide +kernel)
  obtain ⟨module, hmodule, user, huser, first, hfirst, hmem, hdepends, hown, hdeclares, hout⟩ :=
    of_decide_eq_true hcheck
  exact ⟨bundle, log, hbuild, module, user, first, hmodule, huser, hmem, hdepends, hown, hfirst,
    hdeclares, hout⟩

end Bundle
end ScriptBundler
