import ScriptBundler.Proofs.Graph.Reached
import ScriptBundler.Proofs.Graph.Tracing
import ScriptBundler.Proofs.Script.BindingNames

/-!
# Where suggested names come from

Default exports and whole modules have no names of their own.  Their importers suggest names for
them: the local name of the import, or what has been suggested for it in its turn, so that a hint is
handed on from re-export to re-export.  The default export of a module that is imported as a whole
is called after that, with an ending.

A local name is given by an import declaration, and then strict code can bind it, or it is the name
that a re-export passes on, and then it can be any text.  In every reached graph each suggested name
is such a local name with some endings, and whole modules that become objects have one.
-/

namespace ScriptBundler

open Files ScriptBundler.Module Script

/-- A name with as many endings as a hint picks up on its way. -/
def suffixed : Nat → String → String
  | 0, name => name
  | times + 1, name => suffixed times name ++ "__default"

namespace Module

variable {module other : Module} {name : String} {entry : Import}

/-- Whether an import is of what its source gives no name: the default export, or the whole. -/
def Import.isNameless (entry : Import) : Bool :=
  entry.isDefault || entry.isNamespace

/-- Whether an import declaration of a module names something that is nameless in its source. -/
def Declares (module : Module) (name : String) : Prop :=
  ∃ form ∈ module.statements.map (·.form), ∃ entry, (name, entry) ∈ declaredEntries form ∧
    entry.isNameless = true

/-- Whether a re-export of a module passes on under a name what is nameless in its source. -/
def PassesOn (module : Module) (name : String) : Prop :=
  ∃ form ∈ module.statements.map (·.form), ∃ entry, (name, entry) ∈ reexportEntries form ∧
    entry.isNameless = true

theorem forms_eq_of_asRead (hrest : other.asRead = module.asRead) :
    other.statements.map (·.form) = module.statements.map (·.form) := by
  have hforms := congrArg (fun found : Module => found.statements.map (·.form)) hrest
  simp only [asRead, List.map_map] at hforms
  exact hforms

/-- The forms of the statements of a module are those that its source has been parsed into. -/
theorem Sourced.exists_forms (hsourced : module.Sourced) :
    ∃ source tree, parse source = .ok tree ∧
      module.statements.map (·.form) = tree.items.map (·.form) := by
  obtain ⟨path, source, earlier, hsource, hrest⟩ := hsourced
  obtain ⟨tree, hparse, rfl⟩ := ofSource_eq_ofTree hsource
  exact ⟨source, tree, hparse, (forms_eq_of_asRead hrest).trans (ofTree_forms path source tree)⟩

/-- An import of something nameless stems from an import declaration or a re-export. -/
theorem Sourced.declares_or_passesOn (hsourced : module.Sourced)
    (hentry : module.imports.get? name = some entry) (hnameless : entry.isNameless = true) :
    module.Declares name ∨ module.PassesOn name := by
  obtain ⟨path, source, earlier, hsource, hrest⟩ := hsourced
  obtain ⟨tree, -, rfl⟩ := ofSource_eq_ofTree hsource
  obtain ⟨old, hold, -, hname⟩ := get?_imports_eq_some_of_asRead hrest.symm hentry
  have hsame : old.isNameless = true := by
    rwa [Import.isNameless, Import.isDefault, Import.isNamespace, hname]
  rw [ofTree_imports] at hold
  obtain ⟨statement, hstatement, hmem⟩ := List.mem_flatMap.mp (Table.mem_of_get?_setAll hold)
  have hform := forms_eq_of_asRead hrest ▸ List.mem_map_of_mem hstatement
  rw [importEntries_eq_append] at hmem
  exact (List.mem_append.mp hmem).imp (fun h => ⟨_, hform, old, h, hsame⟩)
    fun h => ⟨_, hform, old, h, hsame⟩

/-- Strict code can bind what an import declaration calls something nameless. -/
theorem Declares.isBindingName (hdeclares : module.Declares name) (hsourced : module.Sourced) :
    isBindingName name = true := by
  obtain ⟨source, tree, hparse, hforms⟩ := hsourced.exists_forms
  obtain ⟨form, hform, entry, hentry, hnameless⟩ := hdeclares
  rw [hforms] at hform
  obtain ⟨item, hitem, rfl⟩ := List.mem_map.mp hform
  have hsound := parse_sound hparse item hitem
  cases hkind : item.form with
  | importDecl specifiers from_ =>
      rw [hkind] at hentry hsound
      obtain ⟨specifier, hspecifier, heq⟩ := List.mem_map.mp hentry
      have hproper := hsound specifier hspecifier
      rcases specifier with ⟨_ | imported, id⟩ | id | id
      · -- a name that is bound as it is exported is no mark for something nameless
        obtain ⟨hnamed, hreserved⟩ := hproper
        obtain ⟨rfl, rfl⟩ := Prod.mk.inj heq
        rcases Bool.or_eq_true_iff.mp hnameless with hdefault | hwhole
        · rw [show id.name = "default" from beq_iff_eq.mp hdefault] at hreserved
          exact absurd hreserved (by decide)
        · rw [show id.name = "*" from beq_iff_eq.mp hwhole] at hnamed
          exact absurd hnamed (by decide)
      all_goals
        obtain ⟨rfl, -⟩ := Prod.mk.inj heq
        exact hproper
  | _ =>
      rw [hkind] at hentry
      exact absurd hentry List.not_mem_nil

end Module

namespace Graph

variable {graph before after : Graph} {id : Nat} {importer module : Module} {name text : String}
  {entry : Import} {target : Target}

/-- Whether some module gives a local name to something nameless. -/
def Lends (graph : Graph) (name : String) : Prop :=
  ∃ id module, graph.module? id = some module ∧ (module.Declares name ∨ module.PassesOn name)

/-- Whether a name can be suggested: it is such a local name, with some endings. -/
def Suggests (graph : Graph) (text : String) : Prop :=
  ∃ name times, graph.Lends name ∧ text = suffixed times name

theorem Lends.mono (hextends : before.Extends after) (hlends : before.Lends name) :
    after.Lends name := by
  obtain ⟨id, module, hmodule, hgiven⟩ := hlends
  obtain ⟨later, hlater, hgrows⟩ := hextends.module id module hmodule
  have hforms := forms_eq_of_asRead hgrows.asRead
  refine ⟨id, later, hlater, ?_⟩
  unfold Module.Declares Module.PassesOn
  rw [hforms]
  exact hgiven

theorem Suggests.mono (hextends : before.Extends after) (hsuggests : before.Suggests text) :
    after.Suggests text := by
  obtain ⟨name, times, hlends, heq⟩ := hsuggests
  exact ⟨name, times, hlends.mono hextends, heq⟩

theorem Suggests.ending (hsuggests : graph.Suggests text) :
    graph.Suggests (text ++ "__default") := by
  obtain ⟨name, times, hlends, rfl⟩ := hsuggests
  exact ⟨name, times + 1, hlends, rfl⟩

/-- Whether all names that have been suggested stem from local names, and modules that are imported
as a whole have one. -/
structure Hinted (graph : Graph) : Prop where
  sourced : ∀ id module, graph.module? id = some module → module.Sourced
  module : ∀ id module key text, graph.module? id = some module →
    module.suggestedNames.get? key = some text → graph.Suggests text
  external : ∀ id external key text, graph.external? id = some external →
    external.suggestedNames.get? key = some text → graph.Suggests text
  wholes : ∀ id ∈ graph.namespaces, ∃ module text, graph.module? id = some module ∧
    module.suggestedNames.get? "*" = some text

theorem hinted_empty : Graph.empty.Hinted where
  sourced := by simp [module?, empty]
  module := by simp [module?, empty]
  external := by simp [external?, empty]
  wholes := by simp [empty]

/-- A module has grown.  What had been suggested for it is so still, and all that is new is a name
that can be suggested. -/
theorem Hinted.updateModule (hhinted : graph.Hinted) (id : Nat) {change : Module → Module}
    (hgrows : ∀ module : Module, module.Grows (change module))
    (hkept : ∀ (module : Module) key text, module.suggestedNames.get? key = some text →
      (change module).suggestedNames.get? key = some text)
    (hnew : ∀ module key text, (change module).suggestedNames.get? key = some text →
      module.suggestedNames.get? key = some text ∨ graph.Suggests text) :
    (graph.updateModule id change).Hinted := by
  have hextends : graph.Extends (graph.updateModule id change) :=
    extends_updateModule fun module _ => hgrows module
  constructor
  case sourced =>
    intro other later hlater
    rcases module?_updateModule_cases hlater with hold | ⟨-, module, hmodule, rfl⟩
    · exact hhinted.sourced other later hold
    · exact (hhinted.sourced other module hmodule).of_asRead (hgrows module).asRead
  case module =>
    intro other later key text hlater htext
    refine .mono hextends ?_
    rcases module?_updateModule_cases hlater with hold | ⟨-, module, hmodule, rfl⟩
    · exact hhinted.module other later key text hold htext
    · exact (hnew module key text htext).elim
        (hhinted.module other module key text hmodule) fun h => h
  case external =>
    intro other external key text hexternal htext
    exact (hhinted.external other external key text hexternal htext).mono hextends
  case wholes =>
    intro other hother
    obtain ⟨module, text, hmodule, htext⟩ := hhinted.wholes other hother
    rw [module?_updateModule, hmodule]
    split
    · exact ⟨change module, text, rfl, hkept module "*" text htext⟩
    · exact ⟨module, text, rfl, htext⟩

theorem Hinted.updateExternal (hhinted : graph.Hinted) (id : Nat) {change : External → External}
    (hnew : ∀ external key text, (change external).suggestedNames.get? key = some text →
      external.suggestedNames.get? key = some text ∨ graph.Suggests text) :
    (graph.updateExternal id change).Hinted := by
  have hextends : graph.Extends (graph.updateExternal id change) := .of_modules_eq rfl rfl
  refine ⟨hhinted.sourced, fun other module key text hmodule htext =>
    (hhinted.module other module key text hmodule htext).mono hextends, ?_, hhinted.wholes⟩
  intro other later key text hlater htext
  refine .mono hextends ?_
  rw [external?_updateExternal] at hlater
  split at hlater
  · obtain ⟨external, hexternal, rfl⟩ := Option.map_eq_some_iff.mp hlater
    exact (hnew external key text htext).elim
      (hhinted.external other external key text hexternal) fun h => h
  · exact hhinted.external other later key text hlater htext

/-- Suggesting a name that can be suggested. -/
theorem Hinted.suggest (hhinted : graph.Hinted) (target : Target) (exported : String)
    (hsuggests : graph.Suggests text) : (graph.suggest target exported text).Hinted := by
  have hcases : ∀ (table : Table String) key found,
      (table.setNew exported text).get? key = some found →
        table.get? key = some found ∨ graph.Suggests found := by
    intro table key found hfound
    rw [Table.get?_setNew] at hfound
    split at hfound
    · cases hold : table.get? exported with
      | none =>
          rw [hold] at hfound
          exact Or.inr (Option.some.inj hfound ▸ hsuggests)
      | some old =>
          rename_i hkey
          rw [hold] at hfound
          exact Or.inl (hkey ▸ Option.some.inj hfound ▸ hold)
    · exact Or.inl hfound
  cases target with
  | external id => exact hhinted.updateExternal id fun external => hcases external.suggestedNames
  | internal id =>
      refine hhinted.updateModule id (fun module => ⟨asRead_suggest module _ _, fun _ h => h,
        fun _ h => h⟩) ?_ fun module => hcases module.suggestedNames
      intro module key found hfound
      show (module.suggestedNames.setNew exported text).get? key = some found
      rw [Table.get?_setNew]
      split
      · rename_i hkey
        subst hkey
        rw [hfound]
        rfl
      · exact hfound

/-- No name has been suggested yet for a module that has just been read. -/
theorem Hinted.read (hhinted : graph.Hinted) {path : Path} {source : List Char}
    (hsource : Module.ofSource path source = .ok module) :
    (graph.addModule path module).Hinted := by
  have hextends := graph.extends_addModule path module
  constructor
  case sourced =>
    intro other later hlater
    rw [module?_addModule] at hlater
    split at hlater
    · obtain rfl := Option.some.inj hlater
      exact .of_ofSource hsource
    · exact hhinted.sourced other later hlater
  case module =>
    intro other later key text hlater htext
    rw [module?_addModule] at hlater
    split at hlater
    · obtain rfl := Option.some.inj hlater
      obtain ⟨tree, -, rfl⟩ := ofSource_eq_ofTree hsource
      contradiction
    · exact (hhinted.module other later key text hlater htext).mono hextends
  case external =>
    intro other external key text hexternal htext
    exact (hhinted.external other external key text hexternal htext).mono hextends
  case wholes =>
    intro other hother
    obtain ⟨found, text, hfound, htext⟩ := hhinted.wholes other hother
    refine ⟨found, text, ?_, htext⟩
    rw [module?_addModule, if_neg (ne_length_of_module? hfound), hfound]

theorem Hinted.register (hhinted : graph.Hinted) (specifier : String) :
    (graph.addExternal specifier).Hinted := by
  have hextends : graph.Extends (graph.addExternal specifier) := .of_modules_eq rfl rfl
  refine ⟨hhinted.sourced, fun other module key text hmodule htext =>
    (hhinted.module other module key text hmodule htext).mono hextends, ?_, hhinted.wholes⟩
  intro other later key text hlater htext
  rw [external?_addExternal] at hlater
  split at hlater
  · obtain rfl := Option.some.inj hlater
    contradiction
  · exact (hhinted.external other later key text hlater htext).mono hextends

/-- A module for which a name has been suggested becomes an object. -/
theorem Hinted.addNamespace (hhinted : graph.Hinted) (hmodule : graph.module? id = some module)
    (htext : module.suggestedNames.get? "*" = some text) : (graph.addNamespace id).Hinted := by
  have hwholes : ∀ other ∈ (graph.addNamespace id).namespaces, ∃ module text,
      graph.module? other = some module ∧ module.suggestedNames.get? "*" = some text := by
    intro other hother
    rcases (graph.mem_addNamespace id other).mp hother with hold | rfl
    · exact hhinted.wholes other hold
    · exact ⟨module, text, hmodule, htext⟩
  unfold Graph.addNamespace at hwholes ⊢
  split
  · exact hhinted
  · rename_i hnew
    rw [if_neg hnew] at hwholes
    exact ⟨hhinted.sourced, hhinted.module, hhinted.external, hwholes⟩

/-! ## Following imports -/

theorem link_suggestedNames (module : Module) (name : String) (target : Target) :
    (module.link name target).suggestedNames = module.suggestedNames := by
  unfold Module.link
  split <;> rfl

theorem grows_link (module : Module) (name : String) (target : Target) :
    module.Grows (module.link name target) := by
  refine ⟨asRead_link module name target, fun index h => ?_, fun asked h => ?_⟩
  · unfold Module.Includes Module.statement? at h ⊢
    rwa [link_statements]
  · rwa [link_requested]

/-- An import of something nameless comes with a name that can be suggested: one that has been
suggested for it, or its local name. -/
theorem Hinted.suggests_of_import (hhinted : graph.Hinted)
    (hmodule : graph.module? id = some module) (hentry : module.imports.get? name = some entry)
    (hnameless : entry.isNameless = true) :
    graph.Suggests ((module.suggestedNames.get? name).getD name) := by
  cases htext : module.suggestedNames.get? name with
  | some text => exact hhinted.module id module name text hmodule htext
  | none =>
      have hgiven := (hhinted.sourced id module hmodule).declares_or_passesOn hentry hnameless
      exact ⟨name, 0, ⟨id, module, hmodule, hgiven⟩, rfl⟩

theorem Hinted.follow (hhinted : graph.Hinted) (hmodule : graph.module? id = some module)
    (hsuggested : importer.suggestedNames = module.suggestedNames)
    (hentry : module.imports.get? name = some entry) (target : Target) :
    (graph.follow id importer name entry target).Hinted := by
  have hlinked : (graph.updateModule id (·.link name target)).Hinted :=
    hhinted.updateModule id (grows_link · name target)
      (fun module key text h => link_suggestedNames module name target ▸ h)
      fun module key text h => Or.inl (link_suggestedNames module name target ▸ h)
  have hlinks : graph.Extends (graph.updateModule id (·.link name target)) :=
    extends_updateModule fun module _ => grows_link module name target
  have hsuggests : entry.isNameless = true → (graph.updateModule id (·.link name target)).Suggests
      ((importer.suggestedNames.get? name).getD name) := by
    intro hnameless
    rw [hsuggested]
    exact (hhinted.suggests_of_import hmodule hentry hnameless).mono hlinks
  unfold Graph.follow
  dsimp only
  generalize graph.updateModule id (·.link name target) = linked at *
  generalize (importer.suggestedNames.get? name).getD name = suggestion at *
  have hnamed : (if entry.isDefault = true then linked.suggest target "default" suggestion
      else linked).Hinted := by
    split
    · rename_i hdefault
      exact hlinked.suggest target "default" (hsuggests (Bool.or_eq_true_iff.mpr (Or.inl hdefault)))
    · exact hlinked
  have hnames : linked.Extends
      (if entry.isDefault = true then linked.suggest target "default" suggestion else linked) := by
    split
    · exact (Build.quiet_suggest linked target "default" suggestion).toExtends
    · exact .refl linked
  generalize (if entry.isDefault = true then _ else linked) = named at hnamed hnames ⊢
  split
  · rename_i hwhole
    have hgiven := (hsuggests (Bool.or_eq_true_iff.mpr (Or.inr hwhole))).mono hnames
    refine (hnamed.suggest target "*" hgiven).suggest target "default" (hgiven.ending.mono ?_)
    exact (Build.quiet_suggest named target "*" suggestion).toExtends
  · exact hnamed

/-- Following an import of a whole module suggests a name for that. -/
theorem exists_hint_follow {exporter : Module} {exporterId : Nat}
    (hwhole : entry.isNamespace = true)
    (hexporter : (graph.follow id importer name entry (.internal exporterId)).module? exporterId =
      some exporter) : ∃ text, exporter.suggestedNames.get? "*" = some text := by
  unfold Graph.follow at hexporter
  dsimp only at hexporter
  rw [if_pos hwhole, Graph.suggest, module?_updateModule, if_pos rfl, Graph.suggest,
    module?_updateModule, if_pos rfl, Option.map_map] at hexporter
  obtain ⟨earlier, -, rfl⟩ := Option.map_eq_some_iff.mp hexporter
  generalize (importer.suggestedNames.get? name).getD name = suggestion
  refine ⟨(earlier.suggestedNames.get? "*").getD suggestion, ?_⟩
  show ((earlier.suggestedNames.setNew "*" suggestion).setNew "default" _).get? "*" = some _
  rw [Table.get?_setNew, if_neg (by decide), Table.get?_setNew, if_pos rfl]

end Graph

namespace Build

variable {disk : Disk} {before : Progress} {id : Nat} {importer module : Module} {name : String}
  {entry : Import} {target : Target}

theorem hinted_targetNeed (hhinted : before.graph.Hinted)
    (hmodule : before.graph.module? id = some module)
    (hsuggested : importer.suggestedNames = module.suggestedNames)
    (hentry : module.imports.get? name = some entry) :
    Leaves Graph.Hinted Graph.Hinted ((targetNeed importer entry target).run
      { before with graph := before.graph.follow id importer name entry target }) := by
  have hfollowed := hhinted.follow hmodule hsuggested hentry target
  cases target with
  | external number =>
      rw [targetNeed, run_change_bind]
      refine leaves_pure _ (hfollowed.updateExternal number fun external key text h => Or.inl ?_)
      unfold External.request at h
      split at h <;> exact h
  | internal exporterId =>
      rw [targetNeed, run_get_bind]
      split
      · exact leaves_pure _ hfollowed
      · rename_i exporter hexporter
        split
        · rename_i hwhole
          rw [run_report_bind, run_change_bind]
          obtain ⟨text, htext⟩ := Graph.exists_hint_follow hwhole hexporter
          exact leaves_pure _ (hfollowed.addNamespace hexporter htext)
        · split
          · exact leaves_pure _ hfollowed
          · exact leaves_throw _ hfollowed

/-- Expansion suggests only names that stem from local names. -/
theorem upkeep_hinted (disk : Disk) : Upkeep disk Graph.Hinted Graph.Hinted where
  weaken := fun _ h => h
  mark := fun _ address hhinted => hhinted.updateModule address.module
    (grows_includeStatement · address.index) (fun _ _ _ h => h) fun _ _ _ h => Or.inl h
  look := by
    intro before id module name hmodule _ hhinted
    have hasked : (before.graph.updateModule id (·.request name)).Hinted :=
      hhinted.updateModule id (grows_request · name) (fun _ _ _ h => h) fun _ _ _ h => Or.inl h
    refine leaves_need (fun _ _ _ h => ⟨h.sourced, h.module, h.external, h.wholes⟩)
      (fun _ _ _ _ hfound h => h.read (disk.module_eq_ok hfound).choose_spec.2)
      (fun _ specifier _ h => h.register specifier) ?_ hmodule hasked
    intro entry target after hentry _ hafter himporter
    exact hinted_targetNeed hafter himporter rfl hentry

end Build

namespace Graph

theorem lasting_hinted (disk : Disk) : Lasting disk Hinted where
  empty := hinted_empty
  resolve := fun _ _ _ h => ⟨h.sourced, h.module, h.external, h.wholes⟩
  read := fun _ _ _ _ hmodule h => h.read (disk.module_eq_ok hmodule).choose_spec.2
  register := fun _ specifier _ h => h.register specifier
  upkeep := Build.upkeep_hinted disk

end Graph

end ScriptBundler
