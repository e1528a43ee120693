import ScriptBundler.Proofs.Graph.Reached
import ScriptBundler.Proofs.Graph.Tracing

/-!
# What external modules know of their imports

An external module notes whether its default export or another one is imported.  Imports are bound
to it one by one, in the order in which expansion comes across them, and some request may fail in
between.  In every reached graph each import that is bound to an external module has left its note
there, and external modules still have the names that are made from their specifiers.
-/

namespace ScriptBundler

open Files ScriptBundler.Module Script

theorem External.name_request (external : External) (exported : String) :
    (external.request exported).name = external.name := by
  unfold External.request
  split <;> rfl

namespace Graph

/-- Whether external modules have the names that are made from their specifiers. -/
def Made (graph : Graph) : Prop :=
  ∀ number external, graph.external? number = some external →
    external.name = Text.madeName external.specifier

/-- Whether external modules know of the imports that are bound to them, and have their first
names. -/
structure Served (graph : Graph) : Prop where
  provides : ∀ id module name entry number, graph.module? id = some module →
    module.imports.get? name = some entry → entry.target = some (.external number) →
    ∃ external, graph.external? number = some external ∧ external.Provides entry.name
  made : graph.Made
  registers : graph.Registers

variable {graph before after : Graph} {id : Nat} {module : Module} {name : String}
  {entry : Import} {target : Target}

theorem served_empty : Graph.empty.Served where
  provides := by simp [module?, empty]
  made := by simp [Made, external?, empty]
  registers := by simp [Registers, externalIdOf?, empty]

/-- A later graph in which external modules know no less, and in which imports that are bound to
them have been so before, or have left their notes. -/
theorem Served.step (hserved : before.Served)
    (hexternal : ∀ number external, before.external? number = some external →
      ∃ later, after.external? number = some later ∧
        ∀ exported, external.Provides exported → later.Provides exported)
    (himports : ∀ id later name entry number, after.module? id = some later →
      later.imports.get? name = some entry → entry.target = some (.external number) →
      (∃ module, before.module? id = some module ∧ module.imports.get? name = some entry) ∨
        ∃ external, after.external? number = some external ∧ external.Provides entry.name)
    (hmade : after.Made) (hregisters : after.Registers) : after.Served := by
  refine ⟨fun id later name entry number hlater hentry htarget => ?_, hmade, hregisters⟩
  rcases himports id later name entry number hlater hentry htarget with
    ⟨module, hmodule, hold⟩ | hnew
  · obtain ⟨external, hfound, hprovides⟩ :=
      hserved.provides id module name entry number hmodule hold htarget
    obtain ⟨later, hlater, hmore⟩ := hexternal number external hfound
    exact ⟨later, hlater, hmore _ hprovides⟩
  · exact hnew

/-- A module has changed, but not what it imports. -/
theorem Served.updateModule (hserved : graph.Served) (id : Nat) {change : Module → Module}
    (himports : ∀ module, (change module).imports = module.imports) :
    (graph.updateModule id change).Served := by
  refine hserved.step (fun number external h => ⟨external, h, fun _ h => h⟩) ?_ hserved.made
    hserved.registers
  intro other later name entry number hlater hentry _
  rcases module?_updateModule_cases hlater with hold | ⟨-, module, hmodule, rfl⟩
  · exact Or.inl ⟨later, hold, hentry⟩
  · exact Or.inl ⟨module, hmodule, himports module ▸ hentry⟩

/-- A module that has just been read has no import that leads anywhere. -/
theorem Served.read (hserved : graph.Served) {path : Path} {source : List Char}
    (hsource : Module.ofSource path source = .ok module) :
    (graph.addModule path module).Served := by
  refine hserved.step (fun number external h => ⟨external, h, fun _ h => h⟩) ?_ hserved.made
    hserved.registers
  intro id later name entry number hlater hentry htarget
  rw [module?_addModule] at hlater
  split at hlater
  · obtain rfl := Option.some.inj hlater
    rw [imports_target hsource hentry] at htarget
    contradiction
  · exact Or.inl ⟨later, hlater, hentry⟩

theorem Served.register (hserved : graph.Served) {specifier : String}
    (hnew : graph.externalIdOf? specifier = none) : (graph.addExternal specifier).Served := by
  refine hserved.step (Widens.register graph hnew).external
    (fun id module name entry _ hmodule hentry _ => Or.inl ⟨module, hmodule, hentry⟩) ?_
    (hserved.registers.addExternal specifier)
  intro number external hexternal
  rw [external?_addExternal] at hexternal
  split at hexternal
  · obtain rfl := Option.some.inj hexternal
    rfl
  · exact hserved.made number external hexternal

theorem Made.updateExternal (hmade : graph.Made) (number : Nat) {change : External → External}
    (hname : ∀ external, (change external).name = external.name)
    (hspecifier : ∀ external, (change external).specifier = external.specifier) :
    (graph.updateExternal number change).Made := by
  intro other later hlater
  rw [external?_updateExternal] at hlater
  split at hlater
  · obtain ⟨external, hexternal, rfl⟩ := Option.map_eq_some_iff.mp hlater
    rw [hname, hspecifier]
    exact hmade other external hexternal
  · exact hmade other later hlater

theorem Made.follow (hmade : graph.Made) (id : Nat) (importer : Module) (name : String)
    (entry : Import) (target : Target) : (graph.follow id importer name entry target).Made :=
  follow_ind Made hmade fun middle exported suggestion h => by
    cases target with
    | internal _ => exact h
    | external number => exact h.updateExternal number (fun _ => rfl) fun _ => rfl

theorem Served.addNamespace (hserved : graph.Served) (id : Nat) :
    (graph.addNamespace id).Served := by
  unfold Graph.addNamespace
  split
  · exact hserved
  · exact ⟨hserved.provides, hserved.made, hserved.registers⟩

/-- An import has been bound, and if it is bound to an external module, that knows of it. -/
theorem Served.link (hserved : before.Served) (hwidens : before.Widens after)
    (hmade : after.Made)
    (hties : after.modules.map Module.ties =
      (before.updateModule id (·.link name target)).modules.map Module.ties)
    (hmodule : before.module? id = some module) (hentry : module.imports.get? name = some entry)
    (hknows : ∀ number, target = .external number →
      ∃ external, after.external? number = some external ∧ external.Provides entry.name) :
    after.Served := by
  refine hserved.step hwidens.external ?_ hmade (hwidens.registers hserved.registers)
  intro other later asked found number hlater hfound htarget
  obtain ⟨earlier, hearlier, -, -, himports⟩ := module?_back_of_link hties hlater
  rw [himports] at hfound
  obtain ⟨old, hold, rfl⟩ := Option.map_eq_some_iff.mp hfound
  by_cases hplace : id = other ∧ name = asked
  · rw [if_pos hplace] at htarget ⊢
    obtain ⟨rfl, rfl⟩ := hplace
    obtain rfl := Option.some.inj (hmodule.symm.trans hearlier)
    obtain rfl := Option.some.inj (hentry.symm.trans hold)
    exact Or.inr (hknows number (Option.some.inj htarget))
  · rw [if_neg hplace]
    exact Or.inl ⟨earlier, hearlier, hold⟩

end Graph

namespace Build

variable {disk : Disk} {before : Progress} {id : Nat} {importer module : Module} {name : String}
  {entry : Import} {target : Target}

/-- An import is bound to an external module and noted there in one go. -/
theorem served_targetNeed (hserved : before.graph.Served)
    (hmodule : before.graph.module? id = some module)
    (hentry : module.imports.get? name = some entry)
    (htarget : ∀ number, target = .external number →
      ∃ external, before.graph.external? number = some external) :
    Leaves Graph.Served Graph.Served ((targetNeed importer entry target).run
      { before with graph := before.graph.follow id importer name entry target }) := by
  have hwidens := before.graph.widens_follow id importer name entry target
  have hties := before.graph.ties_follow id importer name entry target
  have hmade := hserved.made.follow id importer name entry target
  generalize before.graph.follow id importer name entry target = followed at *
  cases target with
  | external number =>
      rw [targetNeed, run_change_bind]
      obtain ⟨external, hexternal⟩ := htarget number rfl
      obtain ⟨found, hfound, -⟩ := hwidens.external number external hexternal
      refine leaves_pure _ (hserved.link (hwidens.trans (.updateExternal followed number
          fun _ _ hprovides => hprovides.request entry.name))
        (hmade.updateExternal number (fun found => found.name_request entry.name)
          fun found => found.specifier_request entry.name) hties hmodule hentry ?_)
      intro other hother
      obtain rfl := Target.external.inj hother
      refine ⟨found.request entry.name, ?_, found.provides_request_self _⟩
      rw [Graph.external?_updateExternal, if_pos rfl, hfound]
      rfl
  | internal exporterId =>
      have hlinked := hserved.link hwidens hmade hties hmodule hentry fun _ h => by contradiction
      rw [targetNeed, run_get_bind]
      split
      · exact leaves_pure _ hlinked
      · split
        · rw [run_report_bind, run_change_bind]
          exact leaves_pure _ (hlinked.addNamespace exporterId)
        · split
          · exact leaves_pure _ hlinked
          · exact leaves_throw _ hlinked

/-- Expansion leaves its notes at external modules, whether it succeeds or not. -/
theorem upkeep_served (disk : Disk) : Upkeep disk Graph.Served Graph.Served where
  weaken := fun _ h => h
  mark := fun _ address hserved => hserved.updateModule address.module fun _ => rfl
  look := by
    intro before id module name hmodule _ hserved
    have hasked : (before.graph.updateModule id (·.request name)).Served :=
      hserved.updateModule id fun _ => rfl
    refine leaves_need (fun _ _ _ h => ⟨h.provides, h.made, h.registers⟩)
      (fun _ _ _ _ hfound h => h.read (disk.module_eq_ok hfound).choose_spec.2)
      (fun _ _ hnew h => h.register hnew) ?_ hmodule hasked
    intro entry target after hentry hrun hafter himporter
    refine served_targetNeed hafter himporter hentry fun number htarget => ?_
    subst htarget
    exact external?_of_fetch (by exact hasked.registers) hrun

end Build

namespace Graph

theorem lasting_served (disk : Disk) : Lasting disk Served where
  empty := served_empty
  resolve := fun _ _ _ hserved => ⟨hserved.provides, hserved.made, hserved.registers⟩
  read := fun _ _ _ _ hmodule hserved => hserved.read (disk.module_eq_ok hmodule).choose_spec.2
  register := fun _ _ hnew hserved => hserved.register hnew
  upkeep := Build.upkeep_served disk

end Graph

end ScriptBundler
