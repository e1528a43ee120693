import ScriptBundler.Proofs.Graph.Caches
import ScriptBundler.Proofs.Graph.Links

/-!
# Reached graphs

A graph starts without modules, and changes with every file that is loaded, every specifier that is
fetched and every request.  A graph is also used after a request has failed, so that a reached graph
may have been left behind by a fault.  What all these changes keep holds of every reached graph.
-/

namespace ScriptBundler

open Files ScriptBundler.Module Script

namespace Build

variable {disk : Disk} {holds : Graph → Prop} {before : Progress}

/-- Loading a path keeps what reading one more module keeps, also if there is no module to read. -/
theorem leaves_load {path : Path}
    (hread : ∀ module, before.graph.idOf? path = none → disk.module path = .ok module →
      holds (before.graph.addModule path module))
    (hholds : holds before.graph) : Leaves holds holds ((load disk path).run before) := by
  cases hrun : (load disk path).run before with
  | error fault after =>
      show holds after.graph
      rwa [load_error hrun]
  | ok id after =>
      show holds after.graph
      rcases load_cases hrun with ⟨rfl, -⟩ | ⟨source, module, hnew, hfile, hsource, -, hafter⟩
      · exact hholds
      · rw [hafter]
        exact hread module hnew (disk.module_of_read hfile hsource)

/-- Registering a specifier keeps what one more external module keeps. -/
theorem leaves_register {specifier : String}
    (hregister : before.graph.externalIdOf? specifier = none →
      holds (before.graph.addExternal specifier))
    (hholds : holds before.graph) : Leaves holds holds ((register specifier).run before) := by
  rw [register, run_get_bind]
  cases hid : before.graph.externalIdOf? specifier with
  | some id =>
      simp only [hid]
      exact leaves_pure id hholds
  | none =>
      simp only [hid, run_report_bind, run_change_bind]
      exact leaves_pure _ (hregister hid)

/-- Following a specifier keeps what one more module, one more external module and one more answer
of the resolver keep. -/
theorem leaves_fetch {specifier : String} {importer : Path}
    (hresolve : ∀ graph specifier importer, holds graph →
      holds { graph with resolver := (graph.resolver.resolve specifier importer).1 })
    (hread : ∀ graph path module, graph.idOf? path = none → disk.module path = .ok module →
      holds graph → holds (graph.addModule path module))
    (hregister : ∀ graph specifier, graph.externalIdOf? specifier = none → holds graph →
      holds (graph.addExternal specifier))
    (hholds : holds before.graph) :
    Leaves holds holds ((fetch disk specifier importer).run before) := by
  have hresolved := hresolve before.graph specifier importer hholds
  rw [fetch, run_get_bind]
  generalize before.graph.resolver.resolve specifier importer = resolved at *
  obtain ⟨resolver, resolution, entries⟩ := resolved
  simp only [run_change_bind, run_report_bind]
  cases resolution with
  | file path =>
      exact leaves_map (leaves_load (fun module hnew hmodule =>
        hread _ path module hnew hmodule hresolved) hresolved)
  | external =>
      exact leaves_map
        (leaves_register (fun hnew => hregister _ specifier hnew hresolved) hresolved)

/-- Looking up a name keeps what fetching keeps, if following its import to what has been fetched
keeps it.  Whatever has been read by then, the importer is as it was. -/
theorem leaves_need {id : Nat} {module : Module} {name : String}
    (hresolve : ∀ graph specifier importer, holds graph →
      holds { graph with resolver := (graph.resolver.resolve specifier importer).1 })
    (hread : ∀ graph path module, graph.idOf? path = none → disk.module path = .ok module →
      holds graph → holds (graph.addModule path module))
    (hregister : ∀ graph specifier, graph.externalIdOf? specifier = none → holds graph →
      holds (graph.addExternal specifier))
    (htarget : ∀ entry target (after : Progress), module.imports.get? name = some entry →
      (fetch disk entry.source module.path).run
        { before with graph := before.graph.updateModule id (·.request name) } = .ok target after →
      holds after.graph → after.graph.module? id = some (module.request name) →
      Leaves holds holds ((targetNeed module entry target).run
        { after with graph := after.graph.follow id module name entry target }))
    (hmodule : before.graph.module? id = some module)
    (hholds : holds (before.graph.updateModule id (·.request name))) :
    Leaves holds holds ((need disk id module name).run
      { before with graph := before.graph.updateModule id (·.request name) }) := by
  unfold need
  cases hentry : module.imports.get? name with
  | none =>
      dsimp only
      split
      · exact leaves_pure _ hholds
      · exact leaves_pure _ hholds
  | some entry =>
      dsimp only
      rw [importNeed_eq]
      -- fetching may add modules, but it leaves the importer where it is
      let there (graph : Graph) : Prop :=
        holds graph ∧ graph.module? id = some (module.request name)
      have hfetch : Leaves there there ((fetch disk entry.source module.path).run
          { before with graph := before.graph.updateModule id (·.request name) }) := by
        refine leaves_fetch (fun graph specifier importer h => ⟨hresolve _ _ _ h.1, h.2⟩)
          (fun graph path found hnew hfound h => ⟨hread _ _ _ hnew hfound h.1, ?_⟩)
          (fun graph specifier hnew h => ⟨hregister _ _ hnew h.1, h.2⟩) ⟨hholds, ?_⟩
        · rw [Graph.module?_addModule, if_neg (Graph.ne_length_of_module? h.2)]
          exact h.2
        · rw [Graph.module?_updateModule, if_pos rfl, hmodule]
          rfl
      cases hrun : (fetch disk entry.source module.path).run
          { before with graph := before.graph.updateModule id (·.request name) } with
      | error fault after =>
          rw [hrun] at hfetch
          rw [run_bind_of_error hrun]
          exact hfetch.1
      | ok target after =>
          rw [hrun] at hfetch
          rw [run_bind_of_ok hrun, run_change_bind]
          exact htarget entry target after hentry hrun hfetch.1 hfetch.2

/-- A specifier that leads to an external module has registered it. -/
theorem external?_of_fetch {specifier : String} {importer : Path} {id : Nat} {after : Progress}
    (hregisters : before.graph.Registers)
    (hrun : (fetch disk specifier importer).run before = .ok (.external id) after) :
    ∃ external, after.graph.external? id = some external := by
  rw [fetch, run_get_bind] at hrun
  generalize before.graph.resolver.resolve specifier importer = resolved at hrun
  obtain ⟨resolver, resolution, entries⟩ := resolved
  simp only [run_change_bind, run_report_bind] at hrun
  cases resolution with
  | file path =>
      obtain ⟨_, -, htarget⟩ := run_map_eq_ok hrun
      contradiction
  | external =>
      obtain ⟨found, hregister, htarget⟩ := run_map_eq_ok hrun
      obtain rfl := Target.external.inj htarget
      refine (?_ : after.graph.Registers) specifier id (register_ok hregister)
      rcases register_cases hregister with ⟨rfl, -⟩ | ⟨-, -, hafter⟩
      · exact hregisters
      · exact hafter ▸ hregisters.addExternal specifier

end Build

namespace Graph

/-- The graphs that come up when files are loaded, specifiers are fetched and requests are made,
with or without success. -/
inductive Reached (disk : Disk) : Graph → Prop where
  | start : Reached disk .empty
  | loaded {graph : Graph} (hreached : Reached disk graph) (path : Path) :
      Reached disk (graph.run (Build.load disk path)).graph
  | fetched {graph : Graph} (hreached : Reached disk graph) (specifier : String)
      (importer : Path) : Reached disk (graph.run (Build.fetch disk specifier importer)).graph
  | requested {graph : Graph} (hreached : Reached disk graph) (demand : Demand) :
      Reached disk (graph.request disk demand).graph

/-- What is true of the graph without modules, and is kept by all that changes a graph. -/
structure Lasting (disk : Disk) (holds : Graph → Prop) : Prop where
  empty : holds .empty
  resolve : ∀ graph specifier importer, holds graph →
    holds { graph with resolver := (graph.resolver.resolve specifier importer).1 }
  read : ∀ graph path module, graph.idOf? path = none → disk.module path = .ok module →
    holds graph → holds (graph.addModule path module)
  register : ∀ graph specifier, graph.externalIdOf? specifier = none → holds graph →
    holds (graph.addExternal specifier)
  upkeep : Build.Upkeep disk holds holds

variable {disk : Disk} {kept : Graph → Prop} {graph : Graph}

/-- What a computation leaves behind is what a run of it gives, with or without a fault. -/
theorem run_of_leaves {α : Type} {computation : Build α}
    (hleaves : Build.Leaves kept kept
      (EStateM.run computation { graph, emitted := [], log := [] })) :
    kept (graph.run computation).graph := by
  unfold run
  cases hrun : EStateM.run computation { graph, emitted := [], log := [] } <;>
    rw [hrun] at hleaves <;> exact hleaves

/-- What lasts holds of every reached graph. -/
theorem Reached.of_lasting (hlasting : Lasting disk kept) (hreached : Reached disk graph) :
    kept graph := by
  induction hreached with
  | start => exact hlasting.empty
  | loaded _ path ih =>
      exact run_of_leaves (Build.leaves_load (fun module hnew hmodule =>
        hlasting.read _ path module hnew hmodule ih) ih)
  | fetched _ specifier importer ih =>
      exact run_of_leaves (Build.leaves_fetch hlasting.resolve hlasting.read hlasting.register ih)
  | requested _ demand ih =>
      rename_i graph _
      have hrequest : graph.request disk demand =
          graph.run (Build.satisfy disk (graph.budget disk) demand).emitted := by
        cases demand <;> rfl
      rw [hrequest]
      -- reading off the statements changes nothing
      exact run_of_leaves (Build.leaves_bind (hlasting.upkeep.satisfy _ demand _ ih)
        fun _ _ _ hmiddle => hmiddle)

end Graph

end ScriptBundler
