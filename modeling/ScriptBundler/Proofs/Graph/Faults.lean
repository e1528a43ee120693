import ScriptBundler.Proofs.Graph.Termination
import ScriptBundler.Proofs.Graph.Wants

/-!
# When expansion fails

Expanding all of an entry module fails exactly if something that the project needs is faulty, and
reads exactly the files that needed names are imported from.  This takes that no file is needed
under two texts for its path of which only one can be read: a module that is there is not read once
more, so that the other text does no harm.
-/

namespace ScriptBundler

open Files ScriptBundler.Module Script Relation

namespace Graph

variable {disk : Disk} {entry path target : Path} {graph before after : Graph}
  {demand called : Demand} {id : Nat} {module fresh : Module} {name : String}

/-! ## Graphs of what is needed -/

/-- A graph that is read from the disk, and only from files that are needed. -/
structure OnTarget (disk : Disk) (entry : Path) (graph : Graph) : Prop
    extends graph.Genuine disk where
  targets : ∀ id module, graph.module? id = some module → disk.Targets entry module.path

/-- Whether a demand is for something that the project needs, of a file that holds a module. -/
def Backed (disk : Disk) (entry : Path) (graph : Graph) (demand : Demand) : Prop :=
  ∃ id path part module, demand = part.demand id ∧ graph.idOf? path = some id ∧
    disk.module path = .ok module ∧ disk.Needed entry ⟨path, part⟩

theorem OnTarget.of_resembles (hgraph : before.OnTarget disk entry)
    (hresembles : before.Resembles after) : after.OnTarget disk entry := by
  refine ⟨hgraph.toGenuine.of_resembles hresembles, fun id module hmodule => ?_⟩
  obtain ⟨earlier, hearlier, hrest⟩ := hresembles.module? hmodule
  exact path_eq_of_asRead hrest ▸ hgraph.targets id earlier hearlier

theorem OnTarget.addModule (hgraph : graph.OnTarget disk entry) (htarget : disk.Targets entry path)
    (hmodule : disk.module path = .ok module) :
    (graph.addModule path module).OnTarget disk entry := by
  refine ⟨hgraph.toGenuine.addModule hmodule, fun id found hfound => ?_⟩
  rw [module?_addModule] at hfound
  split at hfound
  · obtain rfl := Option.some.inj hfound
    exact disk.module_path hmodule ▸ htarget
  · exact hgraph.targets id found hfound

/-- What is needed and has been read is a module, unless there is another text for its path. -/
theorem OnTarget.exists_module (hgraph : graph.OnTarget disk entry) (hclear : ¬ disk.Mixed entry)
    (htarget : disk.Targets entry target) (hid : graph.idOf? target = some id) :
    ∃ found, disk.module target = .ok found := by
  obtain ⟨module, hmodule, hsame⟩ := hgraph.wellFormed.ofPath target id hid
  obtain ⟨read, hread, -⟩ := hgraph.toGenuine.read id module hmodule
  cases hfound : disk.module target with
  | ok found => exact ⟨found, rfl⟩
  | error fault =>
      exact absurd ⟨module.path, target, hgraph.targets id module hmodule, htarget, hsame,
        ⟨read, hread⟩, ⟨fault, hfound⟩⟩ hclear

/-! ## Imports of a file and of its module -/

theorem leadsTo_eq_some {imported : Import} {number : Nat}
    (hleads : graph.leadsTo module imported = some number) :
    ∃ path, resolveFrom (directoryOf module.path) imported.source = .file path ∧
      graph.idOf? path = some number := by
  unfold leadsTo at hleads
  cases hresolve : resolveFrom (directoryOf module.path) imported.source with
  | file path =>
      rw [hresolve] at hleads
      exact ⟨path, rfl, hleads⟩
  | external =>
      rw [hresolve] at hleads
      contradiction

/-- An import of a module is an import of its file. -/
theorem imports_of_module (hfresh : disk.module path = .ok fresh)
    (hsame : module.path.same path = true) (halike : module.Alike fresh) {imported : Import}
    (hentry : module.imports.get? name = some imported)
    (hresolve : resolveFrom (directoryOf module.path) imported.source = .file target) :
    ∃ found, disk.Imports path name found target ∧ found.name = imported.name := by
  obtain ⟨found, hfound, hsource, hname⟩ := get?_imports_eq_some_of_asRead halike hentry
  rw [Disk.directoryOf_of_same hsame, ← hsource] at hresolve
  exact ⟨found, ⟨fresh, hfresh, hfound, hresolve⟩, hname⟩

/-- An import of a file is an import of its module. -/
theorem import_of_file (hgenuine : graph.Genuine disk) (hid : graph.idOf? path = some id)
    {imported : Import} (himports : disk.Imports path name imported target) :
    ∃ module found, graph.module? id = some module ∧ module.imports.get? name = some found ∧
      found.name = imported.name ∧
      resolveFrom (directoryOf module.path) found.source = .file target := by
  obtain ⟨fresh, hfresh, hentry, hresolve⟩ := himports
  obtain ⟨module, hmodule, hsame, halike⟩ := hgenuine.view hid hfresh
  obtain ⟨found, hfound, hsource, hname⟩ := get?_imports_eq_some_of_asRead halike.symm hentry
  refine ⟨module, found, hmodule, hfound, hname, ?_⟩
  rw [Disk.directoryOf_of_same hsame, hsource]
  exact hresolve

/-! ## Expansion comes across what is needed -/

/-- What is called for by something that is needed is needed, and is of a file that holds a
module. -/
theorem Backed.step (hclear : ¬ disk.Mixed entry) (hbacked : before.Backed disk entry demand)
    (hextends : before.Extends after) (hafter : after.OnTarget disk entry)
    (hcalls : after.Calls demand called) : after.Backed disk entry called := by
  obtain ⟨id, path, part, fresh, rfl, hearly, hfresh, hneeded⟩ := hbacked
  have hid := hextends.idOf? hearly
  obtain ⟨module, hmodule, hsame, halike⟩ := hafter.toGenuine.view hid hfresh
  rcases hcalls.cases_module hmodule with ⟨other, rfl, hbrings⟩ | ⟨name, rfl, hpasses⟩
  · exact ⟨id, path, other, fresh, rfl, hid, hfresh,
      hneeded.tail (.own hfresh (hbrings.of_alike halike))⟩
  -- an import leads to a file that is needed, and that has been read
  · cases hpasses with
    | @whole imported number hentry hwhole hleads =>
        obtain ⟨target, hresolve, hnumber⟩ := leadsTo_eq_some hleads
        obtain ⟨found, himports, hname⟩ := imports_of_module hfresh hsame halike hentry hresolve
        have htarget : disk.Targets entry target := Or.inr ⟨path, name, found, hneeded, himports⟩
        obtain ⟨read, hread⟩ := hafter.exists_module hclear htarget hnumber
        exact ⟨number, target, .everything false, read, rfl, hnumber, hread,
          hneeded.tail (.whole himports (hname.trans hwhole))⟩
    | @named imported number exporter exported hentry hnamed hleads hexporter hexported =>
        obtain ⟨target, hresolve, hnumber⟩ := leadsTo_eq_some hleads
        obtain ⟨found, himports, hname⟩ := imports_of_module hfresh hsame halike hentry hresolve
        have htarget : disk.Targets entry target := Or.inr ⟨path, name, found, hneeded, himports⟩
        obtain ⟨read, hread⟩ := hafter.exists_module hclear htarget hnumber
        obtain ⟨viewed, hviewed, -, hexports⟩ := hafter.toGenuine.view hnumber hread
        obtain rfl := Option.some.inj (hexporter.symm.trans hviewed)
        rw [← exports_eq_of_asRead hexports, ← hname] at hexported
        exact ⟨number, target, .name exported.localName, read, rfl, hnumber, hread,
          hneeded.tail (.named himports (hname ▸ hnamed) hread hexported)⟩

end Graph

namespace Build

variable {disk : Disk} {entry : Path}

/-- Expansion comes across nothing but what is needed, and fails with a fault of that. -/
theorem pursuit_backed (hclear : ¬ disk.Mixed entry) :
    Pursuit disk (Graph.OnTarget disk entry)
      (fun _ graph demand => graph.Backed disk entry demand)
      (fun fault _ => fault = .endlessProject ∨
        ∃ want, disk.Needed entry want ∧ disk.Fails want fault) where
  wellFormed := fun _ hgraph => hgraph.wellFormed
  mark := fun graph address hgraph =>
    hgraph.of_resembles (.updateModule graph address.module fun module =>
      asRead_includeStatement module address.index)
  out := fun _ _ _ _ => Or.inl rfl
  statement := by
    intro budget before after address statement called hbefore hbacked hstatement hincluded
      hextends hafter hcalls
    exact hbacked.step hclear
      ((Graph.notes_includeStatement before address).toExtends.trans hextends) hafter hcalls
  everything := fun _ hbacked hextends hafter hcalls =>
    hbacked.step hclear hextends hafter hcalls
  look := by
    intro budget before id module name hbefore hbacked hmodule hnew
    obtain ⟨number, path, part, fresh, hdemand, hid, hfresh, hneeded⟩ := hbacked
    -- what backs the demand is about this module and this name
    obtain ⟨rfl, rfl⟩ : number = id ∧ part = .name name := by
      cases part with
      | name text =>
          obtain ⟨rfl, rfl⟩ := Demand.name.inj hdemand
          exact ⟨rfl, rfl⟩
      | _ => contradiction
    obtain ⟨viewed, hviewed, hsame, halike⟩ := hbefore.toGenuine.view hid hfresh
    obtain rfl := Option.some.inj (hmodule.symm.trans hviewed)
    refine ends_need (fun _ h => h.wellFormed) (fun _ _ hresembles h => h.of_resembles hresembles)
      ?_ ?_ ?_ ?_
    · intro graph imported target found hentry hresolve hunknown hfound h
      obtain ⟨read, himports, -⟩ := Graph.imports_of_module hfresh hsame halike hentry hresolve
      exact h.addModule (Or.inr ⟨path, name, read, hneeded, himports⟩) hfound
    · intro graph imported target fault hentry hresolve hfault h
      obtain ⟨read, himports, -⟩ := Graph.imports_of_module hfresh hsame halike hentry hresolve
      exact Or.inr ⟨_, hneeded, .unreadable himports hfault⟩
    · intro graph imported target number exporter hentry hresolve hnumber hexporter hnamed hmissing
        h
      obtain ⟨read, himports, hname⟩ := Graph.imports_of_module hfresh hsame halike hentry hresolve
      obtain ⟨found, hfound⟩ :=
        h.exists_module hclear (Or.inr ⟨path, name, read, hneeded, himports⟩) hnumber
      obtain ⟨viewed, hviewed, hexporterPath, hexports⟩ := h.toGenuine.view hnumber hfound
      obtain rfl := Option.some.inj (hexporter.symm.trans hviewed)
      rw [← exports_eq_of_asRead hexports] at hmissing
      rw [← hname] at hmissing hnamed ⊢
      exact Or.inr ⟨_, hneeded, .missing himports hnamed hfound hmissing hexporterPath hsame⟩
    · exact hbefore.of_resembles (.updateModule _ _ fun module => asRead_request module name)
  name := by
    intro budget before after id module name called hbefore hbacked hmodule hnew hextends hafter
      hcalls
    exact hbacked.step hclear ((Graph.notes_request before id name).toExtends.trans hextends)
      hafter hcalls

end Build

/-! ## Expansion leaves out nothing that is needed -/

namespace Graph

variable {disk : Disk} {entry path target : Path} {graph : Graph} {requests : List Demand}
  {home id : Nat} {name : String} {imported : Import}

/-- A needed import has been followed, once all that is needed is marked. -/
theorem Complete.follows (hcomplete : graph.Complete requests) (hgenuine : graph.Genuine disk)
    (hhome : graph.idOf? path = some home) (hmarks : graph.Marks (.name home name))
    (himports : disk.Imports path name imported target) :
    ∃ module found number exporter, graph.module? home = some module ∧
      module.imports.get? name = some found ∧ found.name = imported.name ∧
      graph.leadsTo module found = some number ∧ graph.idOf? target = some number ∧
      graph.module? number = some exporter ∧
      (imported.name ≠ "*" → ∃ exported, exporter.exports.get? imported.name = some exported) := by
  obtain ⟨module, found, hmodule, hfound, hname, hresolve⟩ := import_of_file hgenuine hhome himports
  have hfollowed := (hcomplete.settled _ hmarks).followed home name module found rfl hmodule hfound
  obtain ⟨number, exporter, hnumber, hexporter, hexports⟩ := hfollowed target hresolve
  refine ⟨module, found, number, exporter, hmodule, hfound, hname, ?_, hnumber, hexporter,
    hname ▸ hexports⟩
  unfold leadsTo
  rw [hresolve]
  exact hnumber

/-- All that is needed is marked, once everything in the entry module has been asked for. -/
theorem Complete.marks_of_needed (hcomplete : graph.Complete [.everything id true])
    (hgenuine : graph.Genuine disk) (hentry : graph.idOf? entry = some id) {want : Want}
    (hneeded : disk.Needed entry want) :
    ∃ home, graph.idOf? want.path = some home ∧ graph.Marks (want.part.demand home) := by
  induction hneeded with
  | refl => exact ⟨id, hentry, hcomplete.marked _ (List.mem_singleton_self _)⟩
  | tail _ hneeds ih =>
      obtain ⟨home, hhome, hmarks⟩ := ih
      have hcalls := (hcomplete.settled _ hmarks).calls
      cases hneeds with
      | own hfresh hbrings =>
          obtain ⟨module, hmodule, -, halike⟩ := hgenuine.view hhome hfresh
          exact ⟨home, hhome, hcalls _ (calls_of_brings hmodule (hbrings.of_alike halike.symm))⟩
      | whole himports hwhole =>
          obtain ⟨module, found, number, exporter, hmodule, hfound, hname, hleads, hnumber, -, -⟩ :=
            hcomplete.follows hgenuine hhome hmarks himports
          exact ⟨number, hnumber,
            hcalls _ (.wholeImport hmodule hfound (hname.trans hwhole) hleads)⟩
      | named himports hnamed hread hexported =>
          obtain ⟨module, found, number, exporter, hmodule, hfound, hname, hleads, hnumber,
            hexporter, -⟩ := hcomplete.follows hgenuine hhome hmarks himports
          obtain ⟨viewed, hviewed, -, hexports⟩ := hgenuine.view hnumber hread
          obtain rfl := Option.some.inj (hexporter.symm.trans hviewed)
          rw [exports_eq_of_asRead hexports, ← hname] at hexported
          exact ⟨number, hnumber,
            hcalls _ (.namedImport hmodule hfound (hname ▸ hnamed) hleads hexporter hexported)⟩

/-- All that is needed has been read, once everything in the entry module has been asked for. -/
theorem Complete.idOf?_of_targets (hcomplete : graph.Complete [.everything id true])
    (hgenuine : graph.Genuine disk) (hentry : graph.idOf? entry = some id)
    (htarget : disk.Targets entry target) : ∃ number, graph.idOf? target = some number := by
  rcases htarget with rfl | ⟨path, name, imported, hneeded, himports⟩
  · exact ⟨id, hentry⟩
  · obtain ⟨home, hhome, hmarks⟩ := hcomplete.marks_of_needed hgenuine hentry hneeded
    obtain ⟨-, -, number, -, -, -, -, -, hnumber, -, -⟩ :=
      hcomplete.follows hgenuine hhome hmarks himports
    exact ⟨number, hnumber⟩

/-- Nothing that is needed is faulty, once everything in the entry module has been asked for. -/
theorem Complete.not_fails (hcomplete : graph.Complete [.everything id true])
    (hgraph : graph.OnTarget disk entry) (hclear : ¬ disk.Mixed entry)
    (hentry : graph.idOf? entry = some id) {want : Want} {fault : Fault}
    (hneeded : disk.Needed entry want) : ¬ disk.Fails want fault := by
  intro hfails
  obtain ⟨home, hhome, hmarks⟩ := hcomplete.marks_of_needed hgraph.toGenuine hentry hneeded
  cases hfails with
  | @unreadable path target name imported _ himports hfault =>
      obtain ⟨-, -, number, -, -, -, -, -, hnumber, -, -⟩ :=
        hcomplete.follows hgraph.toGenuine hhome hmarks himports
      obtain ⟨found, hfound⟩ :=
        hgraph.exists_module hclear (Or.inr ⟨path, name, imported, hneeded, himports⟩) hnumber
      rw [hfault] at hfound
      contradiction
  | missing himports hnamed hread hmissing =>
      obtain ⟨-, -, number, exporter, -, -, -, -, hnumber, hexporter, hexports⟩ :=
        hcomplete.follows hgraph.toGenuine hhome hmarks himports
      obtain ⟨viewed, hviewed, -, halike⟩ := hgraph.toGenuine.view hnumber hread
      obtain rfl := Option.some.inj (hexporter.symm.trans hviewed)
      obtain ⟨exported, hexported⟩ := hexports hnamed
      rw [← exports_eq_of_asRead halike, hmissing] at hexported
      contradiction

/-! ## Expanding an entry module -/

/-- The graph after loading an entry module. -/
theorem onTarget_of_load (hload : (Graph.empty.run (Build.load disk entry)).result = .ok id) :
    (Graph.empty.run (Build.load disk entry)).graph.OnTarget disk entry ∧
      (Graph.empty.run (Build.load disk entry)).graph.idOf? entry = some id ∧
      ∃ module, disk.module entry = .ok module := by
  obtain ⟨after, hrun, hgraph⟩ := run_eq_ok hload
  obtain ⟨-, hid⟩ := Build.load_ok hrun
  rw [hgraph]
  rcases Build.load_cases hrun with ⟨-, hknown⟩ | ⟨source, module, -, hread, hsource, -, hafter⟩
  · simp [idOf?, empty] at hknown
  · have hmodule := disk.module_of_read hread hsource
    have hempty : Graph.empty.OnTarget disk entry :=
      ⟨genuine_empty disk, by simp [module?, empty]⟩
    refine ⟨?_, hid, module, hmodule⟩
    rw [hafter]
    exact hempty.addModule (Or.inl rfl) hmodule

/-- How a request ends. -/
theorem ends_of_request {sound : Graph → Prop} {faulty : Fault → Graph → Prop} {demand : Demand}
    (hends : Build.Ends sound faulty ((Build.satisfy disk (graph.budget disk) demand).run
      { graph, emitted := [], log := [] })) :
    (∀ statements, (graph.request disk demand).result = .ok statements →
        sound (graph.request disk demand).graph) ∧
      ∀ fault, (graph.request disk demand).result = .error fault →
        faulty fault (graph.request disk demand).graph := by
  have hrequest : graph.request disk demand =
      graph.run (Build.satisfy disk (graph.budget disk) demand).emitted := by
    cases demand <;> rfl
  rw [hrequest]
  unfold run Build.emitted
  cases hrun : (Build.satisfy disk (graph.budget disk) demand).run
      { graph, emitted := [], log := [] } with
  | ok value after =>
      rw [hrun] at hends
      rw [run_bind_of_ok hrun]
      exact ⟨fun _ _ => hends, fun _ => nofun⟩
  | error fault after =>
      rw [hrun] at hends
      rw [run_bind_of_error hrun]
      refine ⟨fun _ => nofun, fun other heq => ?_⟩
      obtain rfl := Except.error.inj heq
      exact hends

/-- A request for all of the entry module fails with the fault of something that is needed, or
leaves a graph of what is needed. -/
theorem OnTarget.request (hgraph : graph.OnTarget disk entry) (hclear : ¬ disk.Mixed entry)
    (hid : graph.idOf? entry = some id) (hmodule : ∃ module, disk.module entry = .ok module) :
    (∀ statements, (graph.request disk (.everything id true)).result = .ok statements →
        graph.Extends (graph.request disk (.everything id true)).graph ∧
          (graph.request disk (.everything id true)).graph.OnTarget disk entry) ∧
      ∀ fault, (graph.request disk (.everything id true)).result = .error fault →
        ∃ want, disk.Needed entry want ∧ disk.Fails want fault := by
  obtain ⟨module, hmodule⟩ := hmodule
  have hbacked : graph.Backed disk entry (.everything id true) :=
    ⟨id, entry, .everything true, module, rfl, hid, hmodule, .refl⟩
  let start : Progress := { graph, emitted := [], log := [] }
  have hstart : start.graph.OnTarget disk entry := hgraph
  obtain ⟨hok, herror⟩ :=
    ends_of_request ((Build.pursuit_backed hclear).satisfy hstart hbacked)
  obtain ⟨-, hbounded⟩ := ends_of_request
    (Build.bounded_satisfy hstart.toGenuine (Nat.le_refl _) (.everything id true))
  refine ⟨hok, fun fault hresult => ?_⟩
  rcases herror fault hresult with rfl | hneeds
  · exact absurd rfl (hbounded _ hresult)
  · exact hneeds

/-- Of two texts for one path, the one that cannot be read is a fault, though it need not come to
light. -/
theorem needs_fault_of_mixed (hmodule : ∃ module, disk.module entry = .ok module)
    (hmixed : disk.Mixed entry) :
    ∃ want fault, disk.Needed entry want ∧ disk.Fails want fault := by
  obtain ⟨-, other, -, hother, -, -, fault, hfault⟩ := hmixed
  rcases hother with rfl | ⟨path, name, imported, hneeded, himports⟩
  · obtain ⟨module, hmodule⟩ := hmodule
    rw [hfault] at hmodule
    contradiction
  · exact ⟨_, fault, hneeded, .unreadable himports hfault⟩

/-- Expanding all of an entry module fails only if something that is needed is faulty.  If no file
is needed under two texts of which one can be read and the other cannot, it fails exactly then, with
one of these faults, and else it reads exactly what is needed. -/
theorem fails_iff_needs_fault
    (hload : (Graph.empty.run (Build.load disk entry)).result = .ok id) :
    let outcome := (Graph.empty.run (Build.load disk entry)).graph.expandAll disk id true
    ((∃ fault, outcome.result = .error fault) →
      ∃ want fault, disk.Needed entry want ∧ disk.Fails want fault) ∧
    (¬ disk.Mixed entry →
      ((∃ fault, outcome.result = .error fault) ↔
        ∃ want fault, disk.Needed entry want ∧ disk.Fails want fault) ∧
      (∀ fault, outcome.result = .error fault →
        ∃ want, disk.Needed entry want ∧ disk.Fails want fault) ∧
      (∀ statements, outcome.result = .ok statements →
        (∀ number module, outcome.graph.module? number = some module →
          disk.Targets entry module.path) ∧
        ∀ path, disk.Targets entry path → ∃ number, outcome.graph.idOf? path = some number)) := by
  intro outcome
  obtain ⟨hgraph, hid, hmodule⟩ := onTarget_of_load hload
  have hspec := fun hclear => hgraph.request hclear hid hmodule
  have hfault : ¬ disk.Mixed entry → ∀ fault, outcome.result = .error fault →
      ∃ want, disk.Needed entry want ∧ disk.Fails want fault := fun hclear => (hspec hclear).2
  -- a request that succeeds has looked after all that is needed
  have hcomplete : ∀ statements, outcome.result = .ok statements →
      outcome.graph.Complete [.everything id true] := by
    intro statements hresult
    obtain ⟨found, hfound, -⟩ := hgraph.wellFormed.ofPath entry id hid
    have hhas : (Graph.empty.run (Build.load disk entry)).graph.Has (.everything id true) :=
      ⟨found, hfound⟩
    exact ((History.start.loaded hload).requested hhas hresult).complete
  have hsuccess : ¬ disk.Mixed entry → ∀ statements, outcome.result = .ok statements →
      outcome.graph.OnTarget disk entry ∧ outcome.graph.idOf? entry = some id := by
    intro hclear statements hresult
    obtain ⟨hextends, hafter⟩ := (hspec hclear).1 statements hresult
    exact ⟨hafter, hextends.idOf? hid⟩
  refine ⟨fun hfails => ?_, fun hclear => ⟨⟨fun hfails => ?_, fun hneeds => ?_⟩,
    hfault hclear, fun statements hresult => ?_⟩⟩
  · obtain ⟨fault, hresult⟩ := hfails
    by_cases hmixed : disk.Mixed entry
    · exact needs_fault_of_mixed hmodule hmixed
    · obtain ⟨want, hneeds⟩ := hfault hmixed fault hresult
      exact ⟨want, fault, hneeds⟩
  · obtain ⟨fault, hresult⟩ := hfails
    obtain ⟨want, hneeds⟩ := hfault hclear fault hresult
    exact ⟨want, fault, hneeds⟩
  · obtain ⟨want, fault, hneeded, hfails⟩ := hneeds
    cases hresult : outcome.result with
    | error other => exact ⟨other, rfl⟩
    | ok statements =>
        obtain ⟨hafter, hentry⟩ := hsuccess hclear statements hresult
        exact absurd hfails ((hcomplete statements hresult).not_fails hafter hclear hentry hneeded)
  · obtain ⟨hafter, hentry⟩ := hsuccess hclear statements hresult
    exact ⟨hafter.targets, fun path htarget =>
      (hcomplete statements hresult).idOf?_of_targets hafter.toGenuine hentry htarget⟩

/-- Whether the modules at some paths import from files at these paths only. -/
def closes (disk : Disk) (paths : List Path) : Bool :=
  paths.all fun path => (disk.module path).toOption.all fun module =>
    module.imports.all fun imported =>
      (.external :: paths.map .file).contains (resolveFrom (directoryOf path) imported.2.source)

theorem mem_of_targets {paths : List Path} (hclosed : closes disk paths = true)
    (hentry : entry ∈ paths) (htarget : disk.Targets entry target) : target ∈ paths := by
  have himported : ∀ {path name imported target}, path ∈ paths →
      disk.Imports path name imported target → target ∈ paths := by
    rintro path name imported target hpath ⟨module, hmodule, hget, hresolve⟩
    have hchecked := List.all_eq_true.mp hclosed path hpath
    rw [hmodule] at hchecked
    have hin := List.all_eq_true.mp hchecked _ (Table.mem_of_get? hget)
    rw [hresolve] at hin
    simpa using hin
  have hneeded : ∀ {want}, disk.Needed entry want → want.path ∈ paths := by
    intro want hneeded
    induction hneeded with
    | refl => exact hentry
    | tail _ hneeds ih =>
        cases hneeds with
        | own => exact ih
        | whole himports => exact himported ih himports
        | named himports => exact himported ih himports
  rcases htarget with rfl | ⟨path, name, imported, hname, himports⟩
  · exact hentry
  · exact himported (hneeded hname) himports

theorem exists_module_of_any {check : Module → Bool}
    (hcheck : (disk.module path).toOption.any check = true) :
    ∃ module, disk.module path = .ok module ∧ check module = true := by
  cases hmodule : disk.module path with
  | ok module =>
      rw [hmodule] at hcheck
      exact ⟨module, rfl, hcheck⟩
  | error fault =>
      rw [hmodule] at hcheck
      contradiction

/-- A module with two imports of files that are not there, of which one is needed. -/
def goneDisk : Disk where
  workingDirectory := []
  files := [(["main.js"], .text ("import \x7b a \x7d from './gone';\n" ++
    "import \x7b b \x7d from './lost';\nexport var result = a;\n").toList)]
  directories := []

/-- The fault is that of the import which is needed. -/
theorem needs_fault_goneDisk :
    (Graph.empty.run (Build.load goneDisk ⟨"main.js"⟩)).result = .ok 0 ∧
      ¬ goneDisk.Mixed ⟨"main.js"⟩ ∧
      ∃ want, goneDisk.Needed ⟨"main.js"⟩ want ∧
        goneDisk.Fails want (.unreadableModule ⟨"gone.js"⟩ .notFound) := by
  have hload : (Graph.empty.run (Build.load goneDisk ⟨"main.js"⟩)).result = .ok 0 := by
    decide +kernel
  have hresult : ((Graph.empty.run (Build.load goneDisk ⟨"main.js"⟩)).graph.expandAll goneDisk
      0 true).result = .error (.unreadableModule ⟨"gone.js"⟩ .notFound) := by
    decide +kernel
  -- no two of the paths that come up are the same
  have hclear : ¬ goneDisk.Mixed ⟨"main.js"⟩ := by
    rintro ⟨path, other, hpath, hother, hsame, ⟨module, hmodule⟩, ⟨fault, hfault⟩⟩
    have hclosed : closes goneDisk [⟨"main.js"⟩, ⟨"gone.js"⟩, ⟨"lost.js"⟩] = true := by
      decide +kernel
    have hdistinct : ∀ path ∈ ([⟨"main.js"⟩, ⟨"gone.js"⟩, ⟨"lost.js"⟩] : List Path),
        ∀ other ∈ ([⟨"main.js"⟩, ⟨"gone.js"⟩, ⟨"lost.js"⟩] : List Path),
          path.same other = true → path = other := by
      decide +kernel
    obtain rfl := hdistinct path (mem_of_targets hclosed List.mem_cons_self hpath) other
      (mem_of_targets hclosed List.mem_cons_self hother) hsame
    cases hfault.symm.trans hmodule
  exact ⟨hload, hclear, ((fails_iff_needs_fault hload).2 hclear).2.1 _ hresult⟩

/-- A module that imports one file under two texts for its path, of which one ends in a slash. -/
def slashedDisk : Disk where
  workingDirectory := []
  files :=
    [(["main.js"], .text ("import \x7b a \x7d from './lib';\n" ++
        "import \x7b b \x7d from '/lib.js/';\nexport var result = [a, b];\n").toList),
      (["lib.js"], .text "export var a = 1, b = 2;\n".toList)]
  directories := []

/-- What is needed is faulty, and does not make expansion fail: the file has been read under the
other text for its path. -/
theorem not_fails_iff_slashedDisk :
    ¬ ((∃ fault, ((Graph.empty.run (Build.load slashedDisk ⟨"/main.js"⟩)).graph.expandAll
        slashedDisk 0 true).result = .error fault) ↔
      ∃ want fault, slashedDisk.Needed ⟨"/main.js"⟩ want ∧ slashedDisk.Fails want fault) := by
  have hresult : ((Graph.empty.run (Build.load slashedDisk ⟨"/main.js"⟩)).graph.expandAll
      slashedDisk 0 true).result = .ok [⟨1, 0⟩, ⟨0, 2⟩] := by
    decide +kernel
  obtain ⟨module, hmodule, hcheck⟩ : ∃ module, slashedDisk.module ⟨"/main.js"⟩ = .ok module ∧
      ((module.statement? 2).any (fun statement => !isImport statement.form &&
          (listedNames statement.form).isEmpty && statement.dependsOn.contains "b") &&
        (module.imports.get? "b").any fun imported =>
          resolveFrom (directoryOf ⟨"/main.js"⟩) imported.source == .file ⟨"/lib.js/"⟩) = true :=
    exists_module_of_any (by decide +kernel)
  have hfault : slashedDisk.module ⟨"/lib.js/"⟩ =
      .error (.unreadableModule ⟨"/lib.js/"⟩ .notDirectory) := by
    have hread : slashedDisk.read ⟨"/lib.js/"⟩ = .error .notDirectory := by decide +kernel
    unfold Disk.module
    rw [hread]
  simp only [Bool.and_eq_true, Option.any_eq_true, Bool.not_eq_true', List.isEmpty_iff,
    List.contains_iff_mem, beq_iff_eq] at hcheck
  obtain ⟨⟨statement, hstatement, ⟨himport, hlisted⟩, hname⟩, imported, hentry, hresolve⟩ := hcheck
  have hneeded : slashedDisk.Needed ⟨"/main.js"⟩ ⟨⟨"/main.js"⟩, .name "b"⟩ :=
    (Relation.ReflTransGen.single (.own hmodule (.plain hstatement himport hlisted))).tail
      (.own hmodule (.dependency hstatement hname))
  have hfails := Disk.Fails.unreadable ⟨module, hmodule, hentry, hresolve⟩ hfault
  intro hiff
  obtain ⟨fault, herror⟩ := hiff.mpr ⟨_, _, hneeded, hfails⟩
  cases hresult.symm.trans herror

end Graph

end ScriptBundler
