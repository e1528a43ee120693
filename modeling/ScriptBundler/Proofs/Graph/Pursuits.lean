import ScriptBundler.Proofs.Graph.Caches
import ScriptBundler.Proofs.Graph.Requests
import ScriptBundler.Proofs.Graph.Upkeep

/-!
# What expansion comes across

Expansion passes from a demand to the demands that it calls for, and marks each statement and each
name before it goes on.  What is true of a demand, within some budget, and is passed on to all that
the demand calls for, within a smaller one, is true of everything that expansion comes across.  This
also tells how expansion ends if a fault strikes: with the fault of a name that it came across, or
because the budget was used up.
-/

namespace ScriptBundler

open Files ScriptBundler.Module Script

namespace Build

section Ends

variable {α β : Type} {sound other : Graph → Prop} {faulty : Fault → Graph → Prop}
  {before : Progress}

/-- How a run ends: in a graph that is `sound`, or with a fault of some kind and a graph that goes
with it. -/
def Ends (sound : Graph → Prop) (faulty : Fault → Graph → Prop) :
    EStateM.Result Fault Progress α → Prop
  | .ok _ after => sound after.graph
  | .error fault after => faulty fault after.graph

theorem leaves_iff_ends {weak : Graph → Prop} {result : EStateM.Result Fault Progress α} :
    Leaves sound weak result ↔ Ends sound (fun _ => weak) result := by
  cases result <;> rfl

theorem ends_pure (value : α) (hsound : sound before.graph) :
    Ends sound faulty ((pure value : Build α).run before) := hsound

theorem ends_throw {fault : Fault} (hfaulty : faulty fault before.graph) :
    Ends sound faulty ((throw fault : Build α).run before) := hfaulty

theorem Ends.mono {result : EStateM.Result Fault Progress α} (hends : Ends sound faulty result)
    (hmono : ∀ graph, sound graph → other graph) : Ends other faulty result := by
  cases result with
  | ok value after => exact hmono _ hends
  | error fault after => exact hends

theorem ends_bind {first : Build α} {next : α → Build β}
    (hfirst : Ends other faulty (first.run before))
    (hnext : ∀ value middle, first.run before = .ok value middle → other middle.graph →
      Ends sound faulty ((next value).run middle)) :
    Ends sound faulty ((first >>= next).run before) := by
  cases hrun : first.run before with
  | ok value middle =>
      rw [hrun] at hfirst
      rw [run_bind_of_ok hrun]
      exact hnext value middle hrun hfirst
  | error fault after =>
      rw [hrun] at hfirst
      rw [run_bind_of_error hrun]
      exact hfirst

theorem ends_forM {items : List α} {body : α → Build Unit}
    (hbody : ∀ item ∈ items, ∀ before : Progress, sound before.graph →
      Ends sound faulty ((body item).run before))
    (hsound : sound before.graph) : Ends sound faulty ((items.forM body).run before) := by
  induction items generalizing before with
  | nil => exact ends_pure () hsound
  | cons first rest ih =>
      refine ends_bind (hbody first List.mem_cons_self before hsound) fun _ middle _ hmiddle => ?_
      exact ih (fun item hitem => hbody item (List.mem_cons_of_mem _ hitem)) hmiddle

end Ends

/-- What expansion passes on from a demand to what it calls for: `asked` says what is true of a
demand in a graph, within a budget. -/
structure Pursuit (disk : Disk) (sound : Graph → Prop) (asked : Nat → Graph → Demand → Prop)
    (faulty : Fault → Graph → Prop) : Prop where
  wellFormed : ∀ graph, sound graph → graph.WellFormed
  mark : ∀ graph (address : Address), sound graph →
    sound (graph.updateModule address.module (·.includeStatement address.index))
  /-- The budget is used up. -/
  out : ∀ graph demand, sound graph → asked 0 graph demand → faulty .endlessProject graph
  /-- A statement has been marked, and calls for something. -/
  statement : ∀ {budget before after address statement called}, sound before →
    asked (budget + 1) before (.statement address) →
    before.statement? address = some statement → statement.included = false →
    (before.updateModule address.module (·.includeStatement address.index)).Extends after →
    sound after → after.Calls (.statement address) called → asked budget after called
  /-- A module is needed as a whole, and something in it is called for. -/
  everything : ∀ {budget before after id isEntry called}, sound before →
    asked (budget + 1) before (.everything id isEntry) → before.Extends after → sound after →
    after.Calls (.everything id isEntry) called → asked budget after called
  /-- A name is looked after. -/
  look : ∀ {budget} {before : Progress} {id module name}, sound before.graph →
    asked (budget + 1) before.graph (.name id name) → before.graph.module? id = some module →
    name ∉ module.requested →
    Ends sound faulty ((need disk id module name).run
      { before with graph := before.graph.updateModule id (·.request name) })
  /-- A name has been looked after, and calls for something. -/
  name : ∀ {budget before after id module name called}, sound before →
    asked (budget + 1) before (.name id name) → before.module? id = some module →
    name ∉ module.requested → (before.updateModule id (·.request name)).Extends after →
    sound after → after.Calls (.name id name) called → asked budget after called

namespace Pursuit

variable {disk : Disk} {sound : Graph → Prop} {asked : Nat → Graph → Demand → Prop}
  {faulty : Fault → Graph → Prop} {budget : Nat} {before : Progress} {start : Graph}

section

variable (hpursuit : Pursuit disk sound asked faulty)
  (hinner : ∀ demand (before : Progress), sound before.graph → asked budget before.graph demand →
    Ends (fun graph => before.graph.Extends graph ∧ sound graph) faulty
      ((satisfy disk budget demand).run before))

include hinner

/-- A call on the way, which adds to what has been added so far. -/
theorem call (demand : Demand) (before : Progress)
    (hstart : start.Extends before.graph ∧ sound before.graph)
    (hasked : asked budget before.graph demand) :
    Ends (fun graph => start.Extends graph ∧ sound graph) faulty
      ((satisfy disk budget demand).run before) :=
  (hinner demand before hstart.2 hasked).mono fun _ h => ⟨hstart.1.trans h.1, h.2⟩

theorem includeModifier {id : Nat} {name : String} {index : Nat}
    (hstart : start.Extends before.graph ∧ sound before.graph)
    (hasked : asked budget before.graph (.statement ⟨id, index⟩)) :
    Ends (fun graph => start.Extends graph ∧ sound graph) faulty
      ((Build.includeModifier disk budget id name index).run before) := by
  unfold Build.includeModifier
  rw [run_isIncluded_bind]
  split
  · rw [run_report_bind]
    exact call hinner (.statement ⟨id, index⟩) _ hstart hasked
  · exact ends_pure () hstart

include hpursuit

theorem expandStatement {address : Address} (hsound : sound before.graph)
    (hasked : asked (budget + 1) before.graph (.statement address)) :
    Ends (fun graph => before.graph.Extends graph ∧ sound graph) faulty
      ((Build.expandStatement disk (budget + 1) address).run before) := by
  rw [Build.expandStatement, run_get_bind]
  cases hstatement : before.graph.statement? address with
  | none => exact ends_pure () ⟨.refl _, hsound⟩
  | some statement =>
      cases hincluded : statement.included with
      | true =>
          simp only [hincluded, Bool.not_true, Bool.false_eq_true, if_false]
          exact ends_pure () ⟨.refl _, hsound⟩
      | false =>
          simp only [hincluded, Bool.not_false, if_true, run_mark_bind]
          have hextends := (Graph.notes_includeStatement before.graph address).toExtends
          have hmarked := hpursuit.mark before.graph address hsound
          -- all that the loops call for is called for by the statement
          have hcalled : ∀ graph demand, (before.graph.updateModule address.module
              (·.includeStatement address.index)).Extends graph → sound graph →
              before.graph.Calls (.statement address) demand → asked budget graph demand :=
            fun graph demand hgraph hlater hcalls =>
              hpursuit.statement hsound hasked hstatement hincluded hgraph hlater
                (hcalls.mono (hextends.trans hgraph))
          generalize before.graph.updateModule _ _ = marked at *
          let grown (graph : Graph) : Prop := marked.Extends graph ∧ sound graph
          refine Ends.mono (?_ : Ends grown faulty _) fun _ h => ⟨hextends.trans h.1, h.2⟩
          refine ends_bind (?_ : Ends grown faulty _) fun _ middle _ hmiddle => ?_
          · refine ends_forM (fun name hname middle hmiddle => ?_) ⟨.refl _, hmarked⟩
            exact call hinner (.name address.module name) _ hmiddle
              (hcalled _ _ hmiddle.1 hmiddle.2 (.dependency hstatement hname))
          · rw [run_emit_bind]
            refine ends_forM (fun name hname later hlater => ?_) hmiddle
            rw [run_get_bind]
            obtain ⟨module, hmodule, -⟩ := Graph.statement?_eq_some_iff.mp hstatement
            obtain ⟨found, hfound, hgrows⟩ := (hextends.trans hlater.1).module _ module hmodule
            simp only [hfound, modifiersOf_eq_of_asRead hgrows.asRead]
            refine ends_forM (fun index hindex last hlast => ?_) hlater
            exact includeModifier hinner hlast
              (hcalled _ _ hlast.1 hlast.2 (.modifier hstatement hname hmodule hindex))

theorem define {id : Nat} {name : String} (hsound : sound before.graph)
    (hasked : asked (budget + 1) before.graph (.name id name)) :
    Ends (fun graph => before.graph.Extends graph ∧ sound graph) faulty
      ((Build.define disk (budget + 1) id name).run before) := by
  rw [Build.define, run_get_bind]
  cases hmodule : before.graph.module? id with
  | none => exact ends_pure () ⟨.refl _, hsound⟩
  | some module =>
      by_cases hrequested : name ∈ module.requested
      · simp only [List.contains_iff_mem.mpr hrequested, Bool.not_true, Bool.false_eq_true,
          if_false]
        exact ends_pure () ⟨.refl _, hsound⟩
      · have hnew : module.requested.contains name = false := by simpa using hrequested
        simp only [hnew, Bool.not_false, if_true]
        rw [run_change_bind]
        refine ends_bind (hpursuit.look hsound hasked hmodule hrequested)
          fun needed middle hrun hmiddle => ?_
        obtain ⟨hquiet, hmeets⟩ := need_request_ok (hpursuit.wellFormed _ hsound) hmodule hrun
        have hstart : before.graph.Extends middle.graph ∧ sound middle.graph :=
          ⟨(Graph.notes_request before.graph id name).toExtends.trans hquiet.toExtends, hmiddle⟩
        have hcalled : ∀ called, needed.demand = some called → asked budget middle.graph called :=
          fun called hdemand => hpursuit.name hsound hasked hmodule hrequested hquiet.toExtends
            hmiddle ((hmeets.calls called).mpr hdemand)
        cases needed with
        | nothing => exact ends_pure () hstart
        | statement address => exact call hinner _ _ hstart (hcalled _ rfl)
        | name other exported => exact call hinner _ _ hstart (hcalled _ rfl)
        | everything other => exact call hinner _ _ hstart (hcalled _ rfl)

theorem expandAll {id : Nat} {isEntry : Bool} (hsound : sound before.graph)
    (hasked : asked (budget + 1) before.graph (.everything id isEntry)) :
    Ends (fun graph => before.graph.Extends graph ∧ sound graph) faulty
      ((Build.expandAll disk (budget + 1) id isEntry).run before) := by
  rw [Build.expandAll, run_get_bind]
  cases hmodule : before.graph.module? id with
  | none => exact ends_pure () ⟨.refl _, hsound⟩
  | some module =>
      refine ends_forM (fun statement hmem middle hmiddle => ?_) ⟨.refl _, hsound⟩
      have hwf := (hpursuit.wellFormed _ hsound).module id module hmodule
      have hcalled : ∀ graph demand, before.graph.Extends graph → sound graph →
          demand ∈ wanted id isEntry statement → asked budget graph demand :=
        fun graph demand hgraph hlater hdemand =>
          hpursuit.everything hsound hasked hgraph hlater
            (.mono hgraph ((Graph.calls_everything_iff hmodule hwf).mpr ⟨statement, hmem, hdemand⟩))
      unfold wanted at hcalled
      rw [run_isIncluded_bind]
      split
      · cases hrole : roleOf isEntry statement.form with
        | onDemand => exact ends_pure () hmiddle
        | listing locals =>
            rw [hrole] at hcalled
            simp only [run_mark_bind]
            have hextends :=
              (Graph.notes_includeStatement middle.graph ⟨id, statement.index⟩).toExtends
            refine ends_forM (fun name hname last hlast => ?_)
              ⟨hmiddle.1.trans hextends, hpursuit.mark _ ⟨id, statement.index⟩ hmiddle.2⟩
            exact call hinner (.name id name) _ hlast
              (hcalled _ _ hlast.1 hlast.2
                (List.mem_cons_of_mem _ (List.mem_map_of_mem hname)))
        | included =>
            rw [hrole] at hcalled
            exact call hinner (.statement ⟨id, statement.index⟩) _ hmiddle
              (hcalled _ _ hmiddle.1 hmiddle.2 (List.mem_singleton.mpr rfl))
      · exact ends_pure () hmiddle

end

/-- Expansion for a demand of which something is true ends in a sound graph that has grown, or with
a fault of the kind that the calls on the way can end with. -/
theorem satisfy (hpursuit : Pursuit disk sound asked faulty) {demand : Demand}
    (hsound : sound before.graph) (hasked : asked budget before.graph demand) :
    Ends (fun graph => before.graph.Extends graph ∧ sound graph) faulty
      ((Build.satisfy disk budget demand).run before) := by
  -- a call within a budget makes its own calls within a smaller one
  induction budget generalizing demand before with
  | zero =>
      have hout := hpursuit.out _ demand hsound hasked
      cases demand <;> exact ends_throw hout
  | succ budget ih =>
      have hinner := fun demand (before : Progress) (hsound : sound before.graph)
        (hasked : asked budget before.graph demand) => ih hsound hasked
      cases demand with
      | statement address => exact expandStatement hpursuit hinner hsound hasked
      | name id name => exact define hpursuit hinner hsound hasked
      | everything id isEntry => exact expandAll hpursuit hinner hsound hasked

end Pursuit

end Build

/-! ## Looking after a name -/

namespace Graph

variable {before middle after : Graph}

/-- A later graph with the same modules, of which at most marks, suggestions and targets of imports
have changed. -/
structure Resembles (before after : Graph) : Prop where
  asRead : after.modules.map Module.asRead = before.modules.map Module.asRead
  paths : after.paths = before.paths
  resolver : before.ResolvesRight → after.ResolvesRight

theorem Resembles.refl (graph : Graph) : graph.Resembles graph := ⟨rfl, rfl, fun h => h⟩

theorem Resembles.trans (hfirst : before.Resembles middle) (hsecond : middle.Resembles after) :
    before.Resembles after :=
  ⟨hsecond.asRead.trans hfirst.asRead, hsecond.paths.trans hfirst.paths,
    fun h => hsecond.resolver (hfirst.resolver h)⟩

theorem Resembles.updateModule (graph : Graph) (id : Nat) {change : Module → Module}
    (hrest : ∀ module, (change module).asRead = module.asRead) :
    graph.Resembles (graph.updateModule id change) := by
  refine ⟨?_, rfl, fun h => h⟩
  refine List.ext_getElem? fun position => ?_
  have hget := module?_updateModule graph id position change
  unfold module? at hget
  rw [List.getElem?_map, List.getElem?_map, hget]
  split
  · rw [Option.map_map]
    exact congrArg (Option.map · _) (funext hrest)
  · rfl

theorem Resembles.updateExternal (graph : Graph) (id : Nat) (change : External → External) :
    graph.Resembles (graph.updateExternal id change) := ⟨rfl, rfl, fun h => h⟩

theorem Resembles.suggest (graph : Graph) (target : Target) (exported suggestion : String) :
    graph.Resembles (graph.suggest target exported suggestion) := by
  cases target with
  | internal id => exact .updateModule graph id fun module => asRead_suggest module _ _
  | external id => exact .updateExternal graph id _

theorem Resembles.follow (graph : Graph) (id : Nat) (importer : Module) (name : String)
    (entry : Import) (target : Target) :
    graph.Resembles (graph.follow id importer name entry target) :=
  follow_ind graph.Resembles (.updateModule graph id fun module => asRead_link module name target)
    fun middle exported suggestion h => h.trans (.suggest middle target exported suggestion)

theorem Resembles.addNamespace (graph : Graph) (id : Nat) :
    graph.Resembles (graph.addNamespace id) := by
  unfold Graph.addNamespace
  split
  · exact .refl graph
  · exact ⟨rfl, rfl, fun h => h⟩

theorem Resembles.idOf? (hresembles : before.Resembles after) (path : Path) :
    after.idOf? path = before.idOf? path := by
  unfold Graph.idOf?
  rw [hresembles.paths]

theorem Resembles.module? (hresembles : before.Resembles after) {id : Nat} {module : Module}
    (hmodule : after.module? id = some module) :
    ∃ earlier, before.module? id = some earlier ∧ module.asRead = earlier.asRead := by
  have hget := congrArg (·[id]?) hresembles.asRead
  simp only [List.getElem?_map] at hget
  rw [show after.modules[id]? = some module from hmodule, Option.map_some] at hget
  obtain ⟨earlier, hearlier, heq⟩ := Option.map_eq_some_iff.mp hget.symm
  exact ⟨earlier, hearlier, heq.symm⟩

theorem Resembles.later (hresembles : before.Resembles after) {id : Nat} {module : Module}
    (hmodule : before.module? id = some module) :
    ∃ later, after.module? id = some later ∧ later.asRead = module.asRead := by
  have hget := congrArg (·[id]?) hresembles.asRead
  simp only [List.getElem?_map] at hget
  rw [show before.modules[id]? = some module from hmodule, Option.map_some] at hget
  exact Option.map_eq_some_iff.mp hget

theorem Resembles.wellFormed (hresembles : before.Resembles after) (hwf : before.WellFormed) :
    after.WellFormed := by
  refine ⟨fun id module hmodule => ?_, fun path id hid => ?_, hresembles.resolver hwf.resolver⟩
  · obtain ⟨earlier, hearlier, hrest⟩ := hresembles.module? hmodule
    exact (hwf.module id earlier hearlier).of_asRead hrest
  · obtain ⟨module, hmodule, hsame⟩ := hwf.ofPath path id ((hresembles.idOf? path).symm.trans hid)
    obtain ⟨later, hlater, hrest⟩ := hresembles.later hmodule
    exact ⟨later, hlater, path_eq_of_asRead hrest ▸ hsame⟩

end Graph

namespace Build

variable {disk : Disk} {sound : Graph → Prop} {faulty : Fault → Graph → Prop} {before : Progress}
  {id : Nat} {importer module : Module} {name : String} {entry : Import} {target : Target}

/-- What an import leads to is found under its number, read, or refused with the fault of reading
it, unless it is an external module. -/
theorem ends_fetch (hright : ∀ graph, sound graph → graph.ResolvesRight)
    (hresembles : ∀ before after : Graph, before.Resembles after → sound before → sound after)
    {specifier : String} {importer : Path}
    (hread : ∀ graph path found, resolveFrom (directoryOf importer) specifier = .file path →
      graph.idOf? path = none → disk.module path = .ok found → sound graph →
      sound (graph.addModule path found))
    (hfaulty : ∀ graph path fault, resolveFrom (directoryOf importer) specifier = .file path →
      disk.module path = .error fault → sound graph → faulty fault graph)
    (hsound : sound before.graph) :
    Ends sound faulty ((fetch disk specifier importer).run before) := by
  obtain ⟨resolver, log, hcached, hrun⟩ := run_fetch (hright _ hsound) importer
  have hstart := hresembles before.graph { before.graph with resolver }
    ⟨rfl, rfl, fun _ => hcached⟩ hsound
  rw [hrun]
  generalize hprogress : ({ before with graph := { before.graph with resolver }, log } : Progress) =
    start
  replace hstart : sound start.graph := hprogress ▸ hstart
  cases hresolve : resolveFrom (directoryOf importer) specifier with
  | file path =>
      dsimp only
      rw [map_eq_pure_bind]
      cases hid : start.graph.idOf? path with
      | some known =>
          rw [run_bind_of_ok (run_load_known hid)]
          exact ends_pure _ hstart
      | none =>
          cases hmodule : disk.module path with
          | ok found =>
              obtain ⟨log, hload⟩ := run_load_read hid hmodule
              rw [run_bind_of_ok hload]
              exact ends_pure _ (hread start.graph path found hresolve hid hmodule hstart)
          | error fault =>
              obtain ⟨log, hload⟩ := run_load_failed hid hmodule
              rw [run_bind_of_error hload]
              exact hfaulty start.graph path fault hresolve hmodule hstart
  | external =>
      dsimp only
      rw [map_eq_pure_bind]
      cases hid : start.graph.externalIdOf? specifier with
      | some known =>
          rw [run_bind_of_ok (run_register_known hid)]
          exact ends_pure _ hstart
      | none =>
          obtain ⟨log, hregister⟩ := run_register_new hid
          rw [run_bind_of_ok hregister]
          exact ends_pure _ (hresembles start.graph _ ⟨rfl, rfl, fun h => h⟩ hstart)

/-- A name is looked after without a fault, unless its import leads to a file that is no module, or
to a module without such an export. -/
theorem ends_need (hwf : ∀ graph, sound graph → graph.WellFormed)
    (hresembles : ∀ before after : Graph, before.Resembles after → sound before → sound after)
    (hread : ∀ graph entry path found, module.imports.get? name = some entry →
      resolveFrom (directoryOf module.path) entry.source = .file path →
      graph.idOf? path = none → disk.module path = .ok found → sound graph →
      sound (graph.addModule path found))
    (hunread : ∀ graph entry path fault, module.imports.get? name = some entry →
      resolveFrom (directoryOf module.path) entry.source = .file path →
      disk.module path = .error fault → sound graph → faulty fault graph)
    (hmissing : ∀ graph entry path target exporter, module.imports.get? name = some entry →
      resolveFrom (directoryOf module.path) entry.source = .file path →
      graph.idOf? path = some target → graph.module? target = some exporter →
      entry.name ≠ "*" → exporter.exports.get? entry.name = none → sound graph →
      faulty (.missingExport exporter.path entry.name module.path) graph)
    (hsound : sound before.graph) :
    Ends sound faulty ((need disk id module name).run before) := by
  unfold need
  cases hentry : module.imports.get? name with
  | none =>
      dsimp only
      split
      · exact ends_pure _ hsound
      · exact ends_pure _ hsound
  | some entry =>
      dsimp only
      rw [importNeed_eq]
      refine ends_bind (ends_fetch (fun graph h => (hwf graph h).resolver) hresembles
        (fun graph path found => hread graph entry path found hentry)
        (fun graph path fault => hunread graph entry path fault hentry) hsound)
        fun target fetched hfetch hfetched => ?_
      obtain ⟨-, hleads⟩ := fetch_ok (hwf _ hsound) hfetch
      rw [run_change_bind]
      have hfollow := Graph.Resembles.follow fetched.graph id module name entry target
      have hfollowed := hresembles _ _ hfollow hfetched
      cases target with
      | external external =>
          rw [targetNeed, run_change_bind]
          exact ends_pure _ (hresembles _ _ (.updateExternal _ external _) hfollowed)
      | internal exporterId =>
          rw [targetNeed, run_get_bind]
          split
          · exact ends_pure _ hfollowed
          · rename_i exporter hexporter
            split
            · rw [run_report_bind, run_change_bind]
              exact ends_pure _ (hresembles _ _ (.addNamespace _ exporterId) hfollowed)
            · rename_i hwhole
              split
              · exact ends_pure _ hfollowed
              · rename_i hexported
                cases hresolve : resolveFrom (directoryOf module.path) entry.source with
                | external =>
                    rw [hresolve] at hleads
                    obtain ⟨external, htarget⟩ := hleads
                    contradiction
                | file path =>
                    rw [hresolve] at hleads
                    obtain ⟨found, htarget, hid⟩ := hleads
                    obtain rfl := Target.internal.inj htarget
                    refine ends_throw (hmissing _ entry path exporterId exporter hentry
                      hresolve ((hfollow.idOf? path).trans hid) hexporter ?_ hexported hfollowed)
                    simpa [Import.isNamespace] using hwhole

end Build

/-! ## Graphs that are read from a disk -/

namespace Graph

variable {disk : Disk} {graph before after : Graph}

/-- A well-formed graph whose modules have been read from a disk. -/
structure Genuine (disk : Disk) (graph : Graph) : Prop where
  wellFormed : graph.WellFormed
  read : ∀ id module, graph.module? id = some module →
    ∃ fresh, disk.module module.path = .ok fresh ∧ module.asRead = fresh.asRead

theorem genuine_empty (disk : Disk) : Graph.empty.Genuine disk :=
  ⟨complete_empty.wellFormed, by simp [module?, empty]⟩

theorem Genuine.of_resembles (hgenuine : before.Genuine disk)
    (hresembles : before.Resembles after) : after.Genuine disk := by
  refine ⟨hresembles.wellFormed hgenuine.wellFormed, fun id module hmodule => ?_⟩
  obtain ⟨earlier, hearlier, hrest⟩ := hresembles.module? hmodule
  obtain ⟨fresh, hfresh, heq⟩ := hgenuine.read id earlier hearlier
  exact ⟨fresh, path_eq_of_asRead hrest ▸ hfresh, hrest.trans heq⟩

theorem Genuine.addModule (hgenuine : graph.Genuine disk) {path : Path} {module : Module}
    (hmodule : disk.module path = .ok module) : (graph.addModule path module).Genuine disk := by
  obtain ⟨source, -, hsource⟩ := disk.module_eq_ok hmodule
  refine ⟨(quiet_addModule graph hsource).wellFormed hgenuine.wellFormed, fun id found hfound => ?_⟩
  rw [module?_addModule] at hfound
  split at hfound
  · obtain rfl := Option.some.inj hfound
    exact ⟨module, disk.module_path hmodule ▸ hmodule, rfl⟩
  · exact hgenuine.read id found hfound

end Graph

end ScriptBundler
