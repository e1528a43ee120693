import ScriptBundler.Proofs.Graph.Budgets
import ScriptBundler.Proofs.Graph.Reached

/-!
# Expansion comes to an end

Expansion is bounded by a budget, which shrinks with every call.  A call marks what it is for,
unless that is marked already, so that the calls under way are for different statements and names.
There are only so many of these, in the modules that have been read and in those that can still be
read: the budget of a graph is never used up, and any larger budget leads to the same outcome.
-/

namespace ScriptBundler

open Files ScriptBundler.Module Script

/-! ## Statements and names -/

namespace Module

variable {module other : Module} {id : Nat}

/-- The names that a module can be asked for: what its statements depend on, what its export lists
list, and what stands behind its exports. -/
def askedNames (module : Module) : List String :=
  module.statements.flatMap (fun statement => statement.dependsOn ++ listedNames statement.form) ++
    module.exports.map (·.2.localName)

/-- The statements of a module and the names that it can be asked for. -/
def demands (module : Module) (id : Nat) : List Demand :=
  (List.range module.statements.length).map (fun index => .statement ⟨id, index⟩) ++
    module.askedNames.map (.name id)

theorem demands_of_asRead (hrest : other.asRead = module.asRead) (id : Nat) :
    other.demands id = module.demands id := by
  have hdemands : ∀ module : Module, module.asRead.demands id = module.demands id := by
    intro module
    unfold demands askedNames asRead
    simp only [List.length_map, List.flatMap_map]
    rfl
  rw [← hdemands other, hrest, hdemands]

theorem home_of_mem_demands {demand : Demand} (hmem : demand ∈ module.demands id) :
    demand.home = id := by
  rcases List.mem_append.mp hmem with hstatement | hname
  · obtain ⟨index, -, rfl⟩ := List.mem_map.mp hstatement
    rfl
  · obtain ⟨name, -, rfl⟩ := List.mem_map.mp hname
    rfl

theorem weight_eq (module : Module) : module.weight = module.statements.length +
    total (module.statements.map fun statement =>
      (statement.dependsOn ++ listedNames statement.form).length) +
    module.imports.length + 2 * module.exports.length + 2 := by
  refine congrArg (fun counts : Statement → Nat => module.statements.length +
    total (module.statements.map counts) + module.imports.length + 2 * module.exports.length + 2)
    (funext fun statement => ?_)
  rw [List.length_append]
  refine congrArg (statement.dependsOn.length + ·) ?_
  dsimp only
  cases statement.form with
  | exportList specifiers source => cases specifiers <;> rfl
  | _ => rfl

/-- The weight of a module counts its statements and names. -/
theorem length_demands_le (module : Module) (id : Nat) :
    (module.demands id).length ≤ module.weight := by
  unfold demands askedNames
  rw [weight_eq, List.length_append, List.length_map, List.length_range, List.length_map,
    List.length_append, List.length_map, Graph.length_flatMap_eq_total]
  omega

end Module

namespace Graph

variable {graph before after : Graph} {demand : Demand}

/-- The statements of all modules and the names that they can be asked for. -/
def demands (graph : Graph) : List Demand :=
  graph.modules.zipIdx.flatMap fun entry => entry.1.demands entry.2

theorem mem_demands : demand ∈ graph.demands ↔
    ∃ module, graph.module? demand.home = some module ∧ demand ∈ module.demands demand.home := by
  unfold demands
  rw [List.mem_flatMap]
  constructor
  · rintro ⟨⟨module, id⟩, hmem, hdemand⟩
    obtain rfl := home_of_mem_demands hdemand
    exact ⟨module, List.mem_zipIdx_iff_getElem?.mp hmem, hdemand⟩
  · rintro ⟨module, hmodule, hdemand⟩
    exact ⟨(module, demand.home), List.mem_zipIdx_iff_getElem?.mpr hmodule, hdemand⟩

theorem length_demands_le (graph : Graph) :
    graph.demands.length ≤ total (graph.modules.map Module.weight) := by
  have hmodules : graph.modules.map Module.weight =
      graph.modules.zipIdx.map fun entry => entry.1.weight := by
    calc graph.modules.map Module.weight
        = (graph.modules.zipIdx.map (·.1)).map Module.weight := by rw [List.zipIdx_map_fst]
      _ = graph.modules.zipIdx.map fun entry => entry.1.weight := List.map_map
  rw [demands, length_flatMap_eq_total, hmodules]
  exact total_map_mono fun entry _ => entry.1.length_demands_le entry.2

theorem Extends.demands (hextends : before.Extends after) (hmem : demand ∈ before.demands) :
    demand ∈ after.demands := by
  obtain ⟨module, hmodule, hdemand⟩ := mem_demands.mp hmem
  obtain ⟨later, hlater, hgrows⟩ := hextends.module _ module hmodule
  exact mem_demands.mpr ⟨later, hlater, demands_of_asRead hgrows.asRead _ ▸ hdemand⟩

theorem mem_demands_of_statement? {address : Address} {statement : Statement}
    (hstatement : graph.statement? address = some statement) :
    Demand.statement address ∈ graph.demands := by
  obtain ⟨module, hmodule, hget⟩ := statement?_eq_some_iff.mp hstatement
  refine mem_demands.mpr ⟨module, hmodule, List.mem_append_left _ ?_⟩
  have hindex := List.mem_range.mpr (List.getElem?_eq_some_iff.mp hget).1
  exact List.mem_map.mpr ⟨address.index, hindex, rfl⟩

theorem mem_demands_of_mem_askedNames {id : Nat} {module : Module} {name : String}
    (hmodule : graph.module? id = some module) (hname : name ∈ module.askedNames) :
    Demand.name id name ∈ graph.demands :=
  mem_demands.mpr ⟨module, hmodule, List.mem_append_right _ (List.mem_map_of_mem hname)⟩

theorem mem_askedNames_of_export {module : Module} {name : String} {entry : Export}
    (hentry : module.exports.get? name = some entry) : entry.localName ∈ module.askedNames :=
  List.mem_append_right _ (List.mem_map.mpr ⟨_, Table.mem_of_get? hentry, rfl⟩)

theorem mem_askedNames_of_statement {address : Address} {statement : Statement} {name : String}
    (hstatement : graph.statement? address = some statement)
    (hname : name ∈ statement.dependsOn ++ listedNames statement.form) :
    Demand.name address.module name ∈ graph.demands := by
  obtain ⟨module, hmodule, hget⟩ := statement?_eq_some_iff.mp hstatement
  refine mem_demands_of_mem_askedNames hmodule (List.mem_append_left _ ?_)
  exact List.mem_flatMap.mpr ⟨statement, List.mem_of_getElem? hget, hname⟩

/-- Every name that is called for is one that its module can be asked for. -/
theorem Calls.mem_demands {id : Nat} {name : String} (hcalls : graph.Calls demand (.name id name)) :
    Demand.name id name ∈ graph.demands := by
  cases hcalls with
  | listed hstatement hname =>
      exact mem_askedNames_of_statement hstatement (List.mem_append_right _ hname)
  | dependency hstatement hname =>
      exact mem_askedNames_of_statement hstatement (List.mem_append_left _ hname)
  | namedImport _ _ _ _ hexporter hexported =>
      exact mem_demands_of_mem_askedNames hexporter (mem_askedNames_of_export hexported)
  | declaredDefault hmodule _ hentry _ =>
      exact mem_demands_of_mem_askedNames hmodule (mem_askedNames_of_export hentry)

end Graph

/-! ## What a graph can grow to -/

namespace Graph

variable {disk : Disk} {start graph before after : Graph} {demand : Demand}

/-- A later graph whose new modules have been read under different paths that imports lead to. -/
structure GrownFrom (disk : Disk) (start graph : Graph) : Prop extends graph.Genuine disk where
  fresh : ∃ paths : List Path, paths.Nodup ∧
    (∀ path ∈ paths, path ∈ disk.offers ∧ ∃ id, graph.idOf? path = some id) ∧
    graph.modules.map Module.weight = start.modules.map Module.weight ++ paths.map disk.weightAt

theorem GrownFrom.refl (hgenuine : graph.Genuine disk) : GrownFrom disk graph graph :=
  ⟨hgenuine, [], .nil, by simp, by simp⟩

theorem GrownFrom.of_resembles (hgrown : GrownFrom disk start before)
    (hresembles : before.Resembles after) : GrownFrom disk start after := by
  refine ⟨hgrown.toGenuine.of_resembles hresembles, ?_⟩
  obtain ⟨paths, hnodup, hoffers, hweights⟩ := hgrown.fresh
  refine ⟨paths, hnodup, fun path hmem => ?_, ?_⟩
  · rw [hresembles.idOf?]
    exact hoffers path hmem
  · have hmap : ∀ graph : Graph, graph.modules.map Module.weight =
        (graph.modules.map Module.asRead).map Module.weight := by
      intro graph
      rw [List.map_map]
      exact List.map_congr_left fun module _ => module.weight_asRead.symm
    rw [hmap, hresembles.asRead, ← hmap, hweights]

/-- A module that an import leads to, and that is not there yet. -/
theorem GrownFrom.addModule (hgrown : GrownFrom disk start graph) {path : Path} {module : Module}
    (hoffer : path ∈ disk.offers) (hnew : graph.idOf? path = none)
    (hmodule : disk.module path = .ok module) :
    GrownFrom disk start (graph.addModule path module) := by
  refine ⟨hgrown.toGenuine.addModule hmodule, ?_⟩
  obtain ⟨paths, hnodup, hoffers, hweights⟩ := hgrown.fresh
  refine ⟨paths ++ [path], List.nodup_append.mpr ⟨hnodup, List.nodup_singleton _, ?_⟩, ?_, ?_⟩
  · intro found hfound last hlast
    obtain rfl := List.mem_singleton.mp hlast
    rintro rfl
    obtain ⟨-, id, hid⟩ := hoffers _ hfound
    rw [hnew] at hid
    contradiction
  · intro found hfound
    rw [idOf?_addModule]
    rcases List.mem_append.mp hfound with hold | hlast
    · obtain ⟨hin, id, hid⟩ := hoffers found hold
      exact ⟨hin, id, by rw [hid, Option.some_or]⟩
    · obtain rfl := List.mem_singleton.mp hlast
      exact ⟨hoffer, _, by rw [hnew, Option.none_or, if_pos (Path.same_self _)]⟩
  · show (graph.modules ++ [module]).map Module.weight = _
    have hweight : disk.weightAt path = module.weight := by
      unfold Disk.weightAt
      rw [hmodule]
    rw [List.map_append, hweights, List.map_append, List.append_assoc]
    simp [hweight]

/-- How many statements and names expansion can come across, starting from a graph. -/
def capacity (disk : Disk) (graph : Graph) : Nat :=
  total (graph.modules.map Module.weight) + total (disk.offers.map disk.weightAt)

theorem GrownFrom.length_demands_le (hgrown : GrownFrom disk start graph) :
    graph.demands.length ≤ start.capacity disk := by
  obtain ⟨paths, hnodup, hoffers, hweights⟩ := hgrown.fresh
  refine Nat.le_trans graph.length_demands_le ?_
  rw [hweights, total_append, capacity]
  exact Nat.add_le_add_left
    (total_map_le_of_subset hnodup (fun path hmem => (hoffers path hmem).1) disk.weightAt) _

/-- The budget of a graph provides for all that expansion can come across. -/
theorem capacity_lt_budget (disk : Disk) (graph : Graph) :
    2 * graph.capacity disk + 2 < graph.budget disk := by
  have hoffers := disk.total_weightAt_offers
  have hpaths : total (disk.sources.map (·.imports.length)) + 4 ≤
      (total (disk.sources.map (·.imports.length)) + graph.modules.length + 4) *
        (disk.workingDirectory.length + 4) :=
    Nat.le_trans (by omega) (Nat.le_mul_of_pos_right _ (by omega))
  have hall := Nat.le_trans hoffers (Nat.mul_le_mul_right _ hpaths)
  have hbudget : graph.budget disk = 2 * (total (graph.modules.map Module.weight) +
      (total (disk.sources.map (·.imports.length)) + graph.modules.length + 4) *
        (disk.workingDirectory.length + 4) * total (disk.sources.map Module.weight)) + 4 := rfl
  rw [hbudget, capacity]
  omega

/-- Reading what an import of a module leads to. -/
theorem GrownFrom.fetch (hgrown : GrownFrom disk start graph) {path : Path}
    {importer fresh found : Module} {name : String} {entry : Import}
    (hfresh : disk.module importer.path = .ok fresh) (hrest : importer.asRead = fresh.asRead)
    (hentry : importer.imports.get? name = some entry)
    (hresolve : resolveFrom (directoryOf importer.path) entry.source = .file path)
    (hnew : graph.idOf? path = none) (hfound : disk.module path = .ok found) :
    GrownFrom disk start (graph.addModule path found) := by
  obtain ⟨other, hother, hsource, -⟩ := get?_imports_eq_some_of_asRead hrest.symm hentry
  rw [← hsource] at hresolve
  exact hgrown.addModule (Disk.mem_offers hfresh hother hresolve hfound) hnew hfound

end Graph

/-! ## Within the budget -/

namespace Graph

variable {disk : Disk} {start graph before after : Graph} {bound budget id : Nat} {name : String}
  {address : Address} {demand called : Demand}

/-- The depth that a demand takes beside the names and statements that are still to be marked. -/
def depth (graph : Graph) : Demand → Nat
  | .statement _ => 0
  | .name id name => if .name id name ∈ graph.demands then 0 else 2
  | .everything _ _ => 1

/-- Whether a budget suffices for a demand, if at most so many statements and names come up.  Those
that have been marked on the way are not marked again, and between two marks there is at most one
call for everything in a module. -/
def Affords (graph : Graph) (bound budget : Nat) (demand : Demand) : Prop :=
  ∃ marked : List Demand, marked.Nodup ∧
    (∀ other ∈ marked, graph.Marks other ∧ other ∈ graph.demands) ∧
    2 * bound + graph.depth demand < budget + 2 * marked.length

theorem depth_name_of_mem (hin : .name id name ∈ graph.demands) :
    graph.depth (.name id name) = 0 := if_pos hin

theorem depth_name_of_not_mem (hout : .name id name ∉ graph.demands) :
    graph.depth (.name id name) = 2 := if_neg hout

theorem depth_le (graph : Graph) (demand : Demand) : graph.depth demand ≤ 2 := by
  cases demand with
  | statement address => exact Nat.zero_le 2
  | name id name =>
      by_cases hin : Demand.name id name ∈ graph.demands
      · exact depth_name_of_mem hin ▸ Nat.zero_le 2
      · exact (depth_name_of_not_mem hin).le
  | everything id isEntry => exact Nat.le_succ 1

theorem affords_of_capacity (disk : Disk) (graph : Graph) (demand : Demand)
    (hbudget : graph.budget disk ≤ budget) :
    graph.Affords (graph.capacity disk) budget demand := by
  have hcapacity := graph.capacity_lt_budget disk
  have hdepth := graph.depth_le demand
  refine ⟨[], .nil, by simp, ?_⟩
  rw [List.length_nil]
  omega

/-- A budget that suffices for something is not used up. -/
theorem Affords.pos (haffords : graph.Affords bound budget demand)
    (hdemands : graph.demands.length ≤ bound) : 0 < budget := by
  obtain ⟨marked, hnodup, hmarked, hbudget⟩ := haffords
  have hlength := (hnodup.subperm fun other hother => (hmarked other hother).2).length_le
  omega

/-- What a budget suffices for leaves enough for what it calls for, without another mark. -/
theorem Affords.step (haffords : before.Affords bound (budget + 1) demand)
    (hextends : before.Extends after) (hdepth : after.depth called < before.depth demand) :
    after.Affords bound budget called := by
  obtain ⟨marked, hnodup, hmarked, hbudget⟩ := haffords
  refine ⟨marked, hnodup, fun other hother => ?_, by omega⟩
  obtain ⟨hmarks, hin⟩ := hmarked other hother
  exact ⟨hmarks.mono hextends, hextends.demands hin⟩

/-- One more mark leaves enough for all that is called for after it. -/
theorem Affords.mark (new : Demand) (haffords : before.Affords bound (budget + 1) demand)
    (hextends : before.Extends after) (hnew : ¬ before.Marks new) (hmarks : after.Marks new)
    (hin : new ∈ after.demands) (hdepth : after.depth called ≤ before.depth demand + 1) :
    after.Affords bound budget called := by
  obtain ⟨marked, hnodup, hmarked, hbudget⟩ := haffords
  refine ⟨new :: marked, List.nodup_cons.mpr ⟨fun hold => hnew (hmarked new hold).1, hnodup⟩,
    fun other hother => ?_, ?_⟩
  · rcases List.mem_cons.mp hother with rfl | hold
    · exact ⟨hmarks, hin⟩
    · obtain ⟨hearlier, hdemand⟩ := hmarked other hold
      exact ⟨hearlier.mono hextends, hextends.demands hdemand⟩
  · rw [List.length_cons]
    omega

/-- Only a call for everything in a module takes depth, and only a name makes one. -/
theorem Calls.depth_eq_zero (hcalls : graph.Calls demand called)
    (hname : ∀ id name, demand ≠ .name id name) : graph.depth called = 0 := by
  cases called with
  | statement address => rfl
  | name id name => exact depth_name_of_mem hcalls.mem_demands
  | everything id isEntry =>
      cases hcalls with
      | wholeImport => exact absurd rfl (hname _ _)

theorem Calls.depth_le_one (hcalls : graph.Calls demand called) : graph.depth called ≤ 1 := by
  cases called with
  | statement address => exact Nat.zero_le 1
  | name id name => exact depth_name_of_mem hcalls.mem_demands ▸ Nat.zero_le 1
  | everything id isEntry => exact Nat.le_refl 1

end Graph

namespace Build

variable {disk : Disk} {start graph : Graph} {demand : Demand}

/-- A fault other than that of the budget. -/
def Bounded (fault : Fault) (_ : Graph) : Prop :=
  fault ≠ .endlessProject

/-- The module that a path leads to is refused with a fault of its own. -/
theorem ne_endlessProject_of_module {path : Path} {fault : Fault}
    (hmodule : disk.module path = .error fault) : fault ≠ .endlessProject := by
  rcases disk.module_eq_error hmodule with ⟨cause, rfl⟩ | ⟨position, rfl⟩
  · exact Fault.noConfusion
  · exact Fault.noConfusion

/-- From a graph that is read from a disk, expansion stays within a budget for what the graph can
grow to. -/
theorem pursuit_affords (disk : Disk) (start : Graph) :
    Pursuit disk (Graph.GrownFrom disk start)
      (fun budget graph demand => graph.Affords (start.capacity disk) budget demand) Bounded where
  wellFormed := fun _ hgrown => hgrown.wellFormed
  mark := fun graph address hgrown =>
    hgrown.of_resembles (.updateModule graph address.module fun module =>
      asRead_includeStatement module address.index)
  out := fun _ _ hgrown haffords =>
    absurd (haffords.pos hgrown.length_demands_le) (Nat.lt_irrefl 0)
  statement := by
    intro budget before after address statement called hgrown haffords hstatement hincluded hextends
      hlater hcalls
    have hnotes := (Graph.notes_includeStatement before address).toExtends.trans hextends
    refine Graph.Affords.mark (.statement address) haffords hnotes ?_ ?_ ?_ ?_
    · intro hmarks
      have hold := (Graph.includes_iff_of_statement? hstatement).mp hmarks
      rw [hincluded] at hold
      contradiction
    · exact hextends.includes (Graph.includes_includeStatement_self hstatement)
    · exact hnotes.demands (Graph.mem_demands_of_statement? hstatement)
    · rw [hcalls.depth_eq_zero (by simp)]
      exact Nat.zero_le _
  everything := by
    intro budget before after id isEntry called hgrown haffords hextends hlater hcalls
    refine haffords.step hextends ?_
    rw [hcalls.depth_eq_zero (by simp)]
    exact Nat.zero_lt_one
  look := by
    intro budget before id module name hgrown haffords hmodule hnew
    obtain ⟨fresh, hfresh, hrest⟩ := hgrown.read id module hmodule
    refine ends_need (fun _ h => h.wellFormed) (fun _ _ hresembles h => h.of_resembles hresembles)
      ?_ ?_ ?_ ?_
    · intro graph entry path found hentry hresolve hunknown hfound h
      exact h.fetch hfresh hrest hentry hresolve hunknown hfound
    · exact fun _ _ _ _ _ _ hmodule _ => ne_endlessProject_of_module hmodule
    · intro graph entry path target exporter _ _ _ _ _ _ _
      simp [Bounded]
    · exact hgrown.of_resembles (.updateModule _ id fun _ => rfl)
  name := by
    intro budget before after id module name called hgrown haffords hmodule hnew hextends hlater
      hcalls
    have hnotes := (Graph.notes_request before id name).toExtends.trans hextends
    -- a demand that is counted is marked now, and any other leads to demands of a smaller depth
    by_cases hin : Demand.name id name ∈ before.demands
    · refine Graph.Affords.mark (.name id name) haffords hnotes ?_ ?_ (hnotes.demands hin) ?_
      · exact fun hmarks => hnew ((Graph.requested_iff_of_module? hmodule).mp hmarks)
      · exact hextends.requested (Graph.requested_request_self name hmodule)
      · exact Nat.le_trans hcalls.depth_le_one (Nat.le_add_left 1 _)
    · refine haffords.step hnotes ?_
      rw [Graph.depth_name_of_not_mem hin]
      exact Nat.lt_succ_of_le hcalls.depth_le_one

/-- Expansion from a graph that is read from a disk does not use up the budget. -/
theorem bounded_satisfy {budget : Nat} {before : Progress} (hgenuine : before.graph.Genuine disk)
    (hbudget : before.graph.budget disk ≤ budget) (demand : Demand) :
    Ends (Graph.GrownFrom disk before.graph) Bounded
      ((satisfy disk budget demand).run before) :=
  ((pursuit_affords disk before.graph).satisfy (.refl hgenuine)
    (Graph.affords_of_capacity disk before.graph demand hbudget)).mono fun _ h => h.2

/-! ## Larger budgets -/

section Outlasts

variable {α β : Type}

/-- Whether a computation does the same as another one, unless that one uses up its budget. -/
def Outlasts (long short : Build α) : Prop :=
  ∀ before : Progress, (∀ after, short.run before ≠ .error .endlessProject after) →
    long.run before = short.run before

theorem outlasts_self (computation : Build α) : Outlasts computation computation :=
  fun _ _ => rfl

theorem outlasts_bind {first other : Build α} {next last : α → Build β}
    (hfirst : Outlasts other first) (hnext : ∀ value, Outlasts (last value) (next value)) :
    Outlasts (other >>= last) (first >>= next) := by
  intro before hends
  have hother : other.run before = first.run before := by
    refine hfirst before fun after hrun => ?_
    exact hends after (run_bind_of_error hrun)
  cases hrun : first.run before with
  | ok value middle =>
      rw [run_bind_of_ok hrun, run_bind_of_ok (hother.trans hrun)]
      refine hnext value middle fun after => ?_
      rw [← run_bind_of_ok hrun]
      exact hends after
  | error fault after =>
      rw [run_bind_of_error hrun, run_bind_of_error (hother.trans hrun)]

theorem outlasts_forM {items : List α} {body other : α → Build Unit}
    (hbody : ∀ item, Outlasts (other item) (body item)) :
    Outlasts (items.forM other) (items.forM body) := by
  induction items with
  | nil => exact outlasts_self _
  | cons first rest ih => exact outlasts_bind (hbody first) fun _ => ih

end Outlasts

/-- Expansion within a larger budget does the same. -/
theorem outlasts_satisfy {budget more : Nat} (hmore : budget ≤ more) (demand : Demand) :
    Outlasts (satisfy disk more demand) (satisfy disk budget demand) := by
  induction budget generalizing more demand with
  | zero =>
      intro before hends
      cases demand <;> exact absurd rfl (hends before)
  | succ budget ih =>
      obtain ⟨more, rfl⟩ : ∃ less, more = less + 1 := ⟨more - 1, by omega⟩
      -- both budgets are spent by one, and all that is left is the same program on both sides
      have hinner : ∀ demand, Outlasts (satisfy disk more demand) (satisfy disk budget demand) :=
        ih (Nat.le_of_succ_le_succ hmore)
      cases demand with
      | statement address =>
          rw [satisfy, satisfy, expandStatement, expandStatement]
          refine outlasts_bind (outlasts_self _) fun progress => ?_
          split
          · exact outlasts_self _
          · rename_i statement _
            split
            · refine outlasts_bind (outlasts_self _) fun _ => ?_
              refine outlasts_bind
                (outlasts_forM fun name => hinner (.name address.module name)) fun _ => ?_
              refine outlasts_bind (outlasts_self _) fun _ => ?_
              refine outlasts_forM fun name => outlasts_bind (outlasts_self _) fun later => ?_
              split
              · exact outlasts_self _
              · refine outlasts_forM fun index => outlasts_bind (outlasts_self _) fun included => ?_
                split
                · exact outlasts_bind (outlasts_self _) fun _ =>
                    hinner (.statement ⟨address.module, index⟩)
                · exact outlasts_self _
            · exact outlasts_self _
      | name id name =>
          rw [satisfy, satisfy, define, define]
          refine outlasts_bind (outlasts_self _) fun progress => ?_
          split
          · exact outlasts_self _
          · split
            · refine outlasts_bind (outlasts_self _) fun _ => ?_
              refine outlasts_bind (outlasts_self _) fun needed => ?_
              cases needed with
              | nothing => exact outlasts_self _
              | statement address => exact hinner (.statement address)
              | name other exported => exact hinner (.name other exported)
              | everything other => exact hinner (.everything other false)
            · exact outlasts_self _
      | everything id isEntry =>
          rw [satisfy, satisfy, expandAll, expandAll]
          refine outlasts_bind (outlasts_self _) fun progress => ?_
          split
          · exact outlasts_self _
          · refine outlasts_forM fun statement => outlasts_bind (outlasts_self _) fun included => ?_
            split
            · split
              · exact outlasts_self _
              · exact outlasts_bind (outlasts_self _) fun _ =>
                  outlasts_forM fun name => hinner (.name id name)
              · exact hinner (.statement ⟨id, statement.index⟩)
            · exact outlasts_self _

/-! ## Reached graphs -/

theorem upkeep_genuine (disk : Disk) : Upkeep disk (Graph.Genuine disk) (Graph.Genuine disk) where
  weaken := fun _ hgenuine => hgenuine
  mark := fun graph address hgenuine =>
    hgenuine.of_resembles (.updateModule graph address.module fun module =>
      asRead_includeStatement module address.index)
  look := by
    intro before id module name hmodule hnew hgenuine
    refine leaves_iff_ends.mpr (ends_need (fun _ h => h.wellFormed)
      (fun _ _ hresembles h => h.of_resembles hresembles) ?_ (fun _ _ _ _ _ _ _ h => h)
      (fun _ _ _ _ _ _ _ _ _ _ _ h => h) ?_)
    · exact fun _ _ _ _ _ _ _ hfound h => h.addModule hfound
    · exact hgenuine.of_resembles (.updateModule _ id fun module => asRead_request module name)

end Build

namespace Graph

variable {disk : Disk} {graph : Graph}

theorem lasting_genuine (disk : Disk) : Lasting disk (Genuine disk) where
  empty := genuine_empty disk
  resolve := fun _ specifier importer hgenuine => hgenuine.of_resembles
    ⟨rfl, rfl, fun hright => (Resolver.resolve_right hright specifier importer).2⟩
  read := fun _ _ _ _ hmodule hgenuine => hgenuine.addModule hmodule
  register := fun _ _ _ hgenuine => hgenuine.of_resembles ⟨rfl, rfl, fun hright => hright⟩
  upkeep := Build.upkeep_genuine disk

/-- Expansion comes to an end in every reached graph: within its budget and within any larger one
the outcome is the same, and it is not that the budget has been used up. -/
theorem expansion_ends (before : Progress) (hreached : Reached disk before.graph)
    (demand : Demand) : ∃ result : EStateM.Result Fault Progress Unit,
      (∀ after, result ≠ .error .endlessProject after) ∧
      ∀ budget, before.graph.budget disk ≤ budget →
        (Build.satisfy disk budget demand).run before = result := by
  have hgenuine := hreached.of_lasting (lasting_genuine disk)
  have hends := Build.bounded_satisfy hgenuine (Nat.le_refl _) demand
  have hbounded : ∀ after, (Build.satisfy disk (before.graph.budget disk) demand).run before ≠
      .error .endlessProject after := by
    intro after hrun
    rw [hrun] at hends
    exact hends rfl
  exact ⟨_, hbounded, fun budget hbudget =>
    Build.outlasts_satisfy hbudget demand before hbounded⟩

/-- Two modules that import each other, and one that imports itself as a whole. -/
def knottedDisk : Disk where
  workingDirectory := []
  files :=
    [(["main.js"], .text ("import * as self from './main';\n" ++
        "import \x7b twice \x7d from './lib';\nexport var value = self.value;\n" ++
        "value = twice;\n").toList),
      (["lib.js"], .text ("import \x7b value \x7d from './main';\n" ++
        "export \x7b value as twice \x7d;\n").toList)]
  directories := []

/-- However large the budget, two statements are included, each of them once. -/
theorem expansion_ends_knottedDisk : ∃ graph, Reached knottedDisk graph ∧
    ∃ after : Progress, after.emitted = [⟨0, 3⟩, ⟨0, 2⟩] ∧
      ∀ budget, graph.budget knottedDisk ≤ budget →
        (Build.satisfy knottedDisk budget (.everything 0 true)).run
          { graph, emitted := [], log := [] } = .ok () after := by
  have hreached := (Reached.start : Reached knottedDisk .empty).loaded ⟨"main.js"⟩
  have hrequest : ((Graph.empty.run (Build.load knottedDisk ⟨"main.js"⟩)).graph.request
      knottedDisk (.everything 0 true)).result = .ok [⟨0, 3⟩, ⟨0, 2⟩] := by
    decide +kernel
  generalize (Graph.empty.run (Build.load knottedDisk ⟨"main.js"⟩)).graph = graph at *
  obtain ⟨after, hrun, -, hemitted⟩ := request_eq_ok hrequest
  obtain ⟨result, -, hresult⟩ := expansion_ends { graph, emitted := [], log := [] } hreached
    (.everything 0 true)
  obtain rfl := (hresult _ (Nat.le_refl _)).symm.trans hrun
  exact ⟨graph, hreached, after, hemitted, hresult⟩

end Graph

end ScriptBundler
