import ScriptBundler.Proofs.Graph.Closure

/-!
# Requests to a graph

A graph starts without modules.  Modules are read into it, and requests are made to it: for all
statements of a module, for a statement, or for a name.  `Graph.History` lists the requests that a
graph has answered, and `Graph.Demanded` is the least set of demands that holds them and is closed
under `Graph.Calls`.  The graph holds the statements in that set and no others.
-/

namespace ScriptBundler

open Files ScriptBundler.Module Script Relation

namespace Graph

/-- The outcome of the request for what is demanded. -/
def request (disk : Disk) (graph : Graph) : Demand → Outcome (List Address)
  | .statement address => graph.expandStatement disk address
  | .name id name => graph.define disk id name
  | .everything id isEntry => graph.expandAll disk id isEntry

/-- The graphs that have answered some requests without a fault, the last one first.  Only what the
graph has can be requested. -/
inductive History (disk : Disk) : List Demand → Graph → Prop where
  | start : History disk [] .empty
  | loaded {requests : List Demand} {graph : Graph} {path : Path} {id : Nat}
      (hhistory : History disk requests graph)
      (hresult : (graph.run (Build.load disk path)).result = .ok id) :
      History disk requests (graph.run (Build.load disk path)).graph
  | fetched {requests : List Demand} {graph : Graph} {specifier : String} {importer : Path}
      {target : Target} (hhistory : History disk requests graph)
      (hresult : (graph.run (Build.fetch disk specifier importer)).result = .ok target) :
      History disk requests (graph.run (Build.fetch disk specifier importer)).graph
  | requested {requests : List Demand} {graph : Graph} {demand : Demand}
      {statements : List Address} (hhistory : History disk requests graph)
      (hhas : graph.Has demand) (hresult : (graph.request disk demand).result = .ok statements) :
      History disk (demand :: requests) (graph.request disk demand).graph

/-- The demands that requests come down to: the least set that holds the requests, and with each
demand all that it calls for. -/
inductive Demanded (graph : Graph) (requests : List Demand) : Demand → Prop where
  | requested {demand : Demand} (hdemand : demand ∈ requests) : Demanded graph requests demand
  | called {demand called : Demand} (hdemand : Demanded graph requests demand)
      (hcalls : graph.Calls demand called) : Demanded graph requests called

/-- Whether the marks in a graph are those of the demands that requests come down to. -/
structure Complete (graph : Graph) (requests : List Demand) : Prop where
  wellFormed : graph.WellFormed
  settled : ∀ demand, graph.Marks demand → graph.Settled demand
  marked : ∀ demand ∈ requests, graph.Marks demand
  includes : ∀ address, graph.Includes address → graph.Demanded requests (.statement address)
  requested : ∀ id name, graph.Requested id name → graph.Demanded requests (.name id name)

variable {disk : Disk} {requests : List Demand} {graph before after : Graph} {demand : Demand}

theorem Demanded.mono (hextends : before.Extends after) {demand : Demand}
    (hdemanded : before.Demanded requests demand) : after.Demanded requests demand := by
  induction hdemanded with
  | requested hdemand => exact .requested hdemand
  | called _ hcalls ih => exact .called ih (hcalls.mono hextends)

theorem Demanded.of_cons {first : Demand} (hdemanded : graph.Demanded requests demand) :
    graph.Demanded (first :: requests) demand := by
  induction hdemanded with
  | requested hdemand => exact .requested (List.mem_cons_of_mem _ hdemand)
  | called _ hcalls ih => exact .called ih hcalls

theorem Demanded.of_reach {called : Demand} (hdemand : demand ∈ requests)
    (hreach : ReflTransGen graph.Calls demand called) : graph.Demanded requests called := by
  induction hreach with
  | refl => exact .requested hdemand
  | tail _ hcalls ih => exact .called ih hcalls

/-- What is demanded is marked. -/
theorem Complete.marks (hcomplete : graph.Complete requests)
    (hdemanded : graph.Demanded requests demand) : graph.Marks demand := by
  induction hdemanded with
  | requested hdemand => exact hcomplete.marked _ hdemand
  | called _ hcalls ih => exact (hcomplete.settled _ ih).calls _ hcalls

theorem complete_empty : Graph.empty.Complete [] := by
  have hmodule : ∀ id module, Graph.empty.module? id ≠ some module := by simp [module?, empty]
  constructor
  case wellFormed =>
    refine ⟨fun id module h => absurd h (hmodule id module), fun path id h => ?_,
      fun _ _ _ h => absurd h List.not_mem_nil⟩
    simp [idOf?, empty] at h
  case settled =>
    intro demand hmarks
    obtain ⟨module, h⟩ := hmarks.home
    exact absurd h (hmodule _ module)
  case marked => simp
  case includes =>
    rintro address ⟨module, h, -⟩
    exact absurd h (hmodule _ module)
  case requested =>
    rintro id name ⟨module, h, -⟩
    exact absurd h (hmodule _ module)

/-- Reading modules does not change what is demanded. -/
theorem Complete.of_quiet (hcomplete : before.Complete requests) (hquiet : before.Quiet after) :
    after.Complete requests where
  wellFormed := hquiet.wellFormed hcomplete.wellFormed
  settled := by
    intro demand hmarks
    cases demand with
    | statement address =>
        have hold := hquiet.includes address hmarks
        have hsettled := hcomplete.settled (.statement address) hold
        exact hsettled.mono hquiet.toExtends hold
    | name id name =>
        have hold := hquiet.requested id name hmarks
        have hsettled := hcomplete.settled (.name id name) hold
        exact hsettled.mono hquiet.toExtends hold
    | everything id isEntry => exact settled_everything hmarks
  -- a quiet step adds modules, and what was demanded before is demanded still
  marked := fun demand h => (hcomplete.marked demand h).mono hquiet.toExtends
  includes := fun address h =>
    (hcomplete.includes address (hquiet.includes address h)).mono hquiet.toExtends
  requested := fun id name h =>
    (hcomplete.requested id name (hquiet.requested id name h)).mono hquiet.toExtends

/-- Expansion for a demand answers one more request. -/
theorem Complete.of_expands (hcomplete : before.Complete requests)
    (hexpands : before.Expands demand after) (hmarks : after.Marks demand) :
    after.Complete (demand :: requests) where
  wellFormed := hexpands.wellFormed hcomplete.wellFormed
  settled := by
    intro other hother
    rcases hexpands.settled other hother with hold | hsettled
    · exact (hcomplete.settled other hold).mono hexpands.toExtends hold
    · exact hsettled
  marked := by
    intro other hother
    rcases List.mem_cons.mp hother with rfl | hother
    · exact hmarks
    · exact (hcomplete.marked other hother).mono hexpands.toExtends
  includes := by
    intro address h
    rcases hexpands.includes address h with hold | hreach
    · exact ((hcomplete.includes address hold).mono hexpands.toExtends).of_cons
    · exact .of_reach List.mem_cons_self hreach
  requested := by
    intro id name h
    rcases hexpands.requested id name h with hold | hreach
    · exact ((hcomplete.requested id name hold).mono hexpands.toExtends).of_cons
    · exact .of_reach List.mem_cons_self hreach

/-! ## Answered requests -/

theorem run_eq_ok {α : Type} {computation : Build α} {value : α}
    (hresult : (graph.run computation).result = .ok value) :
    ∃ after, EStateM.run computation { graph, emitted := [], log := [] } = .ok value after ∧
      (graph.run computation).graph = after.graph := by
  unfold run at hresult ⊢
  cases hrun : EStateM.run computation { graph, emitted := [], log := [] } with
  | ok found after =>
      rw [hrun] at hresult
      obtain rfl := Except.ok.inj hresult
      exact ⟨after, rfl, rfl⟩
  | error fault after =>
      rw [hrun] at hresult
      contradiction

/-- A request runs an expansion, and its answer is what this puts into the bundle. -/
theorem request_eq_ok {statements : List Address}
    (hresult : (graph.request disk demand).result = .ok statements) :
    ∃ after, (Build.satisfy disk (graph.budget disk) demand).run
        { graph, emitted := [], log := [] } = .ok () after ∧
      (graph.request disk demand).graph = after.graph ∧ after.emitted = statements := by
  have hrequest : graph.request disk demand =
      graph.run (Build.satisfy disk (graph.budget disk) demand).emitted := by
    cases demand <;> rfl
  rw [hrequest] at hresult ⊢
  obtain ⟨after, hrun, hgraph⟩ := run_eq_ok hresult
  obtain ⟨_, middle, hsatisfy, hemitted⟩ := run_bind_eq_ok hrun
  rw [run_get_bind, run_pure] at hemitted
  obtain ⟨hstatements, rfl⟩ := EStateM.Result.ok.inj hemitted
  exact ⟨middle, hsatisfy, hgraph, hstatements⟩

/-- A request is answered by an expansion for what is demanded. -/
theorem Complete.expands_of_request (hcomplete : before.Complete requests)
    (hhas : before.Has demand) {statements : List Address}
    (hresult : (before.request disk demand).result = .ok statements) :
    before.Expands demand (before.request disk demand).graph ∧
      (before.request disk demand).graph.Marks demand := by
  obtain ⟨after, hrun, hgraph, -⟩ := request_eq_ok hresult
  rw [hgraph]
  have hwf := hcomplete.wellFormed
  -- only a request can be for an entry module, and in between requests all marks are settled
  by_cases hentry : ∃ id, demand = .everything id true
  · obtain ⟨id, rfl⟩ := hentry
    obtain ⟨budget, hbudget⟩ := Build.exists_budget_of_satisfy hrun
    rw [hbudget] at hrun
    exact Build.expandAll_ok (Build.sound disk budget) hwf hhas
      (fun _ other hother => hcomplete.settled other hother) hrun
  · exact Build.sound disk (before.budget disk) demand _ after
      (fun id heq => hentry ⟨id, heq⟩) hwf hhas hrun

/-- A request is answered completely. -/
theorem Complete.of_request (hcomplete : before.Complete requests) (hhas : before.Has demand)
    {statements : List Address} (hresult : (before.request disk demand).result = .ok statements) :
    (before.request disk demand).graph.Complete (demand :: requests) := by
  obtain ⟨hexpands, hmarks⟩ := hcomplete.expands_of_request hhas hresult
  exact hcomplete.of_expands hexpands hmarks

theorem History.complete (hhistory : History disk requests graph) : graph.Complete requests := by
  induction hhistory with
  | start => exact complete_empty
  | loaded _ hresult ih =>
      obtain ⟨after, hrun, hgraph⟩ := run_eq_ok hresult
      rw [hgraph]
      exact ih.of_quiet (Build.load_ok hrun).1
  | fetched _ hresult ih =>
      obtain ⟨after, hrun, hgraph⟩ := run_eq_ok hresult
      rw [hgraph]
      exact ih.of_quiet (Build.fetch_ok ih.wellFormed hrun).1
  | requested _ hhas hresult ih => exact ih.of_request hhas hresult

/-- After any requests that are answered without a fault, a graph holds exactly the statements that
they come down to, and each import that they come down to has been followed. -/
theorem includes_iff_demanded (hhistory : History disk requests graph) :
    (∀ address, graph.Includes address ↔ graph.Demanded requests (.statement address)) ∧
      ∀ id name module entry, graph.Demanded requests (.name id name) →
        graph.module? id = some module → module.imports.get? name = some entry →
        graph.Followed module entry := by
  have hcomplete := hhistory.complete
  refine ⟨fun address => ⟨hcomplete.includes address, hcomplete.marks⟩, ?_⟩
  intro id name module entry hdemanded hmodule hentry
  have hsettled := hcomplete.settled _ (hcomplete.marks hdemanded)
  exact hsettled.followed id name module entry rfl hmodule hentry

/-- A module that uses one of two names of another one. -/
def sharedDisk : Disk where
  workingDirectory := []
  files :=
    [(["main.js"], .text "import \x7b used \x7d from './lib';\nvar result = used;\n".toList),
      (["lib.js"], .text "export var used = 1, n;\nn = used;\nexport var unused = n;\n".toList)]
  directories := []

/-- Only what modifies a name of an included statement is demanded along with it. -/
theorem demanded_sharedDisk : ∃ graph, History sharedDisk [.everything 0 true] graph ∧
    graph.Demanded [.everything 0 true] (.statement ⟨1, 1⟩) ∧
    ¬ graph.Demanded [.everything 0 true] (.statement ⟨1, 2⟩) := by
  have hload : (Graph.empty.run (Build.load sharedDisk ⟨"/main.js"⟩)).result = .ok 0 := by
    decide +kernel
  have hhas : (Graph.empty.run (Build.load sharedDisk ⟨"/main.js"⟩)).graph.Has
      (.everything 0 true) :=
    Option.isSome_iff_exists.mp (by decide +kernel)
  have hrequest : ((Graph.empty.run (Build.load sharedDisk ⟨"/main.js"⟩)).graph.request sharedDisk
      (.everything 0 true)).result = .ok [⟨1, 0⟩, ⟨1, 1⟩, ⟨0, 1⟩] := by
    decide +kernel
  have hhistory := History.requested (History.loaded .start hload) hhas hrequest
  refine ⟨_, hhistory, ?_, ?_⟩
  · rw [← (includes_iff_demanded hhistory).1, includes_iff, ← Option.any_eq_true]
    decide +kernel
  · rw [← (includes_iff_demanded hhistory).1, includes_iff, ← Option.any_eq_true]
    decide +kernel

end Graph

end ScriptBundler
