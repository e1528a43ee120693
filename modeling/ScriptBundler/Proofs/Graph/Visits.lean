import ScriptBundler.Proofs.Graph.Requests

/-!
# Expansion as a walk

What expansion does, without its budget, its log and the faults it may end with: it works through a
list of demands in order, and goes down into what an unmarked one calls for before it turns to the
next.  `Visits` is this walk as a relation, with one constructor for each thing that can happen to
the first demand of the list, and `Build.walks` says that every expansion which ends without
a fault is such a walk.

Facts about the order in which statements get into a bundle are proved by induction on the walk.
-/

namespace ScriptBundler

open Files ScriptBundler.Module Script Relation

/-- How far expansion has come: the graph, and the statements that are in the bundle so far. -/
structure Stage where
  graph : Graph
  emitted : List Address

namespace Stage

/-- Marks a statement as included. -/
def mark (stage : Stage) (address : Address) : Stage :=
  { stage with
    graph := stage.graph.updateModule address.module (·.includeStatement address.index) }

/-- Puts a statement into the bundle. -/
def emit (stage : Stage) (address : Address) : Stage :=
  { stage with emitted := stage.emitted ++ [address] }

/-- Marks a name as asked for. -/
def request (stage : Stage) (id : Nat) (name : String) : Stage :=
  { stage with graph := stage.graph.updateModule id (·.request name) }

end Stage

/-- The stage that building has come to. -/
def Progress.stage (progress : Progress) : Stage :=
  ⟨progress.graph, progress.emitted⟩

/-- The demands for the statements that may modify what a statement defines. -/
def Module.modifierDemands (module : Module) (id : Nat) (statement : Statement) : List Demand :=
  statement.defines.flatMap fun name =>
    (module.modifiersOf name).map fun index => .statement ⟨id, index⟩

/-- How a list of demands is worked through, from one stage to another.  Nothing is done for a
demand that is marked already. -/
inductive Visits : List Demand → Stage → Stage → Prop where
  | done (stage : Stage) : Visits [] stage stage
  | marked {demand : Demand} {rest : List Demand} {before after : Stage}
      (hmarks : before.graph.Marks demand) (hrest : Visits rest before after) :
      Visits (demand :: rest) before after
  /-- An export list is marked; it does not go into the bundle. -/
  | listing {address : Address} {statement : Statement} {rest : List Demand} {before after : Stage}
      (hnew : ¬ before.graph.Includes address)
      (hstatement : before.graph.statement? address = some statement)
      (hlisted : listedNames statement.form ≠ [])
      (hrest : Visits rest (before.mark address) after) :
      Visits (.statement address :: rest) before after
  /-- A statement goes into the bundle after what it depends on and before what may modify it. -/
  | statement {address : Address} {statement : Statement} {module : Module} {rest : List Demand}
      {before needed modified after : Stage} (hnew : ¬ before.graph.Includes address)
      (hstatement : before.graph.statement? address = some statement)
      (hplain : listedNames statement.form = [])
      (hmodule : before.graph.module? address.module = some module)
      (hneeds : Visits (statement.dependsOn.map (.name address.module)) (before.mark address)
        needed)
      (hmodifiers : Visits (module.modifierDemands address.module statement) (needed.emit address)
        modified)
      (hrest : Visits rest modified after) :
      Visits (.statement address :: rest) before after
  /-- A name is marked, and its import is followed, before what it calls for. -/
  | name {id : Nat} {name : String} {module : Module} {needed : Need} {rest : List Demand}
      {before followed expanded after : Stage} (hnew : ¬ before.graph.Requested id name)
      (hmodule : before.graph.module? id = some module)
      (hquiet : (before.request id name).graph.Quiet followed.graph)
      (hemitted : followed.emitted = before.emitted) (hmeets : followed.graph.Meets id name needed)
      (hneeded : Visits needed.demand.toList followed expanded)
      (hrest : Visits rest expanded after) :
      Visits (.name id name :: rest) before after
  | everything {id : Nat} {module : Module} {rest : List Demand} {before expanded after : Stage}
      (hmodule : before.graph.module? id = some module)
      (hall : Visits (module.statements.flatMap (wanted id false)) before expanded)
      (hrest : Visits rest expanded after) :
      Visits (.everything id false :: rest) before after

namespace Visits

variable {demands more : List Demand} {before middle after : Stage}

theorem append (hfirst : Visits demands before middle) (hsecond : Visits more middle after) :
    Visits (demands ++ more) before after := by
  induction hfirst with
  | done => exact hsecond
  | marked hmarks _ ih => exact .marked hmarks (ih hsecond)
  | listing hnew hstatement hlisted _ ih =>
      exact .listing hnew hstatement hlisted (ih hsecond)
  | statement hnew hstatement hplain hmodule hneeds hmodifiers _ _ _ ih =>
      exact .statement hnew hstatement hplain hmodule hneeds hmodifiers (ih hsecond)
  | name hnew hmodule hquiet hemitted hmeets hneeded _ _ ih =>
      exact .name hnew hmodule hquiet hemitted hmeets hneeded (ih hsecond)
  | everything hmodule hall _ _ ih => exact .everything hmodule hall (ih hsecond)

theorem extends_mark (stage : Stage) (address : Address) :
    stage.graph.Extends (stage.mark address).graph :=
  (Graph.notes_includeStatement stage.graph address).toExtends

theorem extends_request (stage : Stage) (id : Nat) (name : String) :
    stage.graph.Extends (stage.request id name).graph :=
  (Graph.notes_request stage.graph id name).toExtends

theorem mark_wellFormed {address : Address} (hwf : before.graph.WellFormed) :
    (before.mark address).graph.WellFormed :=
  (Graph.notes_includeStatement before.graph address).wellFormed hwf

theorem request_wellFormed {id : Nat} {name : String} (hwf : before.graph.WellFormed) :
    (before.request id name).graph.WellFormed :=
  (Graph.notes_request before.graph id name).wellFormed hwf

theorem grows (hvisits : Visits demands before after) :
    before.graph.Extends after.graph := by
  induction hvisits with
  | done stage => exact .refl _
  | marked _ _ ih => exact ih
  | listing _ _ _ _ ih => exact (extends_mark _ _).trans ih
  | statement _ _ _ _ _ _ _ ihneeds ihmodifiers ihrest =>
      exact (extends_mark _ _).trans (ihneeds.trans (ihmodifiers.trans ihrest))
  | name _ _ hquiet _ _ _ _ ihneeded ihrest =>
      exact (extends_request _ _ _).trans (hquiet.toExtends.trans (ihneeded.trans ihrest))
  | everything _ _ _ ihall ihrest => exact ihall.trans ihrest

theorem wellFormed (hvisits : Visits demands before after) (hwf : before.graph.WellFormed) :
    after.graph.WellFormed := by
  induction hvisits with
  | done stage => exact hwf
  | marked _ _ ih => exact ih hwf
  | listing _ _ _ _ ih => exact ih (mark_wellFormed hwf)
  | statement _ _ _ _ _ _ _ ihneeds ihmodifiers ihrest =>
      exact ihrest (ihmodifiers (ihneeds (mark_wellFormed hwf)))
  | name _ _ hquiet _ _ _ _ ihneeded ihrest =>
      exact ihrest (ihneeded (hquiet.wellFormed (request_wellFormed hwf)))
  | everything _ _ _ ihall ihrest => exact ihrest (ihall hwf)

end Visits

/-! ## The demands of a walk are called for -/

namespace Graph

variable {graph : Graph} {address : Address} {statement : Statement} {module : Module} {id : Nat}
  {name : String} {needed : Need} {called : Demand}

theorem calls_of_mem_dependsOn (hstatement : graph.statement? address = some statement)
    (hcalled : called ∈ statement.dependsOn.map (.name address.module)) :
    graph.Calls (.statement address) called := by
  obtain ⟨name, hname, rfl⟩ := List.mem_map.mp hcalled
  exact .dependency hstatement hname

theorem calls_of_mem_modifierDemands (hstatement : graph.statement? address = some statement)
    (hmodule : graph.module? address.module = some module)
    (hcalled : called ∈ module.modifierDemands address.module statement) :
    graph.Calls (.statement address) called := by
  obtain ⟨name, hname, hmodifier⟩ := List.mem_flatMap.mp hcalled
  obtain ⟨index, hindex, rfl⟩ := List.mem_map.mp hmodifier
  exact .modifier hstatement hname hmodule hindex

theorem calls_of_mem_wanted (hwf : graph.WellFormed) (hmodule : graph.module? id = some module)
    (hcalled : called ∈ module.statements.flatMap (wanted id false)) :
    graph.Calls (.everything id false) called :=
  (calls_everything_iff hmodule (hwf.module id module hmodule)).mpr (List.mem_flatMap.mp hcalled)

theorem Meets.calls_of_mem (hmeets : graph.Meets id name needed)
    (hcalled : called ∈ needed.demand.toList) : graph.Calls (.name id name) called :=
  (hmeets.calls called).mpr (Option.mem_toList.mp hcalled)

end Graph

/-! ## Computations that put nothing into the bundle -/

namespace Build

section Silent

variable {α β : Type}

/-- Whether a computation puts no statement into the bundle. -/
def Silent (computation : Build α) : Prop :=
  ∀ before value after, computation.run before = .ok value after → after.emitted = before.emitted

theorem Silent.pure (value : α) : Silent (pure value : Build α) := by
  intro before result after hrun
  rw [run_pure] at hrun
  obtain ⟨-, rfl⟩ := EStateM.Result.ok.inj hrun
  rfl

theorem Silent.throw (fault : Fault) : Silent (throw fault : Build α) := by
  intro before result after hrun
  rw [run_throw] at hrun
  contradiction

theorem Silent.get : Silent (get : Build Progress) := by
  intro before result after hrun
  obtain ⟨-, rfl⟩ := EStateM.Result.ok.inj hrun
  rfl

theorem Silent.report (entries : List Log.Entry) : Silent (report entries) := by
  intro before result after hrun
  obtain ⟨-, rfl⟩ := EStateM.Result.ok.inj hrun
  rfl

theorem Silent.change (step : Graph → Graph) : Silent (change step) := by
  intro before result after hrun
  obtain ⟨-, rfl⟩ := EStateM.Result.ok.inj hrun
  rfl

theorem Silent.bind {first : Build α} {next : α → Build β} (hfirst : Silent first)
    (hnext : ∀ value, Silent (next value)) : Silent (first >>= next) := by
  intro before result after hrun
  obtain ⟨value, middle, hvalue, hresult⟩ := run_bind_eq_ok hrun
  exact (hnext value _ _ _ hresult).trans (hfirst _ _ _ hvalue)

theorem Silent.map {change : α → β} {first : Build α} (hfirst : Silent first) :
    Silent (change <$> first) := by
  intro before result after hrun
  obtain ⟨value, hvalue, -⟩ := run_map_eq_ok hrun
  exact hfirst _ _ _ hvalue

variable (disk : Disk)

theorem silent_load (path : Path) : Silent (load disk path) := by
  unfold load
  refine .bind .get fun progress => ?_
  dsimp only
  split
  · exact .pure _
  · refine .bind (.report _) fun _ => ?_
    split
    · exact .throw _
    · split
      · exact .throw _
      · exact .bind (.report _) fun _ => .bind (.change _) fun _ => .pure _

theorem silent_register (specifier : String) : Silent (register specifier) := by
  unfold register
  refine .bind .get fun progress => ?_
  dsimp only
  split
  · exact .pure _
  · exact .bind (.report _) fun _ => .bind (.change _) fun _ => .pure _

theorem silent_fetch (specifier : String) (importer : Path) :
    Silent (fetch disk specifier importer) := by
  unfold fetch
  refine .bind .get fun progress => .bind (.change _) fun _ => .bind (.report _) fun _ => ?_
  split
  · exact (silent_load disk _).map
  · exact (silent_register _).map

theorem silent_targetNeed (importer : Module) (entry : Import) (target : Target) :
    Silent (targetNeed importer entry target) := by
  unfold targetNeed
  split
  · exact .bind (.change _) fun _ => .pure _
  · refine .bind .get fun progress => ?_
    split
    · exact .pure _
    · split
      · exact .bind (.report _) fun _ => .bind (.change _) fun _ => .pure _
      · split
        · exact .pure _
        · exact .throw _

/-- Looking up a name puts nothing into the bundle. -/
theorem silent_need (id : Nat) (module : Module) (name : String) :
    Silent (need disk id module name) := by
  unfold need
  split
  · rename_i entry hentry
    have htarget := silent_targetNeed module entry
    unfold importNeed
    refine .bind (silent_fetch disk _ _) fun target => .bind (.change _) fun _ => ?_
    by_cases hdefault : entry.isDefault = true <;>
      by_cases hwhole : entry.isNamespace = true
    · rw [if_pos hdefault, if_pos hwhole]
      exact .bind (.change _) fun _ => .bind (.change _) fun _ => htarget target
    · rw [if_pos hdefault, if_neg hwhole]
      exact .bind (.change _) fun _ => htarget target
    · rw [if_neg hdefault, if_pos hwhole]
      exact .bind (.change _) fun _ => htarget target
    · rw [if_neg hdefault, if_neg hwhole]
      exact htarget target
  · split
    · exact .bind (.report _) fun _ => .pure _
    · exact .pure _

end Silent

/-! ## Every expansion is a walk -/

variable {disk : Disk} {budget : Nat} {before after : Progress}

/-- Whether expansion within a budget, for anything but an entry module, walks. -/
def Walks (disk : Disk) (budget : Nat) : Prop :=
  ∀ (demand : Demand) (before after : Progress), (∀ id, demand ≠ .everything id true) →
    before.graph.WellFormed → before.graph.Has demand →
    (satisfy disk budget demand).run before = .ok () after →
    Visits [demand] before.stage after.stage

/-- A loop walks through what its steps walk through.  What holds of the graph between the steps is
up to the loop. -/
theorem visits_forM {α : Type} {items : List α} {body : α → Build Unit}
    (targets : α → List Demand) (between : Graph → Prop)
    (hbody : ∀ item ∈ items, ∀ before after : Progress, between before.graph →
      before.graph.WellFormed → (body item).run before = .ok () after →
      Visits (targets item) before.stage after.stage ∧ between after.graph)
    (hbetween : between before.graph) (hwf : before.graph.WellFormed)
    (hrun : (items.forM body).run before = .ok () after) :
    Visits (items.flatMap targets) before.stage after.stage := by
  induction items generalizing before with
  | nil =>
      rw [run_forM_nil] at hrun
      obtain ⟨-, rfl⟩ := EStateM.Result.ok.inj hrun
      exact .done _
  | cons first rest ih =>
      obtain ⟨middle, hfirst, hrest⟩ := run_forM_cons_eq_ok hrun
      obtain ⟨hstep, hmiddle⟩ := hbody first List.mem_cons_self _ _ hbetween hwf hfirst
      have hsteps := ih (fun item hitem => hbody item (List.mem_cons_of_mem _ hitem)) hmiddle
        (hstep.wellFormed hwf) hrest
      rw [List.flatMap_cons]
      exact hstep.append hsteps

/-- A loop over a graph that only grows. -/
theorem visits_forM_of_extends {α : Type} {items : List α} {body : α → Build Unit}
    (targets : α → List Demand) {start : Graph}
    (hbody : ∀ item ∈ items, ∀ before after : Progress, start.Extends before.graph →
      before.graph.WellFormed → (body item).run before = .ok () after →
      Visits (targets item) before.stage after.stage)
    (hextends : start.Extends before.graph) (hwf : before.graph.WellFormed)
    (hrun : (items.forM body).run before = .ok () after) :
    Visits (items.flatMap targets) before.stage after.stage := by
  refine visits_forM targets start.Extends (fun item hitem before after hextends hwf hrun => ?_)
    hextends hwf hrun
  have hstep := hbody item hitem before after hextends hwf hrun
  exact ⟨hstep, hextends.trans hstep.grows⟩

theorem visits_define_forM (hwalks : Walks disk budget) {id : Nat} {names : List String}
    {module : Module} (hmodule : before.graph.module? id = some module)
    (hwf : before.graph.WellFormed)
    (hrun : (names.forM (define disk budget id)).run before = .ok () after) :
    Visits (names.map (.name id)) before.stage after.stage := by
  have hall := visits_forM_of_extends (fun name => [Demand.name id name])
    (fun name _ before after hextends hwf hrun => by
      obtain ⟨later, hlater, -⟩ := hextends.module id module hmodule
      exact hwalks (.name id name) before after (by simp) hwf ⟨later, hlater⟩ hrun)
    (.refl before.graph) hwf hrun
  rw [List.map_eq_flatMap]
  exact hall

/-- A statement that may modify something is visited, unless it is included already. -/
theorem visits_modifier (hwalks : Walks disk budget) {id index : Nat} {name : String}
    (hhas : before.graph.Has (.statement ⟨id, index⟩)) (hwf : before.graph.WellFormed)
    (hrun : (includeModifier disk budget id name index).run before = .ok () after) :
    Visits [.statement ⟨id, index⟩] before.stage after.stage := by
  obtain ⟨statement, hstatement, hform⟩ := hhas
  rcases run_unless_included_cases hstatement hrun with ⟨hincluded, rfl⟩ | ⟨-, hrun⟩
  · exact .marked ((Graph.includes_iff_of_statement? hstatement).mpr hincluded) (.done _)
  · rw [run_report_bind] at hrun
    exact hwalks (.statement ⟨id, index⟩) { before with log := before.log ++ _ } after (by simp)
      hwf ⟨statement, hstatement, hform⟩ hrun

/-- The statements that may modify what a statement defines are visited one after the other. -/
theorem visits_modifiers_forM (hwalks : Walks disk budget) {address : Address}
    {statement : Statement} {module : Module} {start : Graph}
    (hstatement : start.statement? address = some statement)
    (hmodule : start.module? address.module = some module)
    (hrun : (includeModifiers disk budget address.module statement.defines).run before =
      .ok () after)
    (hextends : start.Extends before.graph) (hwf : before.graph.WellFormed) :
    Visits (module.modifierDemands address.module statement) before.stage after.stage := by
  refine visits_forM_of_extends _ (fun name hname before after hextends hwf hrun => ?_) hextends
    hwf hrun
  obtain ⟨later, hlater, hgrows⟩ := hextends.module _ module hmodule
  rw [run_get_bind] at hrun
  simp only [hlater, modifiersOf_eq_of_asRead hgrows.asRead] at hrun
  -- the inner loop, over the modifiers of one name
  rw [List.map_eq_flatMap]
  refine visits_forM_of_extends _ (fun index hindex before after hextends hwf hrun => ?_) hextends
    hwf hrun
  have hcalls : start.Calls (.statement address) (.statement ⟨address.module, index⟩) :=
    .modifier hstatement hname hmodule hindex
  have hhas := (hcalls.mono hextends).has hwf (by simp)
  exact visits_modifier hwalks hhas hwf hrun

/-- Including a statement visits it. -/
theorem visits_expandStatement (hwalks : Walks disk budget) {address : Address}
    (hwf : before.graph.WellFormed) (hhas : before.graph.Has (.statement address))
    (hrun : (expandStatement disk (budget + 1) address).run before = .ok () after) :
    Visits [.statement address] before.stage after.stage := by
  obtain ⟨statement, hstatement, hform⟩ := hhas
  have hincludes := Graph.includes_iff_of_statement? hstatement
  rcases expandStatement_cases hstatement hrun with
    ⟨hincluded, rfl⟩ | ⟨hincluded, middle, hdependencies, hrun⟩
  · exact .marked (hincludes.mpr hincluded) (.done _)
  · have hnew : ¬ before.graph.Includes address := by simp [hincludes, hincluded]
    have hnotes := Graph.notes_includeStatement before.graph address
    obtain ⟨module, hmodule, -⟩ := Graph.statement?_eq_some_iff.mp hstatement
    obtain ⟨marked, hmarked, -⟩ := hnotes.toExtends.module _ module hmodule
    have hneeds := visits_define_forM hwalks hmarked (hnotes.wellFormed hwf) hdependencies
    have hextends := (Visits.extends_mark before.stage address).trans hneeds.grows
    have hmodifiers := visits_modifiers_forM hwalks hstatement hmodule hrun hextends
      (hneeds.wellFormed (hnotes.wellFormed hwf))
    exact .statement hnew hstatement hform hmodule hneeds hmodifiers (.done _)

/-- Looking after a name visits it. -/
theorem visits_define (hwalks : Walks disk budget) {id : Nat} {name : String}
    (hwf : before.graph.WellFormed) (hhas : before.graph.Has (.name id name))
    (hrun : (define disk (budget + 1) id name).run before = .ok () after) :
    Visits [.name id name] before.stage after.stage := by
  obtain ⟨module, hmodule⟩ := hhas
  rcases define_cases hmodule hrun with ⟨hrequested, rfl⟩ | ⟨hnew, needed, middle, hneed, hrest⟩
  · exact .marked hrequested (.done _)
  · obtain ⟨hquiet, hmeets⟩ := need_request_ok hwf hmodule hneed
    have hemitted := silent_need disk id module name _ _ _ hneed
    have hneeded : Visits needed.demand.toList middle.stage after.stage := by
      rcases hrest with ⟨hnothing, rfl⟩ | ⟨called, hdemand, hinner, hrun⟩
      · rw [hnothing]
        exact .done _
      · have hcalls := (hmeets.calls called).mpr hdemand
        have hwf' := hquiet.wellFormed ((Graph.notes_request _ _ _).wellFormed hwf)
        rw [hdemand]
        exact hwalks called middle after hinner hwf' (hcalls.has hwf' (by simp)) hrun
    have hfollowed : (before.stage.request id name).graph.Quiet middle.stage.graph := hquiet
    exact .name hnew hmodule hfollowed hemitted hmeets hneeded (.done _)

/-- One statement of a module that is demanded as a whole: what is wanted of it is visited. -/
theorem visits_expandAll_step (hwalks : Walks disk budget) {id : Nat} {isEntry : Bool}
    {start : Graph} {module : Module} {statement : Statement}
    (hmodule : start.module? id = some module) (hmem : statement ∈ module.statements)
    (hwfmodule : module.WellFormed)
    (hsettled : isEntry = true → ∀ other, start.Marks other → start.Settled other)
    (hexpands : start.Expands (.everything id isEntry) before.graph)
    (hwf : before.graph.WellFormed)
    (hrun : (includeWanted disk budget id isEntry statement).run before = .ok () after) :
    Visits (wanted id isEntry statement) before.stage after.stage ∧
      before.graph.Expands (.everything id isEntry) after.graph := by
  obtain ⟨hstep, hwanted⟩ :=
    expandAll_step_ok (sound disk budget) hmodule hmem hwfmodule hsettled hexpands hwf hrun
  refine ⟨?_, hstep⟩
  obtain ⟨index, hget⟩ := List.getElem?_of_mem hmem
  obtain rfl := hwfmodule.index _ _ hget
  have hstatement : start.statement? ⟨id, statement.index⟩ = some statement :=
    Graph.statement?_eq_some_iff.mpr ⟨module, hmodule, hget⟩
  obtain ⟨later, hlater, hrest⟩ := hexpands.toExtends.statement? hstatement
  have hform := Statement.form_eq_of_asRead hrest
  rcases run_unless_included_cases hlater hrun with ⟨-, rfl⟩ | ⟨hincluded, hrun⟩
  · -- the statement has been dealt with, and all that is wanted of it is marked
    generalize wanted id isEntry statement = demands at hwanted
    induction demands with
    | nil => exact .done _
    | cons first rest ih =>
        exact .marked (hwanted first List.mem_cons_self)
          (ih fun called hcalled => hwanted called (List.mem_cons_of_mem _ hcalled))
  · clear hwanted
    unfold wanted
    cases hrole : roleOf isEntry statement.form with
    | onDemand =>
        rw [hrole, run_pure] at hrun
        obtain ⟨-, rfl⟩ := EStateM.Result.ok.inj hrun
        exact .done _
    | included =>
        rw [hrole] at hrun
        obtain ⟨-, hlisted⟩ := roleOf_eq_included_iff.mp hrole
        exact hwalks (.statement ⟨id, statement.index⟩) before after (by simp) hwf
          ⟨later, hlater, hform ▸ hlisted⟩ hrun
    | listing locals =>
        rw [hrole, run_mark_bind] at hrun
        obtain ⟨-, rfl, hlisted⟩ := roleOf_eq_listing_iff.mp hrole
        have hnew : ¬ before.graph.Includes ⟨id, statement.index⟩ := by
          simp [Graph.includes_iff_of_statement? hlater, hincluded]
        have hnotes := Graph.notes_includeStatement before.graph ⟨id, statement.index⟩
        obtain ⟨marked, hmarked, -⟩ :=
          (hexpands.toExtends.trans hnotes.toExtends).module id module hmodule
        have hnames := visits_define_forM hwalks hmarked (hnotes.wellFormed hwf) hrun
        exact .listing hnew hlater (hform ▸ hlisted) hnames

/-- Expanding a module visits what is wanted of its statements, in source order. -/
theorem visits_expandAll (hwalks : Walks disk budget) {id : Nat} {isEntry : Bool} {module : Module}
    (hwf : before.graph.WellFormed) (hmodule : before.graph.module? id = some module)
    (hsettled : isEntry = true → ∀ other, before.graph.Marks other → before.graph.Settled other)
    (hrun : (expandAll disk (budget + 1) id isEntry).run before = .ok () after) :
    Visits (module.statements.flatMap (wanted id isEntry)) before.stage after.stage := by
  have hwfmodule := hwf.module id module hmodule
  rw [expandAll, run_get_bind] at hrun
  simp only [hmodule] at hrun
  refine visits_forM _ (before.graph.Expands (.everything id isEntry))
    (fun statement hmem middle later hexpands hwf hrun => ?_) (.refl _ _) hwf hrun
  obtain ⟨hvisits, hstep⟩ :=
    visits_expandAll_step hwalks hmodule hmem hwfmodule hsettled hexpands hwf hrun
  exact ⟨hvisits, hexpands.trans hstep⟩

/-- Every expansion within a budget that ends without a fault is a walk. -/
theorem walks (disk : Disk) (budget : Nat) : Walks disk budget := by
  induction budget with
  | zero =>
      intro demand before after _ _ _ hrun
      obtain ⟨less, hless⟩ := exists_budget_of_satisfy hrun
      contradiction
  | succ budget ih =>
      intro demand before after hinner hwf hhas hrun
      cases demand with
      | statement address => exact visits_expandStatement ih hwf hhas hrun
      | name id name => exact visits_define ih hwf hhas hrun
      | everything id isEntry =>
          obtain ⟨module, hmodule⟩ := hhas
          cases isEntry with
          | true => exact absurd rfl (hinner id)
          | false =>
              have hall := visits_expandAll ih hwf hmodule (by simp) hrun
              exact .everything hmodule hall (.done _)

end Build

namespace Graph

/-- The request for everything in an entry module is a walk through what is wanted of its
statements, and its answer are the statements that the walk puts into the bundle. -/
theorem visits_of_expandAll {disk : Disk} {requests : List Demand} {graph : Graph} {entry : Nat}
    {module : Module} {statements : List Address} (hhistory : History disk requests graph)
    (hmodule : graph.module? entry = some module)
    (hresult : (graph.expandAll disk entry true).result = .ok statements) :
    Visits (module.statements.flatMap (wanted entry true)) ⟨graph, []⟩
      ⟨(graph.expandAll disk entry true).graph, statements⟩ := by
  have hcomplete := hhistory.complete
  have hanswer : (graph.request disk (.everything entry true)).result = .ok statements := hresult
  obtain ⟨after, hrun, hgraph, rfl⟩ := request_eq_ok hanswer
  have hgraph : (graph.expandAll disk entry true).graph = after.graph := hgraph
  rw [hgraph]
  obtain ⟨budget, hbudget⟩ := Build.exists_budget_of_satisfy hrun
  rw [hbudget] at hrun
  exact Build.visits_expandAll (Build.walks disk budget) hcomplete.wellFormed hmodule
    (fun _ other hother => hcomplete.settled other hother) hrun

end Graph

end ScriptBundler
