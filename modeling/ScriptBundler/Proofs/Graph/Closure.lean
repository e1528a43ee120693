import ScriptBundler.Proofs.Graph.Marking

/-!
# Expansion is a closure

Expansion includes what is demanded and nothing else: the statements that a graph holds after any
requests are those that the requests demand, over any number of steps of `Graph.Calls`.

A request starts with all marked demands settled, and what it marks is settled when it ends.
-/

namespace ScriptBundler

open Files ScriptBundler.Module Script Relation

/-! ## Everything in a module -/

theorem roleOf_eq_included_iff {isEntry : Bool} {form : ItemForm} :
    roleOf isEntry form = .included ↔ isImport form = false ∧ listedNames form = [] := by
  cases form with
  | exportList specifiers source =>
      cases specifiers with
      | nil => exact ⟨fun _ => ⟨rfl, rfl⟩, fun _ => rfl⟩
      | cons first rest => cases isEntry <;> simp [roleOf, listedNames]
  | _ => simp [roleOf, isImport, listedNames]

theorem roleOf_eq_listing_iff {isEntry : Bool} {form : ItemForm} {locals : List String} :
    roleOf isEntry form = .listing locals ↔
      isEntry = true ∧ listedNames form = locals ∧ locals ≠ [] := by
  cases form with
  | exportList specifiers source =>
      cases specifiers with
      | nil => simp +contextual [roleOf, listedNames, eq_comm]
      | cons first rest =>
          cases isEntry with
          | false => simp [roleOf]
          | true =>
              simp only [roleOf, if_true, Role.listing.injEq, listedNames, true_and]
              exact ⟨fun heq => ⟨heq, heq ▸ by simp⟩, And.left⟩
  | _ => simp +contextual [roleOf, listedNames, eq_comm]

/-- What everything in a module takes of one of its statements. -/
def wanted (id : Nat) (isEntry : Bool) (statement : Statement) : List Demand :=
  match roleOf isEntry statement.form with
  | .onDemand => []
  | .listing locals => .statement ⟨id, statement.index⟩ :: locals.map (.name id)
  | .included => [.statement ⟨id, statement.index⟩]

/-- Everything in a module calls for what it takes of the statements. -/
theorem Graph.calls_everything_iff {graph : Graph} {id : Nat} {isEntry : Bool} {module : Module}
    {called : Demand} (hmodule : graph.module? id = some module) (hwf : module.WellFormed) :
    graph.Calls (.everything id isEntry) called ↔
      ∃ statement ∈ module.statements, called ∈ wanted id isEntry statement := by
  have hget : ∀ index statement, graph.statement? ⟨id, index⟩ = some statement →
      statement ∈ module.statements ∧ statement.index = index := by
    intro index statement hstatement
    obtain ⟨found, hfound, hget⟩ := statement?_eq_some_iff.mp hstatement
    obtain rfl := Option.some.inj (hmodule.symm.trans hfound)
    exact ⟨List.mem_of_getElem? hget, hwf.index _ _ hget⟩
  constructor
  · intro hcalls
    cases hcalls with
    | plain hstatement himport hlisted =>
        obtain ⟨hmem, rfl⟩ := hget _ _ hstatement
        refine ⟨_, hmem, ?_⟩
        rw [wanted, roleOf_eq_included_iff.mpr ⟨himport, hlisted⟩]
        exact List.mem_singleton.mpr rfl
    | listing hstatement hlisted =>
        obtain ⟨hmem, rfl⟩ := hget _ _ hstatement
        refine ⟨_, hmem, ?_⟩
        rw [wanted, roleOf_eq_listing_iff.mpr ⟨rfl, rfl, hlisted⟩]
        exact List.mem_cons_self
    | listed hstatement hname =>
        obtain ⟨hmem, rfl⟩ := hget _ _ hstatement
        refine ⟨_, hmem, ?_⟩
        rw [wanted, roleOf_eq_listing_iff.mpr ⟨rfl, rfl, List.ne_nil_of_mem hname⟩]
        exact List.mem_cons_of_mem _ (List.mem_map_of_mem hname)
  · rintro ⟨statement, hmem, hcalled⟩
    obtain ⟨index, hindex⟩ := List.getElem?_of_mem hmem
    obtain rfl := hwf.index _ _ hindex
    have hstatement : graph.statement? ⟨id, statement.index⟩ = some statement :=
      statement?_eq_some_iff.mpr ⟨module, hmodule, hindex⟩
    unfold wanted at hcalled
    cases hrole : roleOf isEntry statement.form with
    | onDemand =>
        rw [hrole] at hcalled
        contradiction
    | listing locals =>
        rw [hrole] at hcalled
        obtain ⟨rfl, rfl, hlisted⟩ := roleOf_eq_listing_iff.mp hrole
        rcases List.mem_cons.mp hcalled with rfl | hcalled
        · exact .listing hstatement hlisted
        · obtain ⟨name, hname, rfl⟩ := List.mem_map.mp hcalled
          exact .listed hstatement hname
    | included =>
        rw [hrole] at hcalled
        obtain rfl := List.mem_singleton.mp hcalled
        obtain ⟨himport, hlisted⟩ := roleOf_eq_included_iff.mp hrole
        exact .plain hstatement himport hlisted

/-! ## Computations -/

namespace Build

variable {disk : Disk} {budget : Nat} {before after : Progress} {demand : Demand}

/-- Does what is demanded. -/
def satisfy (disk : Disk) (budget : Nat) : Demand → Build Unit
  | .statement address => expandStatement disk budget address
  | .name id name => define disk budget id name
  | .everything id isEntry => expandAll disk budget id isEntry

/-- Without a budget nothing can be done. -/
theorem exists_budget_of_satisfy (hrun : (satisfy disk budget demand).run before = .ok () after) :
    ∃ less, budget = less + 1 := by
  cases budget with
  | zero =>
      cases demand with
      | statement address =>
          rw [satisfy, expandStatement] at hrun
          contradiction
      | name id name =>
          rw [satisfy, define] at hrun
          contradiction
      | everything id isEntry =>
          rw [satisfy, expandAll] at hrun
          contradiction
  | succ less => exact ⟨less, rfl⟩

/-- Includes a statement that may modify a name, unless it is included already. -/
def includeModifier (disk : Disk) (budget id : Nat) (name : String) (index : Nat) : Build Unit := do
  let modifier : Address := ⟨id, index⟩
  if !(← isIncluded modifier) then
    report [⟨.trace, .expansion, s!"Including statement {index} because it modifies '{name}'"⟩]
    expandStatement disk budget modifier

/-- Includes the statements that may modify the names in a list. -/
def includeModifiers (disk : Disk) (budget id : Nat) (names : List String) : Build Unit :=
  names.forM fun name => do
    match (← get).graph.module? id with
    | none => pure ()
    | some module => (module.modifiersOf name).forM (includeModifier disk budget id name)

/-- Includes what is wanted of a statement of a module that is demanded as a whole. -/
def includeWanted (disk : Disk) (budget id : Nat) (isEntry : Bool) (statement : Statement) :
    Build Unit := do
  let address : Address := ⟨id, statement.index⟩
  if !(← isIncluded address) then
    match roleOf isEntry statement.form with
    | .onDemand => pure ()
    | .listing locals =>
      mark address
      locals.forM (define disk budget id)
    | .included => expandStatement disk budget address

/-- What including a statement does: nothing if it is included, or else it marks the statement,
looks after what it depends on, and puts it into the bundle before what may modify it. -/
theorem expandStatement_cases {address : Address} {statement : Statement}
    (hstatement : before.graph.statement? address = some statement)
    (hrun : (expandStatement disk (budget + 1) address).run before = .ok () after) :
    (statement.included = true ∧ after = before) ∨
      (statement.included = false ∧ ∃ middle : Progress,
        (statement.dependsOn.forM (define disk budget address.module)).run
          { before with
            graph := before.graph.updateModule address.module
              (·.includeStatement address.index) } = .ok () middle ∧
        (includeModifiers disk budget address.module statement.defines).run
          { middle with emitted := middle.emitted ++ [address] } = .ok () after) := by
  rw [expandStatement, run_get_bind] at hrun
  cases hincluded : statement.included with
  | true =>
      simp only [hstatement, hincluded, Bool.not_true, Bool.false_eq_true, if_false,
        run_pure] at hrun
      obtain ⟨-, rfl⟩ := EStateM.Result.ok.inj hrun
      exact Or.inl ⟨rfl, rfl⟩
  | false =>
      simp only [hstatement, hincluded, Bool.not_false, if_true, run_mark_bind] at hrun
      obtain ⟨_, middle, hdependencies, hrun⟩ := run_bind_eq_ok hrun
      rw [run_emit_bind] at hrun
      exact Or.inr ⟨rfl, middle, hdependencies, hrun⟩

/-- What looking after a name does: nothing if it has been asked for, or else it marks the name,
finds out what it needs, and does that, if it is anything. -/
theorem define_cases {id : Nat} {module : Module} {name : String}
    (hmodule : before.graph.module? id = some module)
    (hrun : (define disk (budget + 1) id name).run before = .ok () after) :
    (before.graph.Requested id name ∧ after = before) ∨
      (¬ before.graph.Requested id name ∧ ∃ needed middle,
        (need disk id module name).run
          { before with graph := before.graph.updateModule id (·.request name) } =
            .ok needed middle ∧
        ((needed.demand = none ∧ after = middle) ∨
          ∃ called, needed.demand = some called ∧ (∀ id, called ≠ .everything id true) ∧
            (satisfy disk budget called).run middle = .ok () after)) := by
  rw [define, run_get_bind] at hrun
  rw [Graph.requested_iff_of_module? hmodule, ← List.contains_iff_mem]
  cases hrequested : module.requested.contains name with
  | true =>
      simp only [hmodule, hrequested, Bool.not_true, Bool.false_eq_true, if_false,
        run_pure] at hrun
      obtain ⟨-, rfl⟩ := EStateM.Result.ok.inj hrun
      exact Or.inl ⟨rfl, rfl⟩
  | false =>
      simp only [hmodule, hrequested, Bool.not_false, if_true, run_change_bind] at hrun
      obtain ⟨needed, middle, hneed, hrun⟩ := run_bind_eq_ok hrun
      refine Or.inr ⟨by simp, needed, middle, hneed, ?_⟩
      cases needed with
      | nothing => exact Or.inl ⟨rfl, (EStateM.Result.ok.inj hrun).2.symm⟩
      | _ => exact Or.inr ⟨_, rfl, by simp, hrun⟩

/-- A name that has just been marked: what it needs is found in a graph that differs only in what
has been read for it. -/
theorem need_request_ok {id : Nat} {module : Module} {name : String} {needed : Need}
    (hwf : before.graph.WellFormed) (hmodule : before.graph.module? id = some module)
    (hneed : (need disk id module name).run
      { before with graph := before.graph.updateModule id (·.request name) } = .ok needed after) :
    (before.graph.updateModule id (·.request name)).Quiet after.graph ∧
      after.graph.Meets id name needed := by
  have hlater : (before.graph.updateModule id (·.request name)).module? id =
      some (module.request name) := by
    rw [Graph.module?_updateModule, if_pos rfl, hmodule]
    rfl
  have hnotes := Graph.notes_request before.graph id name
  exact need_ok (hnotes.wellFormed hwf) hlater (asRead_request module name) hneed

/-- Whether expansion within a budget, for anything but an entry module, marks what is demanded and
nothing else. -/
def Sound (disk : Disk) (budget : Nat) : Prop :=
  ∀ (demand : Demand) (before after : Progress), (∀ id, demand ≠ .everything id true) →
    before.graph.WellFormed → before.graph.Has demand →
    (satisfy disk budget demand).run before = .ok () after →
    before.graph.Expands demand after.graph ∧ after.graph.Marks demand

/-- A loop whose steps are parts of an expansion is a part of it, and ends with the marks of all its
steps. -/
theorem forM_ok {α : Type} {items : List α} {body : α → Build Unit}
    (targets : α → List Demand) {start : Graph}
    (hbody : ∀ item ∈ items, ∀ before after : Progress, start.Expands demand before.graph →
      before.graph.WellFormed → (body item).run before = .ok () after →
      before.graph.Expands demand after.graph ∧
        ∀ called ∈ targets item, after.graph.Marks called)
    (hexpands : start.Expands demand before.graph) (hwf : before.graph.WellFormed)
    (hrun : (items.forM body).run before = .ok () after) :
    before.graph.Expands demand after.graph ∧
      ∀ item ∈ items, ∀ called ∈ targets item, after.graph.Marks called := by
  induction items generalizing before with
  | nil =>
      rw [run_forM_nil] at hrun
      obtain ⟨-, rfl⟩ := EStateM.Result.ok.inj hrun
      exact ⟨.refl _ _, by simp⟩
  | cons first rest ih =>
      obtain ⟨middle, hfirst, hrest⟩ := run_forM_cons_eq_ok hrun
      -- the invariant is that all steps so far expand the graph that the loop started with
      obtain ⟨hstep, hmarks⟩ := hbody first List.mem_cons_self _ _ hexpands hwf hfirst
      obtain ⟨hsteps, hothers⟩ := ih (fun item hitem => hbody item (List.mem_cons_of_mem _ hitem))
        (hexpands.trans hstep) (hstep.wellFormed hwf) hrest
      refine ⟨hstep.trans hsteps, fun item hitem called hcalled => ?_⟩
      rcases List.mem_cons.mp hitem with rfl | hitem
      · exact (hmarks called hcalled).mono hsteps.toExtends
      · exact hothers item hitem called hcalled

/-- The names in a list are looked after one after the other. -/
theorem define_forM_ok (demand : Demand) (hsound : Sound disk budget) {id : Nat}
    {names : List String} {start : Graph} {module : Module}
    (hmodule : start.module? id = some module)
    (hcalls : ∀ graph : Graph, start.Extends graph → ∀ name ∈ names,
      graph.Calls demand (.name id name))
    (hrun : (names.forM (define disk budget id)).run before = .ok () after)
    (hexpands : start.Expands demand before.graph) (hwf : before.graph.WellFormed) :
    before.graph.Expands demand after.graph ∧ ∀ name ∈ names, after.graph.Requested id name := by
  obtain ⟨hall, hmarks⟩ := forM_ok (fun name => [Demand.name id name])
    (fun name hname before after hexpands hwf hrun => by
      obtain ⟨later, hlater, -⟩ := hexpands.module id module hmodule
      obtain ⟨hstep, hmarked⟩ :=
        hsound (.name id name) before after (by simp) hwf ⟨later, hlater⟩ hrun
      have hextends := hexpands.toExtends.trans hstep.toExtends
      exact ⟨hstep.of_calls (hcalls _ hextends name hname), by simpa using hmarked⟩)
    hexpands hwf hrun
  exact ⟨hall, fun name hname => hmarks name hname _ (List.mem_singleton.mpr rfl)⟩

/-- A statement that is not included yet is included. -/
theorem modifier_ok (hsound : Sound disk budget) {id index : Nat} {name : String}
    (hhas : before.graph.Has (.statement ⟨id, index⟩)) (hwf : before.graph.WellFormed)
    (hrun : (includeModifier disk budget id name index).run before = .ok () after) :
    before.graph.Expands (.statement ⟨id, index⟩) after.graph ∧
      after.graph.Includes ⟨id, index⟩ := by
  obtain ⟨statement, hstatement, hform⟩ := hhas
  rcases run_unless_included_cases hstatement hrun with ⟨hincluded, rfl⟩ | ⟨-, hrun⟩
  · exact ⟨.refl _ _, (Graph.includes_iff_of_statement? hstatement).mpr hincluded⟩
  · rw [run_report_bind] at hrun
    exact hsound (.statement ⟨id, index⟩) { before with log := before.log ++ _ } after (by simp)
      hwf ⟨statement, hstatement, hform⟩ hrun

/-- The statements that may modify the names in a list are included one after the other. -/
theorem modifiers_forM_ok (hsound : Sound disk budget) {address : Address} {names : List String}
    {start : Graph} {statement : Statement} (hstatement : start.statement? address = some statement)
    (hnames : ∀ name ∈ names, name ∈ statement.defines)
    (hrun : (includeModifiers disk budget address.module names).run before = .ok () after)
    (hexpands : start.Expands (.statement address) before.graph) (hwf : before.graph.WellFormed) :
    before.graph.Expands (.statement address) after.graph ∧
      ∀ name ∈ names, ∀ module, start.module? address.module = some module →
        ∀ index ∈ module.modifiersOf name, after.graph.Includes ⟨address.module, index⟩ := by
  obtain ⟨module, hmodule, -⟩ := Graph.statement?_eq_some_iff.mp hstatement
  have hcalls : ∀ graph : Graph, start.Extends graph → ∀ name ∈ names,
      ∀ index ∈ module.modifiersOf name,
        graph.Calls (.statement address) (.statement ⟨address.module, index⟩) := by
    intro graph hextends name hname index hindex
    exact Graph.Calls.mono hextends (.modifier hstatement (hnames name hname) hmodule hindex)
  obtain ⟨hall, hmarks⟩ := forM_ok
    (fun name =>
      (module.modifiersOf name).map fun index => Demand.statement ⟨address.module, index⟩)
    (fun name hname before after hexpands hwf hrun => by
      obtain ⟨later, hlater, hgrows⟩ := hexpands.module _ module hmodule
      rw [run_get_bind] at hrun
      simp only [hlater, modifiersOf_eq_of_asRead hgrows.asRead] at hrun
      -- the inner loop, over the modifiers of one name
      obtain ⟨hloop, hmarks⟩ := forM_ok
        (fun index => [Demand.statement ⟨address.module, index⟩])
        (fun index hindex before after hexpands hwf hrun => by
          have hcalled := hcalls _ hexpands.toExtends name hname index hindex
          have hhas := hcalled.has hwf (by simp)
          obtain ⟨hstep, hincludes⟩ := modifier_ok hsound hhas hwf hrun
          refine ⟨hstep.of_calls (hcalled.mono hstep.toExtends), fun called hmember => ?_⟩
          obtain rfl := List.mem_singleton.mp hmember
          exact hincludes)
        hexpands hwf hrun
      refine ⟨hloop, fun called hcalled => ?_⟩
      obtain ⟨index, hindex, rfl⟩ := List.mem_map.mp hcalled
      exact hmarks index hindex _ (List.mem_singleton.mpr rfl))
    hexpands hwf hrun
  refine ⟨hall, fun name hname found hfound index hindex => ?_⟩
  obtain rfl := Option.some.inj (hmodule.symm.trans hfound)
  exact hmarks name hname _ (List.mem_map_of_mem hindex)

/-- Including a statement marks it, and settles it. -/
theorem expandStatement_ok (hsound : Sound disk budget) {address : Address}
    (hwf : before.graph.WellFormed) (hhas : before.graph.Has (.statement address))
    (hrun : (expandStatement disk (budget + 1) address).run before = .ok () after) :
    before.graph.Expands (.statement address) after.graph ∧ after.graph.Includes address := by
  obtain ⟨statement, hstatement, hform⟩ := hhas
  rcases expandStatement_cases hstatement hrun with
    ⟨hincluded, rfl⟩ | ⟨-, middle, hdependencies, hrun⟩
  · exact ⟨.refl _ _, (Graph.includes_iff_of_statement? hstatement).mpr hincluded⟩
  · have hnotes := Graph.notes_includeStatement before.graph address
    have hmarked := Graph.includes_includeStatement_self hstatement
    generalize before.graph.updateModule address.module (·.includeStatement address.index) =
      marked at hdependencies hnotes hmarked
    obtain ⟨later, hlater, hrest⟩ := hnotes.toExtends.statement? hstatement
    obtain ⟨module, hmodule, -⟩ := Graph.statement?_eq_some_iff.mp hlater
    -- what the statement depends on comes first
    have hwf' := hnotes.wellFormed hwf
    have hdependsOn := Statement.dependsOn_eq_of_asRead hrest
    obtain ⟨hfirst, hnames⟩ := define_forM_ok (.statement address) hsound hmodule
      (fun graph hextends name hname =>
        Graph.Calls.mono hextends (.dependency hlater (hdependsOn ▸ hname)))
      hdependencies (.refl marked _) hwf'
    -- what may modify it comes afterwards
    have hdefines := Statement.defines_eq_of_asRead hrest
    obtain ⟨hsecond, hmodifiers⟩ := modifiers_forM_ok hsound hlater
      (fun name hname => hdefines ▸ hname) hrun hfirst (hfirst.wellFormed hwf')
    have hall : marked.Expands (.statement address) after.graph := hfirst.trans hsecond
    refine ⟨.of_notes hnotes .refl hall ⟨fun called hcalls => ?_, by simp, ?_⟩,
      hall.toExtends.includes hmarked⟩
    -- both loops together mark all that the statement calls for
    · have hback : marked.Calls (.statement address) called :=
        hcalls.back hall.toExtends hmodule (by simp)
      cases hback with
      | dependency hfound hname =>
          obtain rfl := Option.some.inj (hlater.symm.trans hfound)
          rw [hdependsOn] at hname
          exact hsecond.toExtends.requested (hnames _ hname)
      | modifier hfound hname hmodule' hindex =>
          obtain rfl := Option.some.inj (hlater.symm.trans hfound)
          rw [hdefines] at hname
          exact hmodifiers _ hname _ hmodule' _ hindex
    · rintro other found name hother hfound hname
      obtain rfl := Demand.statement.inj hother
      obtain ⟨earlier, hearlier, heq⟩ := hall.toExtends.statement?_back hmodule hfound
      obtain rfl := Option.some.inj (hlater.symm.trans hearlier)
      rw [← Statement.form_eq_of_asRead heq, Statement.form_eq_of_asRead hrest, hform] at hname
      contradiction

/-- Looking after a name marks it, and settles it. -/
theorem define_ok (hsound : Sound disk budget) {id : Nat} {name : String}
    (hwf : before.graph.WellFormed) (hhas : before.graph.Has (.name id name))
    (hrun : (define disk (budget + 1) id name).run before = .ok () after) :
    before.graph.Expands (.name id name) after.graph ∧ after.graph.Requested id name := by
  obtain ⟨module, hmodule⟩ := hhas
  rcases define_cases hmodule hrun with ⟨hrequested, rfl⟩ | ⟨-, needed, middle, hneed, hrest⟩
  · exact ⟨.refl _ _, hrequested⟩
  · -- the import is followed with the name marked already, as the modules may form a circle
    obtain ⟨hquiet, hmeets⟩ := need_request_ok hwf hmodule hneed
    have hnotes := (Graph.notes_request before.graph id name).trans_quiet hquiet
    have hmarked := hquiet.toExtends.requested (Graph.requested_request_self name hmodule)
    obtain ⟨found, hfound, -⟩ := hnotes.toExtends.module _ _ hmodule
    -- the name is settled as soon as its need is marked
    have hsettles : ∀ graph : Graph, middle.graph.Extends graph →
        (∀ called, needed.demand = some called → graph.Marks called) →
        graph.Settled (.name id name) := by
      intro graph hextends hmarks
      refine ⟨fun called hcalls => hmarks called ?_, ?_, by simp⟩
      · refine (hmeets.calls called).mp (hcalls.back hextends hfound ?_)
        intro id' name' entry heq hentry
        obtain ⟨rfl, rfl⟩ := Demand.name.inj heq
        exact hmeets.followed found entry hfound hentry
      · intro id' name' later entry heq hlater' hentry
        obtain ⟨rfl, rfl⟩ := Demand.name.inj heq
        have hrest := (hextends.grows hfound hlater').asRead
        obtain ⟨other, hother, hsource, hname⟩ :=
          get?_imports_eq_some_of_asRead hrest.symm hentry
        exact (hmeets.followed found other hfound hother).mono hextends (path_eq_of_asRead hrest)
          hsource.symm hname.symm
    rcases hrest with ⟨hnothing, rfl⟩ | ⟨called, hdemand, hinner, hrun⟩
    · have hsettled := hsettles _ (.refl _) (by simp [hnothing])
      exact ⟨.of_notes hnotes .refl (.refl _ _) hsettled, hmarked⟩
    · have hcalls := (hmeets.calls called).mpr hdemand
      have hwf' := hnotes.wellFormed hwf
      have hhas := hcalls.has hwf' (by simp)
      obtain ⟨hstep, hmarks⟩ := hsound called middle after hinner hwf' hhas hrun
      have hpart := hstep.of_calls (hcalls.mono hstep.toExtends)
      have hsettled : after.graph.Settled (.name id name) := by
        refine hsettles _ hstep.toExtends fun other hother => ?_
        obtain rfl := Option.some.inj (hdemand.symm.trans hother)
        exact hmarks
      exact ⟨.of_notes hnotes .refl hpart hsettled, hstep.toExtends.requested hmarked⟩

/-- An export list of the entry module is marked, and each name in it is looked after. -/
theorem listing_ok (hsound : Sound disk budget) {id index : Nat} {statement : Statement}
    (hstatement : before.graph.statement? ⟨id, index⟩ = some statement)
    (hlisted : listedNames statement.form ≠ []) (hwf : before.graph.WellFormed)
    (hrun : ((listedNames statement.form).forM (define disk budget id)).run
      { before with graph := before.graph.updateModule id (·.includeStatement index) } =
        .ok () after) :
    before.graph.Expands (.everything id true) after.graph ∧
      after.graph.Includes ⟨id, index⟩ ∧
      ∀ name ∈ listedNames statement.form, after.graph.Requested id name := by
  have hnotes := Graph.notes_includeStatement before.graph ⟨id, index⟩
  have hmarked := Graph.includes_includeStatement_self hstatement
  dsimp only at hnotes hmarked
  generalize before.graph.updateModule id (·.includeStatement index) = marked at hrun hnotes hmarked
  obtain ⟨later, hlater, hrest⟩ := hnotes.toExtends.statement? hstatement
  obtain ⟨module, hmodule, hget⟩ := Graph.statement?_eq_some_iff.mp hlater
  have hform := Statement.form_eq_of_asRead hrest
  have hwf' := hnotes.wellFormed hwf
  obtain ⟨hall, hnames⟩ := define_forM_ok (.everything id true) hsound hmodule
    (fun graph hextends name hname =>
      Graph.Calls.mono hextends (.listed hlater (hform ▸ hname)))
    hrun (.refl marked _) hwf'
  dsimp only at hall
  refine ⟨.of_notes hnotes (.single ?_) hall ⟨fun called hcalls => ?_, by simp, ?_⟩,
    hall.toExtends.includes hmarked, hnames⟩
  · exact Graph.Calls.mono hall.toExtends (.listing hlater (hform ▸ hlisted))
  · have hback : marked.Calls (.statement ⟨id, index⟩) called :=
      hcalls.back hall.toExtends hmodule (by simp)
    -- an export list defines nothing, and depends only on what it lists
    obtain ⟨hdefines, hdepends⟩ := (hwf'.module _ _ hmodule).listing _ _ hget (hform ▸ hlisted)
    cases hback with
    | dependency hfound hname =>
        obtain rfl := Option.some.inj (hlater.symm.trans hfound)
        exact hnames _ (hform ▸ hdepends _ hname)
    | modifier hfound hname =>
        obtain rfl := Option.some.inj (hlater.symm.trans hfound)
        rw [hdefines] at hname
        contradiction
  · rintro other found name hother hfound hname
    obtain rfl := Demand.statement.inj hother
    obtain ⟨earlier, hearlier, heq⟩ := hall.toExtends.statement?_back hmodule hfound
    obtain rfl := Option.some.inj (hlater.symm.trans hearlier)
    rw [← Statement.form_eq_of_asRead heq, hform] at hname
    exact hnames name hname

/-- One statement of a module that is demanded as a whole.  If the statement is an export list that
is included already, then its names have been looked after: there nothing is in the middle of being
expanded, but what this expansion has marked itself. -/
theorem expandAll_step_ok (hsound : Sound disk budget) {id : Nat} {isEntry : Bool} {start : Graph}
    {module : Module} {statement : Statement} (hmodule : start.module? id = some module)
    (hmem : statement ∈ module.statements) (hwfmodule : module.WellFormed)
    (hsettled : isEntry = true → ∀ other, start.Marks other → start.Settled other)
    (hexpands : start.Expands (.everything id isEntry) before.graph) (hwf : before.graph.WellFormed)
    (hrun : (includeWanted disk budget id isEntry statement).run before = .ok () after) :
    before.graph.Expands (.everything id isEntry) after.graph ∧
      ∀ called ∈ wanted id isEntry statement, after.graph.Marks called := by
  obtain ⟨index, hget⟩ := List.getElem?_of_mem hmem
  obtain rfl := hwfmodule.index _ _ hget
  have hstatement : start.statement? ⟨id, statement.index⟩ = some statement :=
    Graph.statement?_eq_some_iff.mpr ⟨module, hmodule, hget⟩
  obtain ⟨later, hlater, hrest⟩ := hexpands.toExtends.statement? hstatement
  have hform := Statement.form_eq_of_asRead hrest
  rcases run_unless_included_cases hlater hrun with ⟨hincluded, rfl⟩ | ⟨-, hrun⟩
  · have hmarked : after.graph.Includes ⟨id, statement.index⟩ :=
      (Graph.includes_iff_of_statement? hlater).mpr hincluded
    refine ⟨.refl _ _, fun called hcalled => ?_⟩
    unfold wanted at hcalled
    cases hrole : roleOf isEntry statement.form with
    | onDemand =>
        rw [hrole] at hcalled
        contradiction
    | included =>
        rw [hrole] at hcalled
        obtain rfl := List.mem_singleton.mp hcalled
        exact hmarked
    | listing locals =>
        rw [hrole] at hcalled
        obtain ⟨hentry, rfl, -⟩ := roleOf_eq_listing_iff.mp hrole
        -- the list was marked by an earlier request, or by this one, and is settled either way
        have hdone : after.graph.Settled (.statement ⟨id, statement.index⟩) := by
          rcases hexpands.settled (.statement ⟨id, statement.index⟩) hmarked with hold | hdone
          · exact (hsettled hentry _ hold).mono hexpands.toExtends hold
          · exact hdone
        rcases List.mem_cons.mp hcalled with rfl | hcalled
        · exact hmarked
        · obtain ⟨name, hname, rfl⟩ := List.mem_map.mp hcalled
          exact hdone.listed _ later name rfl hlater (hform ▸ hname)
  · have hcalls : ∀ called ∈ wanted id isEntry statement,
        before.graph.Calls (.everything id isEntry) called := fun called hcalled =>
      ((Graph.calls_everything_iff hmodule hwfmodule).mpr ⟨statement, hmem, hcalled⟩).mono
        hexpands.toExtends
    unfold wanted at hcalls ⊢
    cases hrole : roleOf isEntry statement.form with
    | onDemand =>
        rw [hrole, run_pure] at hrun
        obtain ⟨-, rfl⟩ := EStateM.Result.ok.inj hrun
        exact ⟨.refl _ _, by simp⟩
    | included =>
        rw [hrole] at hrun hcalls
        obtain ⟨-, hlisted⟩ := roleOf_eq_included_iff.mp hrole
        obtain ⟨hstep, hmarked⟩ := hsound (.statement ⟨id, statement.index⟩) before after
          (by simp) hwf ⟨later, hlater, hform ▸ hlisted⟩ hrun
        have hcalled := hcalls _ (List.mem_singleton.mpr rfl)
        refine ⟨hstep.of_calls (hcalled.mono hstep.toExtends), ?_⟩
        intro called hcalled
        obtain rfl := List.mem_singleton.mp hcalled
        exact hmarked
    | listing locals =>
        rw [hrole, run_mark_bind] at hrun
        obtain ⟨rfl, rfl, hlisted⟩ := roleOf_eq_listing_iff.mp hrole
        rw [← hform] at hrun hlisted ⊢
        obtain ⟨hstep, hmarked, hnames⟩ := listing_ok hsound hlater hlisted hwf hrun
        refine ⟨hstep, fun called hcalled => ?_⟩
        rcases List.mem_cons.mp hcalled with rfl | hcalled
        · exact hmarked
        · obtain ⟨name, hname, rfl⟩ := List.mem_map.mp hcalled
          exact hnames name hname

/-- Expanding a module marks all that everything in it calls for.  For an entry module this takes a
graph in which all marked demands are settled. -/
theorem expandAll_ok (hsound : Sound disk budget) {id : Nat} {isEntry : Bool}
    (hwf : before.graph.WellFormed) (hhas : before.graph.Has (.everything id isEntry))
    (hsettled : isEntry = true → ∀ other, before.graph.Marks other → before.graph.Settled other)
    (hrun : (expandAll disk (budget + 1) id isEntry).run before = .ok () after) :
    before.graph.Expands (.everything id isEntry) after.graph ∧
      after.graph.Marks (.everything id isEntry) := by
  obtain ⟨module, hmodule⟩ := hhas
  have hwfmodule := hwf.module id module hmodule
  rw [expandAll, run_get_bind] at hrun
  simp only [hmodule] at hrun
  obtain ⟨hall, hmarks⟩ := forM_ok (wanted id isEntry)
    (fun statement hmem before after hexpands hwf hrun =>
      expandAll_step_ok hsound hmodule hmem hwfmodule hsettled hexpands hwf hrun)
    (.refl before.graph _) hwf hrun
  obtain ⟨later, hlater, -⟩ := hall.module id module hmodule
  refine ⟨hall, ⟨later, hlater⟩, fun called hcalls => ?_⟩
  have hback : before.graph.Calls (.everything id isEntry) called :=
    hcalls.back hall.toExtends hmodule (by simp)
  obtain ⟨statement, hmem, hcalled⟩ := (Graph.calls_everything_iff hmodule hwfmodule).mp hback
  have hmarked := hmarks statement hmem called hcalled
  cases called with
  | everything other isEntry => trivial
  | _ => exact hmarked

/-- Expansion within any budget marks what is demanded and nothing else. -/
theorem sound (disk : Disk) (budget : Nat) : Sound disk budget := by
  -- a call within a budget makes its own calls within a smaller one
  induction budget with
  | zero =>
      intro demand before after _ _ _ hrun
      obtain ⟨less, hless⟩ := exists_budget_of_satisfy hrun
      contradiction
  | succ budget ih =>
      intro demand before after hinner hwf hhas hrun
      cases demand with
      | statement address => exact expandStatement_ok ih hwf hhas hrun
      | name id name => exact define_ok ih hwf hhas hrun
      | everything id isEntry =>
          exact expandAll_ok ih hwf hhas (fun hentry => absurd rfl (hentry ▸ hinner id)) hrun

end Build

end ScriptBundler
