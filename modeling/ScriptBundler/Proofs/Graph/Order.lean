import ScriptBundler.Proofs.Graph.Visits

/-!
# The order of a bundle

In which order expansion puts statements into a bundle.  A statement is marked when expansion gets
to it, and put into the bundle when everything that it depends on has been looked after.  In between
it is pending.  Three facts are kept by every walk:

* the bundle holds no statement twice, and the statements that are pending after the walk are those
  that were pending before;
* a statement that is pending leads, by what calls for what, to everything that is left to do;
* the statement at the end of a name that has been asked for is marked, unless the walk is still on
  its way from that name to the statement.

So when a statement is put into the bundle, whatever it depends on is in the bundle already, or is
pending and leads to the statement: the two form a circle.
-/

namespace ScriptBundler

open Files ScriptBundler.Module Script Relation

namespace Graph

/-- Whether a statement is an export list that is not empty. -/
def ListsExports (graph : Graph) (address : Address) : Prop :=
  ∃ statement, graph.statement? address = some statement ∧ listedNames statement.form ≠ []

/-- A demand leads to a statement in a number of steps, by named and default imports and by the
tables of the modules.  A namespace import leads to no statement in particular. -/
inductive LeadsIn (graph : Graph) : Nat → Demand → Address → Prop where
  | here (address : Address) : LeadsIn graph 0 (.statement address) address
  | next {steps id : Nat} {name : String} {called : Demand} {address : Address}
      (hcalls : graph.Calls (.name id name) called) (hleads : LeadsIn graph steps called address) :
      LeadsIn graph (steps + 1) (.name id name) address

/-- Whether a demand leads to a statement. -/
def Leads (graph : Graph) (demand : Demand) (address : Address) : Prop :=
  ∃ steps, graph.LeadsIn steps demand address

/-- Whether a list holds the statements of a bundle in the order of their dependencies. -/
structure DependencyOrder (graph : Graph) (entry : Nat) (statements : List Address) : Prop where
  nodup : statements.Nodup
  /-- What is listed is what is included, but for the export lists of the entry module. -/
  mem_iff : ∀ address, address ∈ statements ↔
    graph.Includes address ∧ ¬ (address.module = entry ∧ graph.ListsExports address)
  /-- What a statement depends on comes before it, unless it leads back to the statement. -/
  needed_first : ∀ address ∈ statements, ∀ statement, graph.statement? address = some statement →
    ∀ name ∈ statement.dependsOn, ∀ needed, graph.Leads (.name address.module name) needed →
      needed ∈ statements ∧ ([needed, address].Sublist statements ∨
        ReflTransGen graph.Calls (.statement needed) (.statement address))

variable {graph before after final : Graph} {address : Address}

/-- An included statement is an export list or may go into the bundle. -/
theorem not_listsExports_iff (hincludes : graph.Includes address) :
    ¬ graph.ListsExports address ↔ graph.Has (.statement address) := by
  obtain ⟨statement, hstatement, -⟩ := includes_iff.mp hincludes
  rw [has_statement_iff hstatement]
  simp [ListsExports, hstatement]

theorem Extends.has_statement (hextends : before.Extends after)
    (hhas : before.Has (.statement address)) : after.Has (.statement address) := by
  obtain ⟨statement, hstatement, hlisted⟩ := hhas
  obtain ⟨later, hlater, heq⟩ := hextends.statement? hstatement
  exact ⟨later, hlater, (congrArg listedNames (Statement.form_eq_of_asRead heq)).trans hlisted⟩

theorem Extends.has_statement_back (hextends : before.Extends after)
    (hincludes : before.Includes address) (hhas : after.Has (.statement address)) :
    before.Has (.statement address) := by
  obtain ⟨module, hmodule, -⟩ := hincludes
  obtain ⟨later, hlater, hlisted⟩ := hhas
  obtain ⟨statement, hstatement, heq⟩ := hextends.statement?_back hmodule hlater
  have hform := Statement.form_eq_of_asRead heq
  exact ⟨statement, hstatement, (congrArg listedNames hform).trans hlisted⟩

/-- A name leads only to statements that may go into the bundle. -/
theorem LeadsIn.has (hwf : graph.WellFormed) {steps : Nat} {demand : Demand}
    (hleads : graph.LeadsIn steps demand address) (hhas : graph.Has demand) :
    graph.Has (.statement address) := by
  induction hleads with
  | here address => exact hhas
  | next hcalls _ ih => exact ih (hcalls.has hwf (by simp))

end Graph

namespace Stage

/-- Whether a statement is marked and on its way into the bundle. -/
def Pending (stage : Stage) (address : Address) : Prop :=
  stage.graph.Includes address ∧ stage.graph.Has (.statement address) ∧
    address ∉ stage.emitted

/-- Whether the bundle holds only marked statements, each one once. -/
structure Tidy (stage : Stage) : Prop where
  nodup : stage.emitted.Nodup
  includes : ∀ address ∈ stage.emitted, stage.graph.Includes address
  has : ∀ address ∈ stage.emitted, stage.graph.Has (.statement address)

variable {stage before after : Stage} {address : Address}

theorem tidy_nil (graph : Graph) : Tidy ⟨graph, []⟩ :=
  ⟨List.nodup_nil, fun _ h => absurd h List.not_mem_nil, fun _ h => absurd h List.not_mem_nil⟩

/-- What is in the bundle is marked in a later graph as well. -/
theorem Tidy.of_extends (htidy : before.Tidy) (hextends : before.graph.Extends after.graph)
    (hemitted : after.emitted = before.emitted) : after.Tidy where
  nodup := hemitted ▸ htidy.nodup
  includes := fun address h => hextends.includes (htidy.includes address (hemitted ▸ h))
  has := fun address h => hextends.has_statement (htidy.has address (hemitted ▸ h))

/-- A step that marks no statement leaves the same ones pending. -/
theorem pending_iff_of_extends (hextends : before.graph.Extends after.graph)
    (hincludes : ∀ address, after.graph.Includes address → before.graph.Includes address)
    (hemitted : after.emitted = before.emitted) :
    after.Pending address ↔ before.Pending address := by
  unfold Pending
  rw [hemitted]
  constructor
  · rintro ⟨hmarked, hhas, hout⟩
    have hold := hincludes address hmarked
    exact ⟨hold, hextends.has_statement_back hold hhas, hout⟩
  · rintro ⟨hmarked, hhas, hout⟩
    exact ⟨hextends.includes hmarked, hextends.has_statement hhas, hout⟩

/-- Asking for a name and following its import leaves the same statements pending. -/
theorem pending_iff_of_request {id : Nat} {name : String}
    (hquiet : (before.request id name).graph.Quiet after.graph)
    (hemitted : after.emitted = before.emitted) :
    after.Pending address ↔ before.Pending address := by
  have hnotes := Graph.notes_request before.graph id name
  refine pending_iff_of_extends (hnotes.toExtends.trans hquiet.toExtends) (fun other h => ?_)
    hemitted
  rcases hnotes.includes other (hquiet.includes other h) with hold | hnew
  · exact hold
  · contradiction

theorem pending_mark_iff {marked : Address} {statement : Statement}
    (hstatement : stage.graph.statement? marked = some statement) :
    (stage.mark marked).Pending address ↔ stage.Pending address ∨
      address = marked ∧ listedNames statement.form = [] ∧ address ∉ stage.emitted := by
  have hnotes := Graph.notes_includeStatement stage.graph marked
  have hself := Graph.includes_includeStatement_self hstatement
  constructor
  · rintro ⟨hmarked, hhas, hout⟩
    rcases hnotes.includes address hmarked with hold | hnew
    · exact Or.inl ⟨hold, hnotes.toExtends.has_statement_back hold hhas, hout⟩
    · obtain rfl := Demand.statement.inj hnew
      obtain ⟨later, hlater, heq⟩ := hnotes.toExtends.statement? hstatement
      have hlisted := (Graph.has_statement_iff hlater).mp hhas
      exact Or.inr ⟨rfl, Statement.form_eq_of_asRead heq ▸ hlisted, hout⟩
  · rintro (⟨hmarked, hhas, hout⟩ | ⟨rfl, hlisted, hout⟩)
    · exact ⟨hnotes.toExtends.includes hmarked, hnotes.toExtends.has_statement hhas, hout⟩
    · exact ⟨hself, hnotes.toExtends.has_statement ⟨statement, hstatement, hlisted⟩, hout⟩

theorem pending_emit_iff {emitted : Address} :
    (stage.emit emitted).Pending address ↔ stage.Pending address ∧ address ≠ emitted := by
  have hmem : address ∉ stage.emitted ++ [emitted] ↔
      address ∉ stage.emitted ∧ address ≠ emitted := by simp
  unfold Pending emit
  rw [hmem]
  constructor
  · rintro ⟨hmarked, hhas, hout, hne⟩
    exact ⟨⟨hmarked, hhas, hout⟩, hne⟩
  · rintro ⟨⟨hmarked, hhas, hout⟩, hne⟩
    exact ⟨hmarked, hhas, hout, hne⟩

/-- A pending statement may go into the bundle. -/
theorem Tidy.emit (htidy : stage.Tidy) (hpending : stage.Pending address) :
    (stage.emit address).Tidy := by
  obtain ⟨hmarked, hhas, hout⟩ := hpending
  have hcases : ∀ other, other ∈ (stage.emit address).emitted →
      other ∈ stage.emitted ∨ other = address := by
    intro other hother
    simpa [Stage.emit] using hother
  constructor
  case nodup =>
    exact htidy.nodup.append (List.nodup_singleton _) (by simpa using hout)
  case includes =>
    intro other hother
    rcases hcases other hother with hold | rfl
    · exact htidy.includes other hold
    · exact hmarked
  case has =>
    intro other hother
    rcases hcases other hother with hold | rfl
    · exact htidy.has other hold
    · exact hhas

/-- A statement is marked and pending while the walk goes through what it depends on.  Once it is in
the bundle, those statements are pending that were pending before. -/
theorem Tidy.emit_marked {needed : Stage} {statement : Statement} (htidy : before.Tidy)
    (hnew : ¬ before.graph.Includes address)
    (hstatement : before.graph.statement? address = some statement)
    (hplain : listedNames statement.form = []) (hneeded : needed.Tidy)
    (hpending : ∀ other, needed.Pending other ↔ (before.mark address).Pending other) :
    (needed.emit address).Tidy ∧
      ∀ other, (needed.emit address).Pending other ↔ before.Pending other := by
  have hout : address ∉ before.emitted := fun h => hnew (htidy.includes address h)
  have hmarked : (before.mark address).Pending address :=
    (pending_mark_iff hstatement).mpr (Or.inr ⟨rfl, hplain, hout⟩)
  refine ⟨hneeded.emit ((hpending address).mpr hmarked), fun other => ?_⟩
  rw [pending_emit_iff, hpending, pending_mark_iff hstatement]
  constructor
  · rintro ⟨hold | ⟨rfl, -⟩, hne⟩
    · exact hold
    · exact absurd rfl hne
  · intro hold
    refine ⟨Or.inl hold, ?_⟩
    rintro rfl
    exact hnew hold.1

end Stage

namespace Visits

variable {demands : List Demand} {before after : Stage} {final : Graph}

/-- A walk puts no statement into the bundle twice, and all that it marks: afterwards those
statements are pending that were pending before. -/
theorem tidy (hvisits : Visits demands before after) (htidy : before.Tidy) :
    after.Tidy ∧ ∀ address, after.Pending address ↔ before.Pending address := by
  induction hvisits with
  | done => exact ⟨htidy, fun _ => Iff.rfl⟩
  | marked _ _ ih => exact ih htidy
  | @listing address statement _ before _ hnew hstatement hlisted _ ih =>
      obtain ⟨htidy', hpending⟩ := ih (htidy.of_extends (extends_mark before address) rfl)
      refine ⟨htidy', fun other => ?_⟩
      rw [hpending, Stage.pending_mark_iff hstatement]
      simp [hlisted]
  | @statement address statement _ _ before needed _ _ hnew hstatement hplain _ _ _ _ ihneeds
      ihmodifiers ihrest =>
      obtain ⟨hneeded, hpending⟩ := ihneeds (htidy.of_extends (extends_mark before address) rfl)
      obtain ⟨hemit, hpending⟩ := htidy.emit_marked hnew hstatement hplain hneeded hpending
      obtain ⟨hmodified, hpending'⟩ := ihmodifiers hemit
      obtain ⟨hafter, hpending''⟩ := ihrest hmodified
      refine ⟨hafter, fun other => ?_⟩
      rw [hpending'', hpending', hpending]
  | @name id name _ _ _ before followed _ _ hnew _ hquiet hemitted _ _ _ ihneeded ihrest =>
      have hextends := (extends_request before id name).trans hquiet.toExtends
      obtain ⟨hexpanded, hpending⟩ := ihneeded (htidy.of_extends hextends hemitted)
      obtain ⟨hafter, hpending'⟩ := ihrest hexpanded
      refine ⟨hafter, fun other => ?_⟩
      rw [hpending', hpending]
      exact Stage.pending_iff_of_request hquiet hemitted
  | everything _ _ _ ihall ihrest =>
      obtain ⟨hexpanded, hpending⟩ := ihall htidy
      obtain ⟨hafter, hpending'⟩ := ihrest hexpanded
      exact ⟨hafter, fun other => (hpending' other).trans (hpending other)⟩

/-- A walk only adds to the bundle. -/
theorem prefix_emitted (hvisits : Visits demands before after) :
    before.emitted <+: after.emitted := by
  induction hvisits with
  | done => exact List.prefix_rfl
  | marked _ _ ih => exact ih
  | listing _ _ _ _ ih => exact ih
  | statement _ _ _ _ _ _ _ ihneeds ihmodifiers ihrest =>
      exact ihneeds.trans ((List.prefix_append _ _).trans (ihmodifiers.trans ihrest))
  | name _ _ _ hemitted _ _ _ ihneeded ihrest => exact hemitted ▸ ihneeded.trans ihrest
  | everything _ _ _ ihall ihrest => exact ihall.trans ihrest

/-- All demands of a walk are marked when it ends.  This says nothing of demands for everything in a
module, whose marks are those of its statements. -/
theorem marks (hvisits : Visits demands before after) {demand : Demand} (hmem : demand ∈ demands)
    (hsingle : ∀ id isEntry, demand ≠ .everything id isEntry) : after.graph.Marks demand := by
  induction hvisits with
  | done => contradiction
  | marked hmarks hrest ih =>
      rcases List.mem_cons.mp hmem with rfl | hmem
      · exact hmarks.mono hrest.grows
      · exact ih hmem
  | listing _ hstatement _ hrest ih =>
      rcases List.mem_cons.mp hmem with rfl | hmem
      · exact hrest.grows.includes (Graph.includes_includeStatement_self hstatement)
      · exact ih hmem
  | statement _ hstatement _ _ hneeds hmodifiers hrest _ _ ih =>
      rcases List.mem_cons.mp hmem with rfl | hmem
      · have hmarked := Graph.includes_includeStatement_self hstatement
        exact hrest.grows.includes (hmodifiers.grows.includes (hneeds.grows.includes hmarked))
      · exact ih hmem
  | @name _ name _ _ _ _ _ _ _ _ hmodule hquiet _ _ hneeded hrest _ ih =>
      rcases List.mem_cons.mp hmem with rfl | hmem
      · have hmarked := Graph.requested_request_self name hmodule
        exact hrest.grows.requested (hneeded.grows.requested (hquiet.toExtends.requested hmarked))
      · exact ih hmem
  | everything _ _ _ _ ih =>
      rcases List.mem_cons.mp hmem with rfl | hmem
      · exact absurd rfl (hsingle _ _)
      · exact ih hmem

end Visits

/-! ## What a statement depends on comes first -/

namespace Stage

/-- Whether the statements at the ends of the names that have been asked for are marked.  For some
names the walk may still be on its way: then one demand is left to do, and leads there in fewer
steps. -/
def Covered (final : Graph) (demands : List Demand) (stage : Stage) : Prop :=
  ∀ id name steps address, stage.graph.Requested id name →
    final.LeadsIn steps (.name id name) address → stage.graph.Includes address ∨
      ∃ demand fewer, demands = [demand] ∧ fewer < steps ∧ final.LeadsIn fewer demand address

/-- Whether each pending statement leads to all that is left to do. -/
def Held (final : Graph) (demands : List Demand) (stage : Stage) : Prop :=
  ∀ address, stage.Pending address → ∀ demand ∈ demands,
    ReflTransGen final.Calls (.statement address) demand

/-- Whether in the bundle, what a statement depends on comes before it or leads back to it. -/
def Ordered (final : Graph) (stage : Stage) : Prop :=
  ∀ address ∈ stage.emitted, ∀ name, final.Calls (.statement address) (.name address.module name) →
    ∀ needed, final.Leads (.name address.module name) needed →
      [needed, address].Sublist stage.emitted ∨
        ReflTransGen final.Calls (.statement needed) (.statement address)

variable {final : Graph} {demand : Demand} {demands : List Demand} {stage before after : Stage}

/-- When nothing is left to do for the names so far, anything may be done next. -/
theorem Covered.of_nil (hcovered : Covered final [] stage) : Covered final demands stage := by
  intro id name steps address hrequested hleads
  rcases hcovered id name steps address hrequested hleads with hincludes | ⟨demand, fewer, h, -⟩
  · exact Or.inl hincludes
  · contradiction

/-- A step that asks for no name leaves the names covered. -/
theorem Covered.of_extends (hcovered : Covered final demands before)
    (hextends : before.graph.Extends after.graph)
    (hrequested : ∀ id name, after.graph.Requested id name → before.graph.Requested id name) :
    Covered final demands after := by
  intro id name steps address hafter hleads
  have hold := hcovered id name steps address (hrequested id name hafter) hleads
  exact hold.imp_left hextends.includes

/-- When the first demand is marked, or leads nowhere, then nothing is left to do for the names so
far. -/
theorem Covered.of_marked (hcovered : Covered final (demand :: demands) stage)
    (hmarked : ∀ steps address, final.LeadsIn steps demand address → stage.graph.Marks demand) :
    Covered final [] stage := by
  -- a demand that leads back to the same name does so in fewer steps than the name
  have hall : ∀ steps id name address, stage.graph.Requested id name →
      final.LeadsIn steps (.name id name) address → stage.graph.Includes address := by
    intro steps
    induction steps using Nat.strongRecOn with
    | ind steps ih =>
        intro id name address hrequested hleads
        rcases hcovered id name steps address hrequested hleads with
          hincludes | ⟨other, fewer, heq, hfewer, hother⟩
        · exact hincludes
        · obtain ⟨rfl, -⟩ := List.cons.inj heq
          have hdone := hmarked fewer address hother
          cases demand with
          | statement address' =>
              cases hother with
              | here => exact hdone
          | name id' name' => exact ih fewer hfewer id' name' address hdone hother
          | everything id' isEntry => nomatch hother
  exact fun id name steps address hrequested hleads =>
    Or.inl (hall steps id name address hrequested hleads)

/-- Marking the statement that is left to do covers the names that lead to it. -/
theorem Covered.of_mark {address : Address} {statement : Statement}
    (hcovered : Covered final (.statement address :: demands) stage)
    (hstatement : stage.graph.statement? address = some statement) :
    Covered final [] (stage.mark address) := by
  have hnotes := Graph.notes_includeStatement stage.graph address
  have hcovered' : Covered final (.statement address :: demands) (stage.mark address) := by
    refine hcovered.of_extends hnotes.toExtends fun id name h => ?_
    rcases hnotes.requested id name h with hold | hnew
    · exact hold
    · contradiction
  exact hcovered'.of_marked fun _ _ _ => Graph.includes_includeStatement_self hstatement

/-- The statement at the end of a covered name is in the bundle or on its way there. -/
theorem Covered.emitted_or_pending (hcovered : Covered final [] stage)
    (hextends : stage.graph.Extends final) (hfinal : final.WellFormed) {id : Nat} {name : String}
    {address : Address} (hrequested : stage.graph.Requested id name)
    (hleads : final.Leads (.name id name) address) :
    address ∈ stage.emitted ∨ stage.Pending address := by
  obtain ⟨steps, hsteps⟩ := hleads
  have hincludes : stage.graph.Includes address := by
    rcases hcovered id name steps address hrequested hsteps with hincludes | ⟨_, _, h, -⟩
    · exact hincludes
    · contradiction
  obtain ⟨module, hmodule, -⟩ := hrequested
  obtain ⟨later, hlater, -⟩ := hextends.module id module hmodule
  have hhas := hextends.has_statement_back hincludes (hsteps.has hfinal ⟨later, hlater⟩)
  by_cases hmem : address ∈ stage.emitted
  · exact Or.inl hmem
  · exact Or.inr ⟨hincludes, hhas, hmem⟩

/-- When a name is asked for, the walk is on its way for it, and one step further for all names that
came to it. -/
theorem Covered.of_request {id : Nat} {name : String} {needed : Need} {module : Module}
    (hcovered : Covered final (.name id name :: demands) before)
    (hmodule : before.graph.module? id = some module)
    (hquiet : (before.request id name).graph.Quiet after.graph)
    (hmeets : after.graph.Meets id name needed) (hextends : after.graph.Extends final) :
    Covered final needed.demand.toList after := by
  have hnotes := Graph.notes_request before.graph id name
  have hgrows := hnotes.toExtends.trans hquiet.toExtends
  obtain ⟨later, hlater, -⟩ := hgrows.module id module hmodule
  -- the name calls for its need alone, now and in the final graph
  have hcalls : ∀ called, final.Calls (.name id name) called → needed.demand.toList = [called] := by
    intro called hcalled
    have hback : after.graph.Calls (.name id name) called := by
      refine hcalled.back hextends hlater ?_
      rintro id' name' entry ⟨rfl, rfl⟩ hentry
      exact hmeets.followed later entry hlater hentry
    rw [(hmeets.calls called).mp hback]
    rfl
  have hstep : ∀ steps address, final.LeadsIn steps (.name id name) address →
      ∃ demand fewer, needed.demand.toList = [demand] ∧ fewer < steps ∧
        final.LeadsIn fewer demand address := by
    intro steps address hleads
    cases hleads with
    | next hcalled hrest => exact ⟨_, _, hcalls _ hcalled, Nat.lt_succ_self _, hrest⟩
  intro id' name' steps address hrequested hleads
  rcases hnotes.requested id' name' (hquiet.requested id' name' hrequested) with hold | hnew
  · rcases hcovered id' name' steps address hold hleads with
      hincludes | ⟨demand, fewer, heq, hfewer, hother⟩
    · exact Or.inl (hgrows.includes hincludes)
    · obtain ⟨rfl, -⟩ := List.cons.inj heq
      obtain ⟨called, least, hcalled, hleast, hrest⟩ := hstep fewer address hother
      exact Or.inr ⟨called, least, hcalled, Nat.lt_trans hleast hfewer, hrest⟩
  · obtain ⟨rfl, rfl⟩ := Demand.name.inj hnew
    exact Or.inr (hstep steps address hleads)

/-- Pending statements that lead to a demand lead to what that calls for. -/
theorem Held.of_calls {others : List Demand} (hheld : Held final (demand :: demands) before)
    (hpending : ∀ address, after.Pending address → before.Pending address)
    (hcalls : ∀ other ∈ others, final.Calls demand other) : Held final others after := by
  intro address hafter other hother
  exact (hheld address (hpending address hafter) demand List.mem_cons_self).tail
    (hcalls other hother)

theorem Held.of_tail (hheld : Held final (demand :: demands) before)
    (hpending : ∀ address, after.Pending address → before.Pending address) :
    Held final demands after :=
  fun address hafter other hother =>
    hheld address (hpending address hafter) other (List.mem_cons_of_mem _ hother)

/-- A statement may be put into the bundle when all that it depends on is marked, and what is
pending leads to it. -/
theorem Ordered.emit {address : Address} (hordered : Ordered final stage)
    (hneeds : ∀ name, final.Calls (.statement address) (.name address.module name) →
      ∀ needed, final.Leads (.name address.module name) needed →
        needed ∈ stage.emitted ∨
          ReflTransGen final.Calls (.statement needed) (.statement address)) :
    Ordered final (stage.emit address) := by
  intro other hother name hcalls needed hleads
  have hsub : stage.emitted.Sublist (stage.emit address).emitted := List.sublist_append_left _ _
  rcases List.mem_append.mp hother with hold | hnew
  · exact (hordered other hold name hcalls needed hleads).imp_left fun h => h.trans hsub
  · obtain rfl := List.mem_singleton.mp hnew
    refine (hneeds name hcalls needed hleads).imp_left fun hmem => ?_
    exact (List.singleton_sublist.mpr hmem).append (List.Sublist.refl [other])

end Stage

namespace Visits

variable {demands : List Demand} {before after : Stage} {final : Graph}

/-- After the first part of the walk for a statement, all names that it depends on have been asked
for. -/
theorem requested_dependency {address : Address} {statement : Statement} {name : String}
    (hneeds : Visits (statement.dependsOn.map (.name address.module)) (before.mark address) after)
    (hextends : after.graph.Extends final)
    (hstatement : before.graph.statement? address = some statement)
    (hcalls : final.Calls (.statement address) (.name address.module name)) :
    after.graph.Requested address.module name := by
  have hgrows := (extends_mark before address).trans (hneeds.grows.trans hextends)
  obtain ⟨module, hmodule, -⟩ := Graph.statement?_eq_some_iff.mp hstatement
  have hback : before.graph.Calls (.statement address) (.name address.module name) :=
    hcalls.back hgrows hmodule (by simp)
  have hname : name ∈ statement.dependsOn := by
    cases hback with
    | dependency hfound hname =>
        obtain rfl := Option.some.inj (hstatement.symm.trans hfound)
        exact hname
  exact hneeds.marks (List.mem_map_of_mem hname) (by simp)

/-- A walk keeps the order of dependencies, and covers all names that it asks for. -/
theorem ordered (hvisits : Visits demands before after) (hextends : after.graph.Extends final)
    (hfinal : final.WellFormed) (hwf : before.graph.WellFormed) (htidy : before.Tidy)
    (hheld : Stage.Held final demands before) (hcovered : Stage.Covered final demands before)
    (hordered : Stage.Ordered final before) :
    Stage.Covered final [] after ∧ Stage.Ordered final after := by
  induction hvisits with
  | done stage => exact ⟨hcovered, hordered⟩
  | marked hmarks hrest ih =>
      exact ih hextends hwf htidy (hheld.of_tail fun _ h => h)
        (hcovered.of_marked fun _ _ _ => hmarks).of_nil hordered
  | @listing address statement rest before after hnew hstatement hlisted hrest ih =>
      have hpending : ∀ other, (before.mark address).Pending other → before.Pending other := by
        intro other h
        simpa [Stage.pending_mark_iff hstatement, hlisted] using h
      exact ih hextends (mark_wellFormed hwf) (htidy.of_extends (extends_mark before address) rfl)
        (hheld.of_tail hpending) (hcovered.of_mark hstatement).of_nil hordered
  | @statement address statement module rest before needed modified after hnew hstatement hplain
      hmodule hneeds hmodifiers hrest ihneeds ihmodifiers ihrest =>
      have hextendsModified := hrest.grows.trans hextends
      have hextendsNeeded := hmodifiers.grows.trans hextendsModified
      have hextendsBefore := (extends_mark before address).trans (hneeds.grows.trans hextendsNeeded)
      have hmarkedTidy := htidy.of_extends (extends_mark before address) rfl
      obtain ⟨hneededTidy, hpending⟩ := hneeds.tidy hmarkedTidy
      obtain ⟨hemitTidy, hpending'⟩ := htidy.emit_marked hnew hstatement hplain hneededTidy hpending
      obtain ⟨hmodifiedTidy, hpending''⟩ := hmodifiers.tidy hemitTidy
      have hwfNeeded := hneeds.wellFormed (mark_wellFormed hwf)
      -- the statement itself is pending during the first part, and leads to all of that
      have hreach : ∀ other, (before.mark address).Pending other →
          ReflTransGen final.Calls (.statement other) (.statement address) := by
        intro other hother
        rcases (Stage.pending_mark_iff hstatement).mp hother with hold | ⟨rfl, -⟩
        · exact hheld other hold _ List.mem_cons_self
        · exact .refl
      have hheldNeeds : Stage.Held final (statement.dependsOn.map (.name address.module))
          (before.mark address) := by
        intro other hother demand hdemand
        have hcalls := Graph.calls_of_mem_dependsOn hstatement hdemand
        exact (hreach other hother).tail (hcalls.mono hextendsBefore)
      obtain ⟨hcoveredNeeded, horderedNeeded⟩ := ihneeds hextendsNeeded (mark_wellFormed hwf)
        hmarkedTidy hheldNeeds (hcovered.of_mark hstatement).of_nil hordered
      have horderedEmit : Stage.Ordered final (needed.emit address) := by
        refine horderedNeeded.emit fun name hcalls target hleads => ?_
        have hdependency := hneeds.requested_dependency hextendsNeeded hstatement hcalls
        have hends := hcoveredNeeded.emitted_or_pending hextendsNeeded hfinal hdependency hleads
        exact hends.imp_right fun h => hreach target ((hpending target).mp h)
      have hheldModifiers : Stage.Held final (module.modifierDemands address.module statement)
          (needed.emit address) := by
        refine hheld.of_calls (fun other => (hpending' other).mp) fun other hother => ?_
        have hcalls := Graph.calls_of_mem_modifierDemands hstatement hmodule hother
        exact hcalls.mono hextendsBefore
      obtain ⟨hcoveredModified, horderedModified⟩ := ihmodifiers hextendsModified hwfNeeded
        hemitTidy hheldModifiers (Stage.Covered.of_nil hcoveredNeeded) horderedEmit
      exact ihrest hextends (hmodifiers.wellFormed hwfNeeded) hmodifiedTidy
        (hheld.of_tail fun other h => (hpending' other).mp ((hpending'' other).mp h))
        hcoveredModified.of_nil horderedModified
  | @name id name module needed rest before followed expanded after hnew hmodule hquiet hemitted
      hmeets hneeded hrest ihneeded ihrest =>
      have hextendsExpanded := hrest.grows.trans hextends
      have hextendsFollowed := hneeded.grows.trans hextendsExpanded
      have hgrows := (extends_request before id name).trans hquiet.toExtends
      have hwfFollowed := hquiet.wellFormed (request_wellFormed hwf)
      have hfollowedTidy := htidy.of_extends hgrows hemitted
      obtain ⟨hexpandedTidy, hpending⟩ := hneeded.tidy hfollowedTidy
      have hpending' : ∀ other, followed.Pending other → before.Pending other :=
        fun other => (Stage.pending_iff_of_request hquiet hemitted).mp
      have hheldNeeded : Stage.Held final needed.demand.toList followed := by
        refine hheld.of_calls hpending' fun other hother => ?_
        exact (hmeets.calls_of_mem hother).mono hextendsFollowed
      have horderedFollowed : Stage.Ordered final followed := by
        unfold Stage.Ordered
        rw [hemitted]
        exact hordered
      obtain ⟨hcoveredExpanded, horderedExpanded⟩ := ihneeded hextendsExpanded hwfFollowed
        hfollowedTidy hheldNeeded (hcovered.of_request hmodule hquiet hmeets hextendsFollowed)
        horderedFollowed
      exact ihrest hextends (hneeded.wellFormed hwfFollowed) hexpandedTidy
        (hheld.of_tail fun other h => hpending' other ((hpending other).mp h))
        hcoveredExpanded.of_nil horderedExpanded
  | @everything id module rest before expanded after hmodule hall hrest ihall ihrest =>
      have hextendsExpanded := hrest.grows.trans hextends
      have hextendsBefore := hall.grows.trans hextendsExpanded
      obtain ⟨hexpandedTidy, hpending⟩ := hall.tidy htidy
      have hheldAll : Stage.Held final (module.statements.flatMap (wanted id false)) before := by
        refine hheld.of_calls (fun _ h => h) fun other hother => ?_
        exact (Graph.calls_of_mem_wanted hwf hmodule hother).mono hextendsBefore
      have hnowhere : Stage.Covered final [] before := by
        refine hcovered.of_marked fun steps address hleads => ?_
        nomatch hleads
      obtain ⟨hcoveredExpanded, horderedExpanded⟩ := ihall hextendsExpanded hwf htidy hheldAll
        hnowhere.of_nil hordered
      exact ihrest hextends (hall.wellFormed hwf) hexpandedTidy
        (hheld.of_tail fun other h => (hpending other).mp h) hcoveredExpanded.of_nil
        horderedExpanded

end Visits

namespace Graph

variable {disk : Disk} {requests : List Demand} {graph : Graph} {address : Address} {entry : Nat}
  {statements : List Address}

/-- A graph that has answered no request yet has no marks. -/
theorem History.not_marks (hhistory : History disk [] graph) :
    (∀ address, ¬ graph.Includes address) ∧ ∀ id name, ¬ graph.Requested id name := by
  have hnothing : ∀ demand, ¬ graph.Demanded [] demand := by
    intro demand hdemanded
    induction hdemanded with
    | requested hdemand => contradiction
    | called _ _ ih => exact ih
  have hcomplete := hhistory.complete
  exact ⟨fun address h => hnothing _ (hcomplete.includes address h),
    fun id name h => hnothing _ (hcomplete.requested id name h)⟩

/-- Only what is requested is demanded of everything in an entry module. -/
theorem Demanded.entry_requested {id : Nat}
    (hdemanded : graph.Demanded requests (.everything id true)) :
    .everything id true ∈ requests := by
  cases hdemanded with
  | requested hdemand => exact hdemand
  | called _ hcalls => nomatch hcalls

/-- An export list is demanded only along with everything in an entry module. -/
theorem Demanded.entry_of_listsExports (hwf : graph.WellFormed)
    (hlists : graph.ListsExports address)
    (hdemanded : graph.Demanded [.everything entry true] (.statement address)) :
    address.module = entry := by
  obtain ⟨statement, hstatement, hlisted⟩ := hlists
  have hplain : ¬ graph.Has (.statement address) := (has_statement_iff hstatement).not.mpr hlisted
  cases hdemanded with
  | requested hdemand => simp at hdemand
  | @called demand _ hdemand hcalls =>
      by_cases hentry : ∃ id, demand = .everything id true
      · obtain ⟨id, rfl⟩ := hentry
        have hid := hdemand.entry_requested
        obtain rfl : id = entry := by simpa using hid
        cases hcalls with
        | plain => rfl
        | listing => rfl
      · exact absurd (hcalls.has hwf fun id heq => hentry ⟨id, heq⟩) hplain

/-- Expanding a module as the entry of a graph lists exactly the statements that are included
afterwards and are no export lists. -/
theorem mem_expandAll_iff (hhistory : History disk [] graph)
    (hhas : graph.Has (.everything entry true))
    (hresult : (graph.expandAll disk entry true).result = .ok statements) :
    address ∈ statements ↔ (graph.expandAll disk entry true).graph.Includes address ∧
      (graph.expandAll disk entry true).graph.Has (.statement address) := by
  obtain ⟨module, hmodule⟩ := hhas
  have hvisits := visits_of_expandAll hhistory hmodule hresult
  obtain ⟨htidy, hpending⟩ := hvisits.tidy (Stage.tidy_nil graph)
  refine ⟨fun hmem => ⟨htidy.includes address hmem, htidy.has address hmem⟩,
    fun ⟨hincludes, hplain⟩ => ?_⟩
  -- at the start nothing is pending
  by_contra hout
  have hidle := (hpending address).mp ⟨hincludes, hplain, hout⟩
  exact hhistory.not_marks.1 address hidle.1

/-- Expanding a module as the entry of a graph lists each included statement once, apart from the
export lists of the module, and what a statement depends on before the statement, unless the two
form a circle. -/
theorem dependencyOrder_expandAll (hhistory : History disk [] graph)
    (hhas : graph.Has (.everything entry true))
    (hresult : (graph.expandAll disk entry true).result = .ok statements) :
    (graph.expandAll disk entry true).graph.DependencyOrder entry statements := by
  obtain ⟨module, hmodule⟩ := hhas
  have hvisits := visits_of_expandAll hhistory hmodule hresult
  have hhas : graph.Has (.everything entry true) := ⟨module, hmodule⟩
  have hcomplete : (graph.expandAll disk entry true).graph.Complete [.everything entry true] :=
    hhistory.complete.of_request hhas hresult
  generalize (graph.expandAll disk entry true).graph = after at hvisits hcomplete ⊢
  obtain ⟨hunmarked, hunasked⟩ := hhistory.not_marks
  -- at the start nothing is pending and no name has been asked for
  have hstart := Stage.tidy_nil graph
  have hidle : ∀ other, ¬ Stage.Pending ⟨graph, []⟩ other :=
    fun other h => hunmarked other h.1
  obtain ⟨htidy, hpending⟩ := hvisits.tidy hstart
  obtain ⟨hcovered, hordered⟩ := hvisits.ordered (.refl after)
    hcomplete.wellFormed hhistory.complete.wellFormed hstart
    (fun other h => absurd h (hidle other)) (fun id name _ _ h => absurd h (hunasked id name))
    (fun other h => absurd h List.not_mem_nil)
  have hemitted : ∀ other, after.Includes other → after.Has (.statement other) →
      other ∈ statements := by
    intro other hincludes hhas
    by_contra hout
    exact hidle other ((hpending other).mp ⟨hincludes, hhas, hout⟩)
  constructor
  case nodup => exact htidy.nodup
  case mem_iff =>
    intro other
    constructor
    · intro hmem
      have hincludes := htidy.includes other hmem
      exact ⟨hincludes, fun hlists =>
        (not_listsExports_iff hincludes).mpr (htidy.has other hmem) hlists.2⟩
    · rintro ⟨hincludes, hplain⟩
      refine hemitted other hincludes ((not_listsExports_iff hincludes).mp fun hlists => ?_)
      have hdemanded := hcomplete.includes other hincludes
      exact hplain ⟨hdemanded.entry_of_listsExports hcomplete.wellFormed hlists, hlists⟩
  case needed_first =>
    intro other hother statement hstatement name hname needed hleads
    have hcalls : after.Calls (.statement other) (.name other.module name) :=
      .dependency hstatement hname
    have hrequested := (hcomplete.settled (.statement other) (htidy.includes other hother)).calls
      _ hcalls
    refine ⟨?_, hordered other hother name hcalls needed hleads⟩
    rcases hcovered.emitted_or_pending (.refl after) hcomplete.wellFormed hrequested hleads with
      hmem | hleft
    · exact hmem
    · exact absurd ((hpending needed).mp hleft) (hidle needed)

/-- Two functions of different modules that call each other, and an export list. -/
def circularDisk : Disk where
  workingDirectory := []
  files :=
    [(["main.js"], .text
        "import \x7b a \x7d from './a';\nvar result = a;\nexport \x7b result \x7d;\n".toList),
      (["a.js"], .text
        "import \x7b b \x7d from './b';\nexport function a() \x7b return b; \x7d\n".toList),
      (["b.js"], .text
        "import \x7b a \x7d from './a';\nexport function b() \x7b return a; \x7d\n".toList)]
  directories := []

/-- The function that is reached last is listed first, and the export list is not listed. -/
theorem dependencyOrder_circularDisk : ∃ graph, History circularDisk [] graph ∧
    (graph.expandAll circularDisk 0 true).result = .ok [⟨2, 1⟩, ⟨1, 1⟩, ⟨0, 1⟩] ∧
    (graph.expandAll circularDisk 0 true).graph.DependencyOrder 0 [⟨2, 1⟩, ⟨1, 1⟩, ⟨0, 1⟩] := by
  have hload : (Graph.empty.run (Build.load circularDisk ⟨"/main.js"⟩)).result = .ok 0 := by
    decide +kernel
  have hhas : (Graph.empty.run (Build.load circularDisk ⟨"/main.js"⟩)).graph.Has
      (.everything 0 true) :=
    Option.isSome_iff_exists.mp (by decide +kernel)
  have hresult : ((Graph.empty.run (Build.load circularDisk ⟨"/main.js"⟩)).graph.expandAll
      circularDisk 0 true).result = .ok [⟨2, 1⟩, ⟨1, 1⟩, ⟨0, 1⟩] := by
    decide +kernel
  have hhistory := History.loaded .start hload
  exact ⟨_, hhistory, hresult, dependencyOrder_expandAll hhistory hhas hresult⟩

end Graph

end ScriptBundler
