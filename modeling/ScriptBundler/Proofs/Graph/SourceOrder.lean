import Mathlib.Data.List.Pairwise
import ScriptBundler.Proofs.Graph.Order

/-!
# Source order

When the statements of the entry module get into the bundle in the order of the source.  Expansion
goes through the entry module in that order, so that a statement gets ahead of an earlier one for
one of two reasons only: what comes before the earlier one brings it along, or what the earlier one
depends on does.  `Graph.Early` is what is looked after for these reasons.  For a module that is
`Graph.Steady` there are no such reasons.

To depend on a later statement is not the only reason.  A statement that modifies a name is put
right behind the one that defines the name, ahead of anything in between.
-/

namespace ScriptBundler

open Files ScriptBundler.Module Script Relation

/-- Whether a list keeps the source order of a module for all pairs of statements without an
excuse. -/
def KeepsSourceOrder (id : Nat) (statements : List Address) (excused : Nat → Nat → Prop) : Prop :=
  ∀ first second, first < second → ⟨id, first⟩ ∈ statements → ⟨id, second⟩ ∈ statements →
    ¬ excused first second → [⟨id, first⟩, ⟨id, second⟩].Sublist statements

namespace Graph

/-- Whether a statement needs another one through what is depended on, over any number of steps. -/
def Needs (graph : Graph) (address other : Address) : Prop :=
  ReflTransGen (fun demand called => graph.Calls demand called ∧
    ∀ modified modifier, ¬ (demand = .statement modified ∧ called = .statement modifier))
    (.statement address) (.statement other)

/-- The demands that are looked after before a statement of the entry module is put into the bundle:
what is wanted of the statements before it, what it depends on itself, and what these call for, on
ways that do not come past the statement. -/
inductive Early (graph : Graph) (entry index : Nat) : Demand → Prop where
  | earlier {position : Nat} {statement : Statement} {demand : Demand} (hbefore : position < index)
      (hstatement : graph.statement? ⟨entry, position⟩ = some statement)
      (hwanted : demand ∈ wanted entry true statement) : Early graph entry index demand
  | dependency {statement : Statement} {name : String}
      (hstatement : graph.statement? ⟨entry, index⟩ = some statement)
      (hname : name ∈ statement.dependsOn) : Early graph entry index (.name entry name)
  | called {demand called : Demand} (hearly : Early graph entry index demand)
      (hcalls : graph.Calls demand called) (hother : called ≠ .statement ⟨entry, index⟩) :
      Early graph entry index called

/-- Whether nothing that an entry module takes of a statement comes down to a later one. -/
def Sequential (graph : Graph) (entry : Nat) : Prop :=
  ∀ position statement demand later, graph.statement? ⟨entry, position⟩ = some statement →
    demand ∈ wanted entry true statement → position < later →
      ¬ ReflTransGen graph.Calls demand (.statement ⟨entry, later⟩)

/-- Whether a demand is for a statement of a module at or before a position, or for a name that
calls for such a statement at most. -/
def Behind (graph : Graph) (entry position : Nat) : Demand → Prop
  | .statement address => address.module = entry ∧ address.index ≤ position
  | .name id name => id = entry ∧ ∀ called, graph.Calls (.name id name) called →
      ∃ index ≤ position, called = .statement ⟨entry, index⟩
  | .everything _ _ => False

/-- Whether no statement of a module depends on a later one, lists a later one for export, or
defines what a later one modifies. -/
def Steady (graph : Graph) (entry : Nat) : Prop :=
  ∀ module position statement, graph.module? entry = some module →
    module.statement? position = some statement →
    (∀ name ∈ statement.dependsOn ++ listedNames statement.form,
      graph.Behind entry position (.name entry name)) ∧
    ∀ name ∈ statement.defines, ∀ index ∈ module.modifiersOf name, index ≤ position

variable {graph before after : Graph} {entry index position : Nat} {demand called : Demand}
  {address : Address}

theorem Behind.mono {later : Nat} (hbehind : graph.Behind entry position demand)
    (hle : position ≤ later) : graph.Behind entry later demand := by
  cases demand with
  | statement address => exact ⟨hbehind.1, Nat.le_trans hbehind.2 hle⟩
  | name id name =>
      refine ⟨hbehind.1, fun called hcalls => ?_⟩
      obtain ⟨index, hindex, heq⟩ := hbehind.2 called hcalls
      exact ⟨index, Nat.le_trans hindex hle, heq⟩
  | everything id isEntry => exact hbehind

/-- A name of the module itself stays behind a position if it is that of a statement there, or of
none. -/
theorem Behind.of_own {module : Module} {name : String}
    (hmodule : graph.module? entry = some module) (hown : module.imports.get? name = none)
    (hneed : module.ownNeed entry name = .nothing ∨
      ∃ index ≤ position, module.ownNeed entry name = .statement ⟨entry, index⟩) :
    graph.Behind entry position (.name entry name) := by
  refine ⟨rfl, fun called hcalls => ?_⟩
  have hdemand := (calls_own hmodule hown).mp hcalls
  rcases hneed with hnothing | ⟨index, hindex, hstatement⟩
  · rw [hnothing] at hdemand
    contradiction
  · rw [hstatement] at hdemand
    exact ⟨index, hindex, (Option.some.inj hdemand).symm⟩

/-- In a steady module, what calls for something does not get past a position. -/
theorem Steady.step (hsteady : graph.Steady entry) (hbehind : graph.Behind entry position demand)
    (hcalls : graph.Calls demand called) : graph.Behind entry position called := by
  cases demand with
  | statement address =>
      obtain ⟨id, index⟩ := address
      obtain ⟨rfl, hindex⟩ := hbehind
      refine Behind.mono ?_ hindex
      cases hcalls with
      | dependency hstatement hname =>
          obtain ⟨module, hmodule, hget⟩ := statement?_eq_some_iff.mp hstatement
          exact (hsteady module index _ hmodule hget).1 _ (List.mem_append_left _ hname)
      | modifier hstatement hname hmodule hmodifier =>
          obtain ⟨found, hfound, hget⟩ := statement?_eq_some_iff.mp hstatement
          obtain rfl := Option.some.inj (hmodule.symm.trans hfound)
          exact ⟨rfl, (hsteady _ index _ hmodule hget).2 _ hname _ hmodifier⟩
  | name id name =>
      obtain ⟨index, hindex, rfl⟩ := hbehind.2 called hcalls
      exact ⟨rfl, hindex⟩
  | everything id isEntry => exact hbehind.elim

/-- Nothing in a steady module comes down to a later statement. -/
theorem Steady.sequential (hsteady : graph.Steady entry) (hwf : graph.WellFormed) :
    graph.Sequential entry := by
  intro position statement demand later hstatement hwanted hlater hreach
  obtain ⟨module, hmodule, hget⟩ := statement?_eq_some_iff.mp hstatement
  have hindex := (hwf.module _ _ hmodule).index position statement hget
  have hself : graph.Behind entry position (.statement ⟨entry, statement.index⟩) :=
    ⟨rfl, Nat.le_of_eq hindex⟩
  have hfirst : graph.Behind entry position demand := by
    unfold wanted at hwanted
    cases hrole : roleOf true statement.form with
    | onDemand =>
        rw [hrole] at hwanted
        contradiction
    | included =>
        rw [hrole] at hwanted
        obtain rfl := List.mem_singleton.mp hwanted
        exact hself
    | listing locals =>
        rw [hrole] at hwanted
        obtain ⟨-, rfl, -⟩ := roleOf_eq_listing_iff.mp hrole
        rcases List.mem_cons.mp hwanted with rfl | hlisted
        · exact hself
        · obtain ⟨name, hname, rfl⟩ := List.mem_map.mp hlisted
          exact (hsteady module position statement hmodule hget).1 name
            (List.mem_append_right _ hname)
  have hall : ∀ called, ReflTransGen graph.Calls demand called →
      graph.Behind entry position called := by
    intro called hcalled
    induction hcalled with
    | refl => exact hfirst
    | tail _ hcalls ih => exact hsteady.step ih hcalls
  exact absurd (hall _ hreach).2 (Nat.not_le_of_lt hlater)

/-- What an early demand calls for is early, or is the statement in question. -/
theorem Early.step (hearly : graph.Early entry index demand) (hcalls : graph.Calls demand called) :
    graph.Early entry index called ∨ called = .statement ⟨entry, index⟩ := by
  by_cases hother : called = .statement ⟨entry, index⟩
  · exact Or.inr hother
  · exact Or.inl (.called hearly hcalls hother)

theorem wanted_of_asRead {statement later : Statement} {isEntry : Bool}
    (hrest : later.asRead = statement.asRead) :
    wanted entry isEntry later = wanted entry isEntry statement := by
  have hindex : later.index = statement.index := (congrArg Statement.index hrest :)
  unfold wanted
  rw [Statement.form_eq_of_asRead hrest, hindex]

/-- What is wanted of a statement at a smaller position is early. -/
theorem Early.of_mem_take (hextends : before.Extends after) {module : Module}
    (hmodule : before.module? entry = some module) {statement : Statement}
    (hmem : statement ∈ module.statements.take index)
    (hwanted : demand ∈ wanted entry true statement) : after.Early entry index demand := by
  obtain ⟨position, hposition, hget⟩ := List.getElem_of_mem hmem
  have hbefore : position < index := by
    rw [List.length_take] at hposition
    omega
  have hstatement : before.statement? ⟨entry, position⟩ = some statement := by
    refine statement?_eq_some_iff.mpr ⟨module, hmodule, ?_⟩
    rw [List.getElem_take] at hget
    exact List.getElem?_eq_some_iff.mpr ⟨_, hget⟩
  obtain ⟨later, hlater, heq⟩ := hextends.statement? hstatement
  exact .earlier hbefore hlater (wanted_of_asRead heq ▸ hwanted)

/-- What is early for a statement comes down from what is wanted of it or of one before it. -/
theorem Early.reached (hearly : graph.Early entry index demand)
    (hself : ∀ statement, graph.statement? ⟨entry, index⟩ = some statement →
      .statement ⟨entry, index⟩ ∈ wanted entry true statement) :
    ∃ position statement first, position ≤ index ∧
      graph.statement? ⟨entry, position⟩ = some statement ∧
      first ∈ wanted entry true statement ∧ ReflTransGen graph.Calls first demand := by
  induction hearly with
  | @earlier position statement demand hbefore hstatement hwanted =>
      exact ⟨position, statement, demand, Nat.le_of_lt hbefore, hstatement, hwanted, .refl⟩
  | @dependency statement name hstatement hname =>
      have hcalls : graph.Calls (.statement ⟨entry, index⟩) (.name entry name) :=
        .dependency hstatement hname
      exact ⟨index, statement, _, Nat.le_refl index, hstatement, hself statement hstatement,
        .single hcalls⟩
  | called _ hcalls _ ih =>
      obtain ⟨position, statement, first, hposition, hstatement, hwanted, hreach⟩ := ih
      exact ⟨position, statement, first, hposition, hstatement, hwanted, hreach.tail hcalls⟩

/-- Nothing calls for an import declaration. -/
theorem Calls.not_isImport (hwf : graph.WellFormed) {statement : Statement}
    (hcalls : graph.Calls demand (.statement address))
    (hstatement : graph.statement? address = some statement) :
    isImport statement.form = false := by
  obtain ⟨module, hmodule, hget⟩ := statement?_eq_some_iff.mp hstatement
  cases hform : statement.form with
  | importDecl specifiers source =>
      exfalso
      obtain ⟨hdefinition, hmodifier, hdefault⟩ :=
        (hwf.module _ _ hmodule).imported _ _ specifiers source hget hform
      have hsame : ∀ found, graph.module? address.module = some found → found = module :=
        fun found h => Option.some.inj (h.symm.trans hmodule)
      cases hcalls with
      | plain hfound himport =>
          obtain rfl := Option.some.inj (hstatement.symm.trans hfound)
          rw [hform] at himport
          contradiction
      | listing hfound hlisted =>
          obtain rfl := Option.some.inj (hstatement.symm.trans hfound)
          rw [hform] at hlisted
          exact hlisted rfl
      | modifier _ _ hfound hindex =>
          obtain rfl := hsame _ hfound
          exact hmodifier _ hindex
      | defaultStatement hfound _ hentry _ hindex =>
          obtain rfl := hsame _ hfound
          exact hdefault _ hentry hindex
      | definition hfound _ _ hindex =>
          obtain rfl := hsame _ hfound
          exact hdefinition _ hindex
  | _ => rfl

end Graph

/-- Whether all of the bundle is early for a statement, or comes after it. -/
def Stage.Kept (final : Graph) (entry index : Nat) (stage : Stage) : Prop :=
  ∀ address ∈ stage.emitted, address = ⟨entry, index⟩ ∨
    final.Early entry index (.statement address) ∨
      [⟨entry, index⟩, address].Sublist stage.emitted

/-- Putting a statement into the bundle keeps the order if it is early, or if the statement in
question is there already. -/
theorem Stage.Kept.emit {final : Graph} {entry index : Nat} {stage : Stage} {address : Address}
    (hkept : stage.Kept final entry index)
    (hearly : ⟨entry, index⟩ ∉ stage.emitted →
      final.Early entry index (.statement address) ∨ address = ⟨entry, index⟩) :
    (stage.emit address).Kept final entry index := by
  intro other hother
  rcases List.mem_append.mp hother with hold | hnew
  · refine (hkept other hold).imp_right fun h => h.imp_right fun hsub => ?_
    exact hsub.trans (List.sublist_append_left _ _)
  · obtain rfl := List.mem_singleton.mp hnew
    by_cases hthere : ⟨entry, index⟩ ∈ stage.emitted
    · have hsub := (List.singleton_sublist.mpr hthere).append (List.Sublist.refl [other])
      exact Or.inr (Or.inr hsub)
    · rcases hearly hthere with hearly | hself
      · exact Or.inr (Or.inl hearly)
      · exact Or.inl hself

namespace Visits

variable {demands first second : List Demand} {before after : Stage} {final : Graph}
  {entry index : Nat}

/-- A walk through two lists of demands is a walk through the first one and then one through the
second one. -/
theorem split (hvisits : Visits (first ++ second) before after) :
    ∃ middle, Visits first before middle ∧ Visits second middle after := by
  induction first generalizing before with
  | nil => exact ⟨before, .done _, hvisits⟩
  | cons demand rest ih =>
      cases hvisits with
      | marked hmarks hrest =>
          obtain ⟨middle, hfirst, hsecond⟩ := ih hrest
          exact ⟨middle, .marked hmarks hfirst, hsecond⟩
      | listing hnew hstatement hlisted hrest =>
          obtain ⟨middle, hfirst, hsecond⟩ := ih hrest
          exact ⟨middle, .listing hnew hstatement hlisted hfirst, hsecond⟩
      | statement hnew hstatement hplain hmodule hneeds hmodifiers hrest =>
          obtain ⟨middle, hfirst, hsecond⟩ := ih hrest
          exact ⟨middle, .statement hnew hstatement hplain hmodule hneeds hmodifiers hfirst,
            hsecond⟩
      | name hnew hmodule hquiet hemitted hmeets hneeded hrest =>
          obtain ⟨middle, hfirst, hsecond⟩ := ih hrest
          exact ⟨middle, .name hnew hmodule hquiet hemitted hmeets hneeded hfirst, hsecond⟩
      | everything hmodule hall hrest =>
          obtain ⟨middle, hfirst, hsecond⟩ := ih hrest
          exact ⟨middle, .everything hmodule hall hfirst, hsecond⟩

/-- A walk keeps the order around a statement of the entry module, if all that is demanded before
the statement is in the bundle is early. -/
theorem kept (hvisits : Visits demands before after) (hextends : after.graph.Extends final)
    (hwf : before.graph.WellFormed)
    (hdemands : ⟨entry, index⟩ ∉ before.emitted → ∀ demand ∈ demands,
      final.Early entry index demand ∨ demand = .statement ⟨entry, index⟩)
    (hkept : before.Kept final entry index) : after.Kept final entry index := by
  induction hvisits with
  | done => exact hkept
  | marked _ _ ih =>
      exact ih hextends hwf (fun hout demand h => hdemands hout demand (List.mem_cons_of_mem _ h))
        hkept
  | listing _ _ _ _ ih =>
      exact ih hextends (mark_wellFormed hwf)
        (fun hout demand h => hdemands hout demand (List.mem_cons_of_mem _ h)) hkept
  | @statement address statement module rest before needed modified after hnew hstatement hplain
      hmodule hneeds hmodifiers hrest ihneeds ihmodifiers ihrest =>
      have hextendsModified := hrest.grows.trans hextends
      have hextendsNeeded := hmodifiers.grows.trans hextendsModified
      have hextendsBefore := (extends_mark before address).trans (hneeds.grows.trans hextendsNeeded)
      have hwfNeeded := hneeds.wellFormed (mark_wellFormed hwf)
      have hself : ⟨entry, index⟩ ∉ before.emitted →
          final.Early entry index (.statement address) ∨ address = ⟨entry, index⟩ := by
        intro hout
        exact (hdemands hout _ List.mem_cons_self).imp_right Demand.statement.inj
      -- the bundle only grows, so that a statement which is missing later is missing now
      have houtNeeded : ⟨entry, index⟩ ∉ needed.emitted → ⟨entry, index⟩ ∉ before.emitted :=
        fun hout hin => hout (hneeds.prefix_emitted.subset hin)
      have houtModified : ⟨entry, index⟩ ∉ modified.emitted →
          ⟨entry, index⟩ ∉ (needed.emit address).emitted :=
        fun hout hin => hout (hmodifiers.prefix_emitted.subset hin)
      have houtEmit : ⟨entry, index⟩ ∉ (needed.emit address).emitted →
          ⟨entry, index⟩ ∉ needed.emitted ∧ address ≠ ⟨entry, index⟩ := by
        intro hout
        refine ⟨fun hin => hout (List.mem_append_left _ hin), ?_⟩
        rintro rfl
        exact hout (List.mem_append_right _ List.mem_cons_self)
      have hkeptNeeded : needed.Kept final entry index := by
        refine ihneeds hextendsNeeded (mark_wellFormed hwf) (fun hout demand hdemand => ?_) hkept
        rcases hself hout with hearly | rfl
        · have hcalls := Graph.calls_of_mem_dependsOn hstatement hdemand
          exact hearly.step (hcalls.mono hextendsBefore)
        · obtain ⟨later, hlater, heq⟩ := hextendsBefore.statement? hstatement
          obtain ⟨name, hname, rfl⟩ := List.mem_map.mp hdemand
          rw [← Statement.dependsOn_eq_of_asRead heq] at hname
          exact Or.inl (.dependency hlater hname)
      have hkeptModified : modified.Kept final entry index := by
        refine ihmodifiers hextendsModified hwfNeeded (fun hout demand hdemand => ?_)
          (hkeptNeeded.emit fun hout => hself (houtNeeded hout))
        obtain ⟨hout, hother⟩ := houtEmit hout
        have hearly := (hself (houtNeeded hout)).resolve_right hother
        have hcalls := Graph.calls_of_mem_modifierDemands hstatement hmodule hdemand
        exact hearly.step (hcalls.mono hextendsBefore)
      refine ihrest hextends (hmodifiers.wellFormed hwfNeeded) (fun hout demand hdemand => ?_)
        hkeptModified
      have hout := houtNeeded (houtEmit (houtModified hout)).1
      exact hdemands hout demand (List.mem_cons_of_mem _ hdemand)
  | @name id name module needed rest before followed expanded after hnew hmodule hquiet hemitted
      hmeets hneeded hrest ihneeded ihrest =>
      have hextendsExpanded := hrest.grows.trans hextends
      have hwfFollowed := hquiet.wellFormed (request_wellFormed hwf)
      have hkeptFollowed : followed.Kept final entry index := by
        unfold Stage.Kept
        rw [hemitted]
        exact hkept
      have hkeptExpanded : expanded.Kept final entry index := by
        refine ihneeded hextendsExpanded hwfFollowed (fun hout demand hdemand => ?_) hkeptFollowed
        rw [hemitted] at hout
        have hearly : final.Early entry index (.name id name) :=
          (hdemands hout _ List.mem_cons_self).resolve_right (by simp)
        have hcalls := hmeets.calls_of_mem hdemand
        exact hearly.step (hcalls.mono (hneeded.grows.trans hextendsExpanded))
      refine ihrest hextends (hneeded.wellFormed hwfFollowed) (fun hout demand hdemand => ?_)
        hkeptExpanded
      have hout' : ⟨entry, index⟩ ∉ before.emitted := fun hin =>
        hout (hneeded.prefix_emitted.subset (hemitted ▸ hin))
      exact hdemands hout' demand (List.mem_cons_of_mem _ hdemand)
  | @everything id module rest before expanded after hmodule hall hrest ihall ihrest =>
      have hextendsExpanded := hrest.grows.trans hextends
      have hkeptExpanded : expanded.Kept final entry index := by
        refine ihall hextendsExpanded hwf (fun hout demand hdemand => ?_) hkept
        have hearly : final.Early entry index (.everything id false) :=
          (hdemands hout _ List.mem_cons_self).resolve_right (by simp)
        have hcalls := Graph.calls_of_mem_wanted hwf hmodule hdemand
        exact hearly.step (hcalls.mono (hall.grows.trans hextendsExpanded))
      refine ihrest hextends (hall.wellFormed hwf) (fun hout demand hdemand => ?_) hkeptExpanded
      exact hdemands (fun hin => hout (hall.prefix_emitted.subset hin)) demand
        (List.mem_cons_of_mem _ hdemand)

end Visits

namespace Graph

variable {disk : Disk} {requests : List Demand} {graph final : Graph} {entry : Nat}
  {statements : List Address}

/-- A listed statement of the entry module was not in the graph's bundle before, and is one that the
module as a whole includes. -/
theorem included_of_mem_expandAll (hhistory : History disk requests graph)
    (hhas : graph.Has (.everything entry true))
    (hresult : (graph.expandAll disk entry true).result = .ok statements) {index : Nat}
    (hmem : ⟨entry, index⟩ ∈ statements) :
    ∃ statement, graph.statement? ⟨entry, index⟩ = some statement ∧
      roleOf true statement.form = .included := by
  obtain ⟨hexpands, -⟩ := hhistory.complete.expands_of_request hhas hresult
  obtain ⟨module, hmodule⟩ := hhas
  have hvisits := visits_of_expandAll hhistory hmodule hresult
  obtain ⟨htidy, hpending⟩ := hvisits.tidy (Stage.tidy_nil graph)
  have hincludes := htidy.includes _ hmem
  obtain ⟨later, hlater, hlisted⟩ := htidy.has _ hmem
  -- what had been included before would be pending still, and not be listed
  have hnew : ¬ graph.Includes ⟨entry, index⟩ := by
    intro hold
    have hthere := hvisits.grows.has_statement_back hold ⟨later, hlater, hlisted⟩
    have hleft := (hpending ⟨entry, index⟩).mpr ⟨hold, hthere, List.not_mem_nil⟩
    exact hleft.2.2 hmem
  have hreach := (hexpands.includes _ hincludes).resolve_left hnew
  have himport : isImport later.form = false := by
    rcases ReflTransGen.cases_tail hreach with heq | ⟨demand, -, hcalls⟩
    · contradiction
    · exact hcalls.not_isImport (hexpands.wellFormed hhistory.complete.wellFormed) hlater
  obtain ⟨statement, hstatement, heq⟩ := hvisits.grows.statement?_back hmodule hlater
  rw [← Statement.form_eq_of_asRead heq] at himport hlisted
  exact ⟨statement, hstatement, roleOf_eq_included_iff.mpr ⟨himport, hlisted⟩⟩

/-- A listed statement of the entry module is wanted for its own sake. -/
theorem wanted_self_of_mem_expandAll (hhistory : History disk requests graph)
    (hhas : graph.Has (.everything entry true))
    (hresult : (graph.expandAll disk entry true).result = .ok statements) {index : Nat}
    (hmem : ⟨entry, index⟩ ∈ statements) (later : Statement)
    (hlater : (graph.expandAll disk entry true).graph.statement? ⟨entry, index⟩ = some later) :
    .statement ⟨entry, index⟩ ∈ wanted entry true later := by
  obtain ⟨statement, hstatement, hrole⟩ := included_of_mem_expandAll hhistory hhas hresult hmem
  obtain ⟨module, hmodule, hget⟩ := statement?_eq_some_iff.mp hstatement
  have hindex := (hhistory.complete.wellFormed.module _ _ hmodule).index index statement hget
  have hvisits := visits_of_expandAll hhistory hmodule hresult
  obtain ⟨found, hfound, heq⟩ := hvisits.grows.statement? hstatement
  obtain rfl := Option.some.inj (hlater.symm.trans hfound)
  rw [wanted_of_asRead heq, wanted, hrole, hindex]
  exact List.mem_cons_self

/-- Expanding a module as the entry of a graph lists its statements in source order, but for those
that something before them brings along: a later statement comes first only if it is early for the
other one. -/
theorem keepsSourceOrder_expandAll (hhistory : History disk requests graph)
    (hhas : graph.Has (.everything entry true))
    (hresult : (graph.expandAll disk entry true).result = .ok statements) :
    KeepsSourceOrder entry statements fun first second =>
      (graph.expandAll disk entry true).graph.Early entry first (.statement ⟨entry, second⟩) := by
  intro first second hlt hfirst hsecond hclear
  obtain ⟨statement, hstatement, hrole⟩ :=
    included_of_mem_expandAll hhistory hhas hresult hfirst
  obtain ⟨-, hlisted⟩ := roleOf_eq_included_iff.mp hrole
  obtain ⟨module, hmodule, hget⟩ := statement?_eq_some_iff.mp hstatement
  have hwf := hhistory.complete.wellFormed
  have hvisits := visits_of_expandAll hhistory hmodule hresult
  generalize (graph.expandAll disk entry true).graph = after at hvisits hclear
  -- the walk comes to the statement after all that is before it
  have hwanted : wanted entry true statement = [.statement ⟨entry, first⟩] := by
    have hindex := (hwf.module _ _ hmodule).index first statement hget
    rw [wanted, hrole, hindex]
  have hsplit : module.statements =
      module.statements.take first ++ statement :: module.statements.drop (first + 1) := by
    obtain ⟨hbound, heq⟩ := List.getElem?_eq_some_iff.mp hget
    rw [← heq, ← List.drop_eq_getElem_cons hbound, List.take_append_drop]
  rw [hsplit, List.flatMap_append, List.flatMap_cons, hwanted, ← List.append_assoc] at hvisits
  obtain ⟨middle, hleft, hright⟩ := hvisits.split
  have hkeptMiddle : middle.Kept after entry first := by
    refine hleft.kept hright.grows hwf (fun _ demand hdemand => ?_)
      (fun _ h => absurd h List.not_mem_nil)
    rcases List.mem_append.mp hdemand with hbefore | hself
    · obtain ⟨other, hother, hcalled⟩ := List.mem_flatMap.mp hbefore
      exact Or.inl (.of_mem_take (hleft.grows.trans hright.grows) hmodule hother hcalled)
    · exact Or.inr (List.mem_singleton.mp hself)
  have hthere : ⟨entry, first⟩ ∈ middle.emitted := by
    by_contra hout
    obtain ⟨htidy, -⟩ := hleft.tidy (Stage.tidy_nil graph)
    have hmarks : middle.graph.Includes ⟨entry, first⟩ :=
      hleft.marks (List.mem_append_right _ List.mem_cons_self) (by simp)
    have hthere := hleft.grows.has_statement ⟨statement, hstatement, hlisted⟩
    have hpending := ((hright.tidy htidy).2 ⟨entry, first⟩).mpr ⟨hmarks, hthere, hout⟩
    exact hpending.2.2 hfirst
  have hkept := hright.kept (.refl after) (hleft.wellFormed hwf)
    (fun hout => absurd hthere hout) hkeptMiddle
  rcases hkept ⟨entry, second⟩ hsecond with heq | hearly | hsub
  · obtain ⟨-, rfl⟩ := Address.mk.inj heq
    exact absurd hlt (Nat.lt_irrefl _)
  · exact absurd hearly hclear
  · exact hsub

/-- The two orders of a pair exclude each other in a list without duplicates. -/
theorem eq_of_sublist_of_sublist {α : Type} {items : List α} {first second : α}
    (hnodup : items.Nodup) (hforth : [first, second].Sublist items)
    (hback : [second, first].Sublist items) : first = second := by
  induction items with
  | nil => contradiction
  | cons item rest ih =>
      obtain ⟨hout, hrest⟩ := List.nodup_cons.mp hnodup
      rcases List.cons_sublist_cons'.mp hforth with hforth' | ⟨rfl, -⟩
      · rcases List.cons_sublist_cons'.mp hback with hback' | ⟨rfl, -⟩
        · exact ih hrest hforth' hback'
        · exact absurd (hforth'.subset (by simp)) hout
      · rcases List.cons_sublist_cons'.mp hback with hback' | ⟨rfl, -⟩
        · exact absurd (hback'.subset (by simp)) hout
        · rfl

/-- Expanding a module as the entry of a graph keeps the source order, but for what something before
a statement brings along.  If nothing in the module comes down to a later statement, then all of its
listed statements are in source order. -/
theorem sourceOrder_expandAll (hhistory : History disk requests graph)
    (hhas : graph.Has (.everything entry true))
    (hresult : (graph.expandAll disk entry true).result = .ok statements) :
    (KeepsSourceOrder entry statements fun first second =>
        (graph.expandAll disk entry true).graph.Early entry first (.statement ⟨entry, second⟩)) ∧
      ((graph.expandAll disk entry true).graph.Sequential entry →
        (statements.filter (·.module == entry)).Pairwise (·.index < ·.index)) := by
  have hkeeps := keepsSourceOrder_expandAll hhistory hhas hresult
  refine ⟨hkeeps, fun hsequential => ?_⟩
  obtain ⟨module, hmodule⟩ := hhas
  have hvisits := visits_of_expandAll hhistory hmodule hresult
  obtain ⟨htidy, -⟩ := hvisits.tidy (Stage.tidy_nil graph)
  rw [List.pairwise_iff_forall_sublist]
  rintro ⟨id, first⟩ ⟨id', second⟩ hsub
  have hmem : ∀ address ∈ [⟨id, first⟩, ⟨id', second⟩],
      address ∈ statements ∧ address.module = entry := by
    intro address haddress
    simpa using hsub.subset haddress
  obtain ⟨hfirst, rfl⟩ := hmem ⟨id, first⟩ (by simp)
  obtain ⟨hsecond, rfl⟩ := hmem ⟨id', second⟩ (by simp)
  have hforth := hsub.trans List.filter_sublist
  have hdistinct : first ≠ second := by
    rintro rfl
    have hpair := htidy.nodup.sublist hforth
    simp at hpair
  by_contra hnot
  have hlt : second < first := by
    have hle : ¬ first < second := hnot
    omega
  -- otherwise the later statement of the source would be early for the other one
  by_cases hearly : (graph.expandAll disk id' true).graph.Early id' second (.statement ⟨id', first⟩)
  · have hself := wanted_self_of_mem_expandAll hhistory ⟨module, hmodule⟩ hresult hsecond
    obtain ⟨position, statement, demand, hposition, hstatement, hwanted, hreach⟩ :=
      hearly.reached hself
    have hpast : position < first := by omega
    exact absurd hreach (hsequential position statement demand first hstatement hwanted hpast)
  · have hback := hkeeps second first hlt hsecond hfirst hearly
    have heq := eq_of_sublist_of_sublist htidy.nodup hforth hback
    exact hdistinct (congrArg Address.index heq)

/-- A module with variables, a call and an export list, none of which comes down to a later one. -/
def steadyDisk : Disk where
  workingDirectory := []
  files :=
    [(["main.js"], .text
      "var a = 1;\nconsole.log('between');\nvar b = a;\nexport \x7b b \x7d;\n".toList)]
  directories := []

theorem sourceOrder_steadyDisk : ∃ graph, History steadyDisk [] graph ∧
    (graph.expandAll steadyDisk 0 true).result = .ok [⟨0, 0⟩, ⟨0, 1⟩, ⟨0, 2⟩] ∧
    (graph.expandAll steadyDisk 0 true).graph.Sequential 0 ∧
    (KeepsSourceOrder 0 [⟨0, 0⟩, ⟨0, 1⟩, ⟨0, 2⟩] fun first second =>
      (graph.expandAll steadyDisk 0 true).graph.Early 0 first (.statement ⟨0, second⟩)) ∧
    ([⟨0, 0⟩, ⟨0, 1⟩, ⟨0, 2⟩] : List Address).Pairwise (·.index < ·.index) := by
  have hload : (Graph.empty.run (Build.load steadyDisk ⟨"/main.js"⟩)).result = .ok 0 := by
    decide +kernel
  have hhas : (Graph.empty.run (Build.load steadyDisk ⟨"/main.js"⟩)).graph.Has
      (.everything 0 true) :=
    Option.isSome_iff_exists.mp (by decide +kernel)
  have hresult : ((Graph.empty.run (Build.load steadyDisk ⟨"/main.js"⟩)).graph.expandAll
      steadyDisk 0 true).result = .ok [⟨0, 0⟩, ⟨0, 1⟩, ⟨0, 2⟩] := by
    decide +kernel
  have hcheck : ∀ module ∈ ((Graph.empty.run (Build.load steadyDisk ⟨"/main.js"⟩)).graph.expandAll
      steadyDisk 0 true).graph.module? 0, ∀ statement ∈ module.statements,
      (∀ name ∈ statement.dependsOn ++ listedNames statement.form,
        module.imports.get? name = none ∧ (module.ownNeed 0 name = .nothing ∨
          ∃ index ≤ statement.index, module.ownNeed 0 name = .statement ⟨0, index⟩)) ∧
      ∀ name ∈ statement.defines, ∀ index ∈ module.modifiersOf name,
        index ≤ statement.index := by
    decide +kernel
  have hhistory := History.loaded .start hload
  have hwf := (hhistory.complete.of_request hhas hresult).wellFormed
  have hsteady : ((Graph.empty.run (Build.load steadyDisk ⟨"/main.js"⟩)).graph.expandAll
      steadyDisk 0 true).graph.Steady 0 := by
    intro module position statement hmodule hget
    obtain ⟨hnames, hmodifiers⟩ := hcheck module hmodule statement (List.mem_of_getElem? hget)
    obtain rfl := (hwf.module _ _ hmodule).index position statement hget
    refine ⟨fun name hname => ?_, hmodifiers⟩
    obtain ⟨hown, hneed⟩ := hnames name hname
    exact .of_own hmodule hown hneed
  have hsequential := hsteady.sequential hwf
  obtain ⟨hkeeps, hpairwise⟩ := sourceOrder_expandAll hhistory hhas hresult
  exact ⟨_, hhistory, hresult, hsequential, hkeeps, hpairwise hsequential⟩

/-- A module with a statement between a variable and an assignment to it. -/
def pulledDisk : Disk where
  workingDirectory := []
  files := [(["main.js"], .text "var a = 1;\nconsole.log('between');\na = 2;\n".toList)]
  directories := []

/-- A statement that depends on globals alone needs no other statement. -/
theorem not_needs_of_globals {id index : Nat} {module : Module} {statement : Statement}
    (other : Address) (hmodule : graph.module? id = some module)
    (hstatement : module.statement? index = some statement)
    (hglobals : ∀ name ∈ statement.dependsOn,
      module.imports.get? name = none ∧ module.ownNeed id name = .nothing)
    (hother : other ≠ ⟨id, index⟩) : ¬ graph.Needs ⟨id, index⟩ other := by
  intro hneeds
  rcases ReflTransGen.cases_head hneeds with heq | ⟨called, ⟨hcalls, hplain⟩, hrest⟩
  · exact hother (Demand.statement.inj heq).symm
  · cases hcalls with
    | modifier => exact hplain _ _ ⟨rfl, rfl⟩
    | @dependency _ found name hfound hname =>
        have hget : graph.statement? ⟨id, index⟩ = some statement :=
          statement?_eq_some_iff.mpr ⟨module, hmodule, hstatement⟩
        obtain rfl := Option.some.inj (hget.symm.trans hfound)
        obtain ⟨hown, hneed⟩ := hglobals name hname
        rcases ReflTransGen.cases_head hrest with heq | ⟨called, ⟨hcalls, -⟩, -⟩
        · contradiction
        · have hdemand := (calls_own hmodule hown).mp hcalls
          rw [hneed] at hdemand
          contradiction

/-- Not to need a later statement is not enough to come before it: the assignment comes right behind
the variable, ahead of the statement between them. -/
theorem not_keepsSourceOrder_pulledDisk : ∃ graph, History pulledDisk [] graph ∧
    (graph.expandAll pulledDisk 0 true).result = .ok [⟨0, 0⟩, ⟨0, 2⟩, ⟨0, 1⟩] ∧
    ¬ KeepsSourceOrder 0 [⟨0, 0⟩, ⟨0, 2⟩, ⟨0, 1⟩] fun first second =>
      (graph.expandAll pulledDisk 0 true).graph.Needs ⟨0, first⟩ ⟨0, second⟩ := by
  have hload : (Graph.empty.run (Build.load pulledDisk ⟨"/main.js"⟩)).result = .ok 0 := by
    decide +kernel
  have hresult : ((Graph.empty.run (Build.load pulledDisk ⟨"/main.js"⟩)).graph.expandAll
      pulledDisk 0 true).result = .ok [⟨0, 0⟩, ⟨0, 2⟩, ⟨0, 1⟩] := by
    decide +kernel
  refine ⟨_, .loaded .start hload, hresult, fun hkeeps => ?_⟩
  have hmodule : (((Graph.empty.run (Build.load pulledDisk ⟨"/main.js"⟩)).graph.expandAll
      pulledDisk 0 true).graph.module? 0).any (fun module =>
        (module.statement? 1).any fun statement => statement.dependsOn.all fun name =>
          (module.imports.get? name).isNone && module.ownNeed 0 name == .nothing) = true := by
    decide +kernel
  obtain ⟨module, hmodule, hstatement⟩ := (Option.any_eq_true _ _).mp hmodule
  obtain ⟨statement, hstatement, hglobals⟩ := (Option.any_eq_true _ _).mp hstatement
  have hneeds := not_needs_of_globals ⟨0, 2⟩ hmodule hstatement (by simpa using hglobals)
    (by decide)
  exact absurd (hkeeps 1 2 (by decide) (by decide) (by decide) hneeds) (by decide)

end Graph

end ScriptBundler
