import ScriptBundler.Proofs.Graph.Demand

/-!
# Looking up names

Looking up a name of a module follows its import, if it is imported, and comes to what the name
needs.  That is quiet, and the need is the one demand that the name calls for.
-/

namespace ScriptBundler

open Files ScriptBundler.Module Script

/-- The demand that a need is. -/
def Need.demand : Need → Option Demand
  | .nothing => none
  | .statement address => some (.statement address)
  | .name id exported => some (.name id exported)
  | .everything id => some (.everything id false)

namespace Graph

/-- Whether a need is all that a name of a module calls for, and its import has been followed. -/
structure Meets (graph : Graph) (id : Nat) (name : String) (needed : Need) : Prop where
  calls : ∀ called, graph.Calls (.name id name) called ↔ needed.demand = some called
  followed : ∀ module entry, graph.module? id = some module →
    module.imports.get? name = some entry → graph.Followed module entry

variable {graph : Graph} {id : Nat} {module : Module} {name : String}

/-- A name of the module itself calls for what stands behind it. -/
theorem calls_own (hmodule : graph.module? id = some module)
    (hown : module.imports.get? name = none) {called : Demand} :
    graph.Calls (.name id name) called ↔ (module.ownNeed id name).demand = some called := by
  have hsame : ∀ found, graph.module? id = some found → found = module := fun found h =>
    Option.some.inj (h.symm.trans hmodule)
  constructor
  · intro hcalls
    cases hcalls with
    | wholeImport hfound hentry | namedImport hfound hentry =>
        obtain rfl := hsame _ hfound
        rw [hown] at hentry
        contradiction
    | declaredDefault hfound _ hentry hdeclared =>
        obtain rfl := hsame _ hfound
        simp [ownNeed, hentry, hdeclared, Need.demand]
    | defaultStatement hfound _ hentry hdeclared hindex =>
        obtain rfl := hsame _ hfound
        simp [ownNeed, hentry, hdeclared, hindex, Need.demand]
    | definition hfound _ hname hindex =>
        obtain rfl := hsame _ hfound
        simp [ownNeed, hname, hindex, Need.demand]
  · intro hdemand
    unfold ownNeed at hdemand
    by_cases hname : name = "default"
    · subst hname
      rw [if_pos (beq_self_eq_true _)] at hdemand
      cases hentry : module.exports.get? "default" with
      | none => simp [hentry, Need.demand] at hdemand
      | some entry =>
          cases hdeclared : entry.isDeclaration with
          | true =>
              simp only [hentry, hdeclared, if_true, Need.demand, Option.some.injEq] at hdemand
              subst hdemand
              exact .declaredDefault hmodule hown hentry hdeclared
          | false =>
              cases hindex : entry.statement with
              | none => simp [hentry, hdeclared, hindex, Need.demand] at hdemand
              | some index =>
                  simp only [hentry, hdeclared, hindex, Bool.false_eq_true, if_false, Need.demand,
                    Option.some.injEq] at hdemand
                  subst hdemand
                  exact .defaultStatement hmodule hown hentry hdeclared hindex
    · rw [if_neg (by simp [hname])] at hdemand
      cases hindex : module.definitions.get? name with
      | none => simp [hindex, Need.demand] at hdemand
      | some index =>
          simp only [hindex, Need.demand, Option.some.injEq] at hdemand
          subst hdemand
          exact .definition hmodule hown hname hindex

/-- An imported name calls for something in the module that it comes from. -/
theorem calls_imported (hmodule : graph.module? id = some module) {entry : Import}
    (hentry : module.imports.get? name = some entry) {called : Demand}
    (hcalls : graph.Calls (.name id name) called) :
    ∃ target, graph.leadsTo module entry = some target ∧
      (entry.name = "*" ∧ called = .everything target false ∨
        entry.name ≠ "*" ∧ ∃ exporter exported, graph.module? target = some exporter ∧
          exporter.exports.get? entry.name = some exported ∧
          called = .name target exported.localName) := by
  have hsame : ∀ found, graph.module? id = some found → found = module := fun found h =>
    Option.some.inj (h.symm.trans hmodule)
  cases hcalls with
  | wholeImport hfound hother hwhole htarget =>
      obtain rfl := hsame _ hfound
      obtain rfl := Option.some.inj (hentry.symm.trans hother)
      exact ⟨_, htarget, Or.inl ⟨hwhole, rfl⟩⟩
  | namedImport hfound hother hnamed htarget hexporter hexported =>
      obtain rfl := hsame _ hfound
      obtain rfl := Option.some.inj (hentry.symm.trans hother)
      exact ⟨_, htarget, Or.inr ⟨hnamed, _, _, hexporter, hexported, rfl⟩⟩
  | declaredDefault hfound hown | defaultStatement hfound hown | definition hfound hown =>
      obtain rfl := hsame _ hfound
      rw [hentry] at hown
      contradiction

/-- What an imported name calls for is what its source exports, once that is there. -/
theorem meets_imported (hmodule : graph.module? id = some module) {entry : Import}
    (hentry : module.imports.get? name = some entry) {needed : Need}
    (hneeded : match resolveFrom (directoryOf module.path) entry.source with
      | .external => needed = .nothing
      | .file path => ∃ target exporter, graph.idOf? path = some target ∧
          graph.module? target = some exporter ∧
          (entry.name = "*" ∧ needed = .everything target ∨
            entry.name ≠ "*" ∧ ∃ exported, exporter.exports.get? entry.name = some exported ∧
              needed = .name target exported.localName)) :
    graph.Meets id name needed := by
  cases hresolve : resolveFrom (directoryOf module.path) entry.source with
  | external =>
      rw [hresolve] at hneeded
      subst hneeded
      refine ⟨fun called => ⟨fun hcalls => ?_, fun hdemand => by contradiction⟩, ?_⟩
      · obtain ⟨target, htarget, -⟩ := calls_imported hmodule hentry hcalls
        simp [leadsTo, hresolve] at htarget
      · intro found other hfound hother path hpath
        obtain rfl := Option.some.inj (hmodule.symm.trans hfound)
        obtain rfl := Option.some.inj (hentry.symm.trans hother)
        rw [hresolve] at hpath
        contradiction
  | file path =>
      rw [hresolve] at hneeded
      obtain ⟨target, exporter, hid, hexporter, hneeded⟩ := hneeded
      have htarget : graph.leadsTo module entry = some target := by
        simp [leadsTo, hresolve, hid]
      refine ⟨fun called => ⟨fun hcalls => ?_, fun hdemand => ?_⟩, ?_⟩
      -- the source is one module, and it exports a name at most once
      · obtain ⟨target', htarget', hcalled⟩ := calls_imported hmodule hentry hcalls
        obtain rfl := Option.some.inj (htarget.symm.trans htarget')
        rcases hcalled with
          ⟨hwhole, rfl⟩ | ⟨hnamed, exporter', exported', hexporter', hexported', rfl⟩
        · rcases hneeded with ⟨-, rfl⟩ | ⟨hnamed, -⟩
          · rfl
          · exact absurd hwhole hnamed
        · obtain rfl := Option.some.inj (hexporter.symm.trans hexporter')
          rcases hneeded with ⟨hwhole, -⟩ | ⟨-, exported, hexported, rfl⟩
          · exact absurd hwhole hnamed
          · obtain rfl := Option.some.inj (hexported.symm.trans hexported')
            rfl
      · rcases hneeded with ⟨hwhole, rfl⟩ | ⟨hnamed, exported, hexported, rfl⟩
        · obtain rfl := Option.some.inj hdemand
          exact .wholeImport hmodule hentry hwhole htarget
        · obtain rfl := Option.some.inj hdemand
          exact .namedImport hmodule hentry hnamed htarget hexporter hexported
      · intro found other hfound hother path' hpath'
        obtain rfl := Option.some.inj (hmodule.symm.trans hfound)
        obtain rfl := Option.some.inj (hentry.symm.trans hother)
        obtain rfl := Resolution.file.inj (hresolve.symm.trans hpath')
        refine ⟨target, exporter, hid, hexporter, fun hnamed => ?_⟩
        rcases hneeded with ⟨hwhole, -⟩ | ⟨-, exported, hexported, -⟩
        · exact absurd hwhole hnamed
        · exact ⟨exported, hexported⟩

end Graph

namespace Module

theorem ownNeed_of_asRead {module other : Module} (hrest : other.asRead = module.asRead) :
    other.ownNeed = module.ownNeed := by
  unfold ownNeed
  rw [exports_eq_of_asRead hrest, definitions_eq_of_asRead hrest]

end Module

namespace Build

/-- What an import needs, once the graph knows where it leads. -/
def targetNeed (importer : Module) (entry : Import) : Target → Build Need
  | .external external => do
    change (·.updateExternal external (·.request entry.name))
    pure .nothing
  | .internal exporterId => do
    match (← get).graph.module? exporterId with
    | none => pure .nothing
    | some exporter =>
      if entry.isNamespace then
        report [⟨.debug, .expansion,
          s!"{exporter.path.text} is imported as a namespace by {importer.path.text}"⟩]
        change (·.addNamespace exporterId)
        pure (.everything exporterId)
      else
        match exporter.exports.get? entry.name with
        | some exported => pure (.name exporterId exported.localName)
        | none => throw (.missingExport exporter.path entry.name importer.path)

/-- Suggesting a name is quiet. -/
theorem quiet_suggest (graph : Graph) (target : Target) (exported suggestion : String) :
    graph.Quiet (graph.suggest target exported suggestion) := by
  cases target with
  | internal id =>
      exact Graph.quiet_updateModule graph id (fun module => asRead_suggest module _ _)
        (fun _ => rfl) (fun _ => rfl)
  | external id => exact .of_modules_eq rfl rfl fun h => h.resolver

end Build

namespace Graph

variable {graph : Graph} {id : Nat} {importer : Module} {name : String} {entry : Import}
  {target : Target}

/-- What following an import to a target changes: where it leads is noted, and names are suggested
there. -/
def follow (graph : Graph) (id : Nat) (importer : Module) (localName : String) (entry : Import)
    (target : Target) : Graph :=
  let suggestion := (importer.suggestedNames.get? localName).getD localName
  let linked := graph.updateModule id (·.link localName target)
  let named := if entry.isDefault then linked.suggest target "default" suggestion else linked
  if entry.isNamespace then
    (named.suggest target "*" suggestion).suggest target "default" (suggestion ++ "__default")
  else named

/-- What holds of a graph with the target noted, and is kept by suggestions, holds afterwards. -/
theorem follow_ind (holds : Graph → Prop)
    (hlink : holds (graph.updateModule id (·.link name target)))
    (hsuggest : ∀ graph exported suggestion,
      holds graph → holds (graph.suggest target exported suggestion)) :
    holds (graph.follow id importer name entry target) := by
  unfold follow
  dsimp only
  split <;> split
  · exact hsuggest _ _ _ (hsuggest _ _ _ (hsuggest _ _ _ hlink))
  · exact hsuggest _ _ _ (hsuggest _ _ _ hlink)
  · exact hsuggest _ _ _ hlink
  · exact hlink

theorem quiet_follow (graph : Graph) (id : Nat) (importer : Module) (name : String)
    (entry : Import) (target : Target) :
    graph.Quiet (graph.follow id importer name entry target) := by
  refine follow_ind graph.Quiet ?_ fun middle exported suggestion h =>
    h.trans (Build.quiet_suggest middle target exported suggestion)
  exact quiet_updateModule _ _ (fun module => asRead_link module _ _)
    (fun module => link_statements module _ _) (fun module => link_requested module _ _)

end Graph

namespace Build

variable {disk : Disk} {before after : Progress} {id : Nat} {importer : Module} {name : String}
  {entry : Import} {needed : Need}

/-- What an imported name needs is found by fetching its source, following the import to what it
leads to, and asking that for what is imported. -/
theorem importNeed_eq (disk : Disk) (id : Nat) (importer : Module) (name : String)
    (entry : Import) : importNeed disk id importer name entry = (do
      let target ← fetch disk entry.source importer.path
      change (·.follow id importer name entry target)
      targetNeed importer entry target) := by
  unfold importNeed
  refine congrArg (fetch disk entry.source importer.path >>= ·) (funext fun target => ?_)
  unfold Graph.follow targetNeed
  -- which names are suggested depends on the import
  cases entry.isDefault <;> cases entry.isNamespace <;> cases target <;> rfl

/-- Following an import fetches what it leads to and notes it, and gets to what it needs. -/
theorem importNeed_ok
    (hrun : (importNeed disk id importer name entry).run before = .ok needed after) :
    ∃ target fetched linked, (fetch disk entry.source importer.path).run before =
        .ok target fetched ∧ fetched.graph.Quiet linked.graph ∧
      (targetNeed importer entry target).run linked = .ok needed after := by
  rw [importNeed_eq] at hrun
  obtain ⟨target, fetched, hfetch, hrun⟩ := run_bind_eq_ok hrun
  rw [run_change_bind] at hrun
  exact ⟨target, fetched, _, hfetch, fetched.graph.quiet_follow id importer name entry target, hrun⟩

/-- An import that leads outside the project needs nothing. -/
theorem targetNeed_external_ok {external : Nat}
    (hrun : (targetNeed importer entry (.external external)).run before = .ok needed after) :
    before.graph.Quiet after.graph ∧ needed = .nothing := by
  rw [targetNeed, run_change_bind, run_pure] at hrun
  obtain ⟨rfl, rfl⟩ := EStateM.Result.ok.inj hrun
  exact ⟨.of_modules_eq rfl rfl fun h => h.resolver, rfl⟩

/-- An import of a module needs everything in it, or what it exports under the name. -/
theorem targetNeed_internal_ok {exporterId : Nat} {exporter : Module}
    (hexporter : before.graph.module? exporterId = some exporter)
    (hrun : (targetNeed importer entry (.internal exporterId)).run before = .ok needed after) :
    before.graph.Quiet after.graph ∧
      (entry.name = "*" ∧ needed = .everything exporterId ∨
        entry.name ≠ "*" ∧ ∃ exported, exporter.exports.get? entry.name = some exported ∧
          needed = .name exporterId exported.localName) := by
  rw [targetNeed, run_get_bind] at hrun
  simp only [hexporter, Import.isNamespace, beq_iff_eq] at hrun
  by_cases hwhole : entry.name = "*"
  · rw [if_pos hwhole, run_report_bind, run_change_bind, run_pure] at hrun
    obtain ⟨rfl, rfl⟩ := EStateM.Result.ok.inj hrun
    refine ⟨.of_modules_eq ?_ ?_ fun h => ?_, Or.inl ⟨hwhole, rfl⟩⟩
    · dsimp only [Graph.addNamespace]
      split <;> rfl
    · dsimp only [Graph.addNamespace]
      split <;> rfl
    · dsimp only [Graph.addNamespace]
      split <;> exact h.resolver
  · rw [if_neg hwhole] at hrun
    cases hexported : exporter.exports.get? entry.name with
    | none =>
        rw [hexported] at hrun
        contradiction
    | some exported =>
        rw [hexported, run_pure] at hrun
        obtain ⟨rfl, rfl⟩ := EStateM.Result.ok.inj hrun
        exact ⟨.refl _, Or.inr ⟨hwhole, exported, rfl, rfl⟩⟩

/-- Looking up a name that is not imported changes nothing but the log. -/
theorem need_own_ok {module : Module} (hown : module.imports.get? name = none)
    (hrun : (need disk id module name).run before = .ok needed after) :
    after.graph = before.graph ∧ needed = module.ownNeed id name := by
  simp only [need, hown] at hrun
  cases hneed : module.ownNeed id name with
  | nothing =>
      simp only [hneed, run_report_bind, run_pure] at hrun
      obtain ⟨rfl, rfl⟩ := EStateM.Result.ok.inj hrun
      exact ⟨rfl, rfl⟩
  | _ =>
      simp only [hneed, run_pure] at hrun
      obtain ⟨rfl, rfl⟩ := EStateM.Result.ok.inj hrun
      exact ⟨rfl, rfl⟩

/-- Looking up a name of a module is quiet, and finds what the name calls for. -/
theorem need_ok {module later : Module} (hwf : before.graph.WellFormed)
    (hmodule : before.graph.module? id = some later) (hrest : later.asRead = module.asRead)
    (hrun : (need disk id module name).run before = .ok needed after) :
    before.graph.Quiet after.graph ∧ after.graph.Meets id name needed := by
  cases hentry : module.imports.get? name with
  | none =>
      obtain ⟨hgraph, rfl⟩ := need_own_ok hentry hrun
      have hown := get?_imports_eq_none_of_asRead hrest hentry
      rw [hgraph]
      refine ⟨.refl _, fun called => ?_, fun found entry hfound hother => ?_⟩
      · rw [Graph.calls_own hmodule hown, ownNeed_of_asRead hrest]
      · obtain rfl := Option.some.inj (hmodule.symm.trans hfound)
        rw [hown] at hother
        contradiction
  | some entry =>
      simp only [need, hentry] at hrun
      obtain ⟨target, fetched, linked, hfetch, hquiet, htarget⟩ := importNeed_ok hrun
      obtain ⟨hfetched, hleads⟩ := fetch_ok hwf hfetch
      have hlinked := hfetched.trans hquiet
      rw [← path_eq_of_asRead hrest] at hleads
      -- the importer has grown by the time when its import has been followed
      have hlater : ∀ graph : Graph, before.graph.Extends graph → ∃ found other,
          graph.module? id = some found ∧ found.path = later.path ∧
            found.imports.get? name = some other ∧ other.source = entry.source ∧
            other.name = entry.name := by
        intro graph hextends
        obtain ⟨found, hfound, hgrows⟩ := hextends.module id later hmodule
        obtain ⟨other, hother, hsource, hname⟩ :=
          get?_imports_eq_some_of_asRead (hgrows.asRead.trans hrest) hentry
        exact ⟨found, other, hfound, path_eq_of_asRead hgrows.asRead, hother, hsource, hname⟩
      cases hresolve : resolveFrom (directoryOf later.path) entry.source with
      | external =>
          rw [hresolve] at hleads
          obtain ⟨external, rfl⟩ := hleads
          obtain ⟨hlast, rfl⟩ := targetNeed_external_ok htarget
          have hall := hlinked.trans hlast
          obtain ⟨found, other, hfound, hpath, hother, hsource, -⟩ := hlater _ hall.toExtends
          refine ⟨hall, Graph.meets_imported hfound hother ?_⟩
          rw [hpath, hsource, hresolve]
      | file path =>
          rw [hresolve] at hleads
          obtain ⟨exporterId, rfl, hid⟩ := hleads
          have hid' := hquiet.toExtends.idOf? hid
          obtain ⟨exporter, hexporter, -⟩ := (hlinked.wellFormed hwf).ofPath _ _ hid'
          obtain ⟨hlast, hneeded⟩ := targetNeed_internal_ok hexporter htarget
          have hall := hlinked.trans hlast
          obtain ⟨found, other, hfound, hpath, hother, hsource, hname⟩ := hlater _ hall.toExtends
          obtain ⟨exporter', hexporter', hgrows⟩ := hlast.toExtends.module _ exporter hexporter
          refine ⟨hall, Graph.meets_imported hfound hother ?_⟩
          rw [hpath, hsource, hresolve, hname]
          refine ⟨exporterId, exporter', hlast.toExtends.idOf? hid', hexporter', ?_⟩
          rw [exports_eq_of_asRead hgrows.asRead]
          exact hneeded

end Build

end ScriptBundler
