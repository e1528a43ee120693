import ScriptBundler.Proofs.Graph.Links

/-!
# Followed imports

An import is followed when its name is asked for: its source is fetched, where it leads is noted,
and its target gets to know of it.  Expansion asks for a name once, so that it follows an import
once.  Every graph that it leaves behind is linked, also after a fault; and unless there was a
fault, no import of a name that has been asked for is left without a target.
-/

namespace ScriptBundler

open Files ScriptBundler.Module Script

/-- What a module tells about its imports. -/
def Module.ties (module : Module) : Path × Table Import × List String :=
  (module.path, module.imports, module.requested)

namespace Graph

variable {graph before middle after : Graph} {id : Nat} {importer module : Module} {name : String}
  {entry : Import} {target : Target}

theorem module?_of_ties (hties : after.modules.map Module.ties = before.modules.map Module.ties)
    (hmodule : before.module? id = some module) :
    ∃ later, after.module? id = some later ∧ later.path = module.path ∧
      later.imports = module.imports ∧ later.requested = module.requested := by
  have hget := congrArg (·[id]?) hties
  simp only [List.getElem?_map] at hget
  rw [show before.modules[id]? = some module from hmodule, Option.map_some] at hget
  obtain ⟨later, hlater, heq⟩ := Option.map_eq_some_iff.mp hget
  obtain ⟨hpath, hrest⟩ := Prod.mk.inj heq
  obtain ⟨himports, hrequested⟩ := Prod.mk.inj hrest
  exact ⟨later, hlater, hpath, himports, hrequested⟩

theorem ties_suggest (graph : Graph) (target : Target) (exported suggestion : String) :
    (graph.suggest target exported suggestion).modules.map Module.ties =
      graph.modules.map Module.ties := by
  cases target with
  | external id => rfl
  | internal id =>
      refine List.ext_getElem? fun position => ?_
      have hget := module?_updateModule graph id position (·.suggest exported suggestion)
      unfold module? at hget
      rw [List.getElem?_map, List.getElem?_map, Graph.suggest, hget]
      split
      · rw [Option.map_map]
        rfl
      · rfl

theorem ties_follow (graph : Graph) (id : Nat) (importer : Module) (name : String)
    (entry : Import) (target : Target) :
    (graph.follow id importer name entry target).modules.map Module.ties =
      (graph.updateModule id (·.link name target)).modules.map Module.ties :=
  follow_ind (fun later => later.modules.map Module.ties = _) rfl
    fun middle exported suggestion h => (ties_suggest middle target exported suggestion).trans h

theorem widens_suggest (graph : Graph) (target : Target) (exported suggestion : String) :
    graph.Widens (graph.suggest target exported suggestion) := by
  cases target with
  | internal id =>
      exact .of_extends (Build.quiet_suggest graph (.internal id) exported suggestion).toExtends
        rfl rfl rfl
  | external id =>
      exact .updateExternal graph id fun _ _ h => h.suggest exported suggestion

theorem widens_follow (graph : Graph) (id : Nat) (importer : Module) (name : String)
    (entry : Import) (target : Target) :
    graph.Widens (graph.follow id importer name entry target) := by
  refine follow_ind graph.Widens ?_ fun middle exported suggestion h =>
    h.trans (widens_suggest middle target exported suggestion)
  have hquiet := quiet_updateModule graph id (fun module => asRead_link module name target)
    (fun module => link_statements module _ _) (fun module => link_requested module _ _)
  exact .of_extends hquiet.toExtends rfl rfl rfl

theorem namespaces_follow (graph : Graph) (id : Nat) (importer : Module) (name : String)
    (entry : Import) (target : Target) :
    (graph.follow id importer name entry target).namespaces = graph.namespaces :=
  follow_ind (fun later => later.namespaces = _) rfl fun middle _ _ h => by
    cases target <;> exact h

theorem get?_link (module : Module) (name other : String) (target : Target) :
    (module.link name target).imports.get? other =
      (module.imports.get? other).map fun entry =>
        if name = other then { entry with target := some target } else entry := by
  unfold Module.link
  cases hentry : module.imports.get? name with
  | none =>
      by_cases hname : name = other
      · subst hname
        simp [hentry]
      · simp [hname]
  | some entry =>
      refine (Table.get?_set _ _ _ _).trans ?_
      by_cases hname : name = other
      · subst hname
        simp [hentry]
      · simp [hname]

/-- The modules of a graph in which an import has been followed. -/
theorem module?_of_link (hties : after.modules.map Module.ties =
      (before.updateModule id (·.link name target)).modules.map Module.ties) {other : Nat}
    (hmodule : before.module? other = some module) :
    ∃ later, after.module? other = some later ∧ later.path = module.path ∧
      later.requested = module.requested ∧
      ∀ asked, later.imports.get? asked = (module.imports.get? asked).map fun entry =>
        if id = other ∧ name = asked then { entry with target := some target } else entry := by
  have hlinked := module?_updateModule before id other (·.link name target)
  rw [hmodule] at hlinked
  by_cases hid : id = other
  · rw [if_pos hid] at hlinked
    obtain ⟨later, hlater, hpath, himports, hrequested⟩ := module?_of_ties hties hlinked
    refine ⟨later, hlater, hpath.trans (path_eq_of_asRead (asRead_link module name target)),
      hrequested.trans (link_requested module name target), fun asked => ?_⟩
    simp only [himports, get?_link, hid, true_and]
  · rw [if_neg hid] at hlinked
    obtain ⟨later, hlater, hpath, himports, hrequested⟩ := module?_of_ties hties hlinked
    refine ⟨later, hlater, hpath, hrequested, fun asked => ?_⟩
    simp [himports, hid]

/-- Following an import adds no modules. -/
theorem module?_back_of_link (hties : after.modules.map Module.ties =
      (before.updateModule id (·.link name target)).modules.map Module.ties) {other : Nat}
    {later : Module} (hlater : after.module? other = some later) :
    ∃ module, before.module? other = some module ∧ later.path = module.path ∧
      later.requested = module.requested ∧
      ∀ asked, later.imports.get? asked = (module.imports.get? asked).map fun entry =>
        if id = other ∧ name = asked then { entry with target := some target } else entry := by
  obtain ⟨linked, hlinked, -⟩ := module?_of_ties hties.symm hlater
  obtain ⟨module, hmodule⟩ : ∃ module, before.module? other = some module := by
    rcases module?_updateModule_cases hlinked with hold | ⟨-, module, hmodule, -⟩
    · exact ⟨linked, hold⟩
    · exact ⟨module, hmodule⟩
  obtain ⟨found, hfound, hrest⟩ := module?_of_link hties hmodule
  obtain rfl := Option.some.inj (hlater.symm.trans hfound)
  exact ⟨module, hmodule, hrest⟩

/-- All imports of names that have been asked for have been followed. -/
structure Traced (graph : Graph) : Prop extends Linked graph where
  traced : ∀ id module name entry, graph.module? id = some module → name ∈ module.requested →
    module.imports.get? name = some entry → ∃ target, entry.target = some target

/-- All imports of names that have been asked for have been followed, but for one name. -/
def TracedBut (graph : Graph) (place : Nat × String) : Prop :=
  ∀ id module name entry, graph.module? id = some module → name ∈ module.requested →
    (id, name) ≠ place → module.imports.get? name = some entry →
    ∃ target, entry.target = some target

theorem TracedBut.of_reads {place : Nat × String} (hreads : before.Reads after)
    (hbut : before.TracedBut place) : after.TracedBut place := by
  intro id module name entry hmodule hname hplace hentry
  rcases hreads.module?_back hmodule with hold | hfresh
  · exact hbut id module name entry hold hname hplace hentry
  · rw [hfresh] at hname
    contradiction

/-- A name has been asked for that was not before. -/
theorem Traced.request (htraced : graph.Traced) (id : Nat) (name : String) :
    (graph.updateModule id (·.request name)).Linked ∧
      (graph.updateModule id (·.request name)).TracedBut (id, name) := by
  refine ⟨htraced.updateModule id (fun module => module.grows_request name) fun _ => rfl, ?_⟩
  intro other later asked entry hlater hasked hplace hentry
  rcases module?_updateModule_cases hlater with hold | ⟨rfl, module, hmodule, rfl⟩
  · exact htraced.traced other later asked entry hold hasked hentry
  · rcases List.mem_append.mp hasked with hold | hnew
    · exact htraced.traced id module asked entry hmodule hold hentry
    · exact absurd (by rw [List.mem_singleton.mp hnew]) hplace

theorem Traced.includeStatement (htraced : graph.Traced) (address : Address) :
    (graph.updateModule address.module (·.includeStatement address.index)).Traced := by
  refine ⟨htraced.updateModule address.module
    (fun module => module.grows_includeStatement address.index) fun _ => rfl, ?_⟩
  intro id later name entry hlater hname hentry
  rcases module?_updateModule_cases hlater with hold | ⟨rfl, module, hmodule, rfl⟩
  · exact htraced.traced id later name entry hold hname hentry
  · exact htraced.traced _ module name entry hmodule hname hentry

/-- Nothing is to be followed for a name that is not imported. -/
theorem TracedBut.traced_of_own (hlinked : graph.Linked) (hbut : graph.TracedBut (id, name))
    (hmodule : graph.module? id = some module) (hown : module.imports.get? name = none) :
    graph.Traced := by
  refine ⟨hlinked, fun other found asked entry hfound hasked hentry => ?_⟩
  by_cases hplace : (other, asked) = (id, name)
  · obtain ⟨rfl, rfl⟩ := Prod.mk.inj hplace
    obtain rfl := Option.some.inj (hmodule.symm.trans hfound)
    rw [hown] at hentry
    contradiction
  · exact hbut other found asked entry hfound hasked hplace hentry

/-- A later graph in which one import has been followed, and in which the modules tell nothing else
about their imports than before. -/
structure Follows (before after : Graph) (id : Nat) (name : String) (target : Target) : Prop where
  widens : before.Widens after
  wellFormed : after.WellFormed
  ties : after.modules.map Module.ties =
    (before.updateModule id (·.link name target)).modules.map Module.ties

theorem follows_follow (hwf : graph.WellFormed) (id : Nat) (importer : Module) (name : String)
    (entry : Import) (target : Target) :
    graph.Follows (graph.follow id importer name entry target) id name target where
  widens := graph.widens_follow id importer name entry target
  wellFormed := (graph.quiet_follow id importer name entry target).wellFormed hwf
  ties := graph.ties_follow id importer name entry target

theorem Follows.requestExternal (hfollows : before.Follows after id name target) (external : Nat)
    (exported : String) :
    before.Follows (after.updateExternal external (·.request exported)) id name target where
  widens := hfollows.widens.trans (.updateExternal after external
    fun _ _ hprovides => hprovides.request exported)
  wellFormed :=
    ⟨hfollows.wellFormed.module, hfollows.wellFormed.ofPath, hfollows.wellFormed.resolver⟩
  ties := hfollows.ties

theorem Follows.addNamespace (hfollows : before.Follows after id name target) (exporter : Nat) :
    before.Follows (after.addNamespace exporter) id name target where
  widens := hfollows.widens.trans (.addNamespace after exporter)
  wellFormed := (after.quiet_addNamespace exporter).wellFormed hfollows.wellFormed
  ties := by rw [after.modules_addNamespace, hfollows.ties]

/-- A graph in which one import has been asked for, and is yet to be followed. -/
structure Awaits (graph : Graph) (id : Nat) (module : Module) (name : String) (entry : Import) :
    Prop where
  linked : graph.Linked
  but : graph.TracedBut (id, name)
  importer : graph.module? id = some module
  requested : name ∈ module.requested
  imported : module.imports.get? name = some entry
  untouched : entry.target = none

namespace Awaits

theorem of_reads (hawaits : before.Awaits id module name entry) (hlinked : after.Linked)
    (hreads : before.Reads after) : after.Awaits id module name entry :=
  { hawaits with
    linked := hlinked
    but := hawaits.but.of_reads hreads
    importer := hreads.module? hawaits.importer }

variable (hawaits : before.Awaits id module name entry)
  (hfollows : before.Follows after id name target)

include hawaits hfollows

/-- The one import leads to what it has been followed to, and the others to where they led. -/
theorem links_cases (hlinks : after.Links module entry target) {other : Nat} {later : Module}
    (hlater : after.module? other = some later) :
    ∃ earlier, before.module? other = some earlier ∧ ∀ asked found leads,
      later.imports.get? asked = some found → found.target = some leads →
        earlier.imports.get? asked = some found ∨
          asked ∈ later.requested ∧ after.Links later found leads := by
  obtain ⟨earlier, hearlier, hpath, hrequested, himports⟩ :=
    module?_back_of_link hfollows.ties hlater
  refine ⟨earlier, hearlier, fun asked found leads hfound hleads => ?_⟩
  rw [himports] at hfound
  obtain ⟨old, hold, rfl⟩ := Option.map_eq_some_iff.mp hfound
  by_cases hplace : id = other ∧ name = asked
  · rw [if_pos hplace] at hleads
    obtain ⟨rfl, rfl⟩ := hplace
    obtain rfl := Option.some.inj (hawaits.importer.symm.trans hearlier)
    obtain rfl := Option.some.inj (hawaits.imported.symm.trans hold)
    obtain rfl := Option.some.inj hleads
    refine Or.inr ⟨hrequested ▸ hawaits.requested, ?_⟩
    rw [if_pos ⟨rfl, rfl⟩]
    cases target <;> simpa only [Links, hpath] using hlinks
  · rw [if_neg hplace]
    exact Or.inl hold

/-- Imports of whole modules still lead to them. -/
theorem exists_wholeImport (hnamespaces : ∀ other ∈ after.namespaces,
      other ∈ before.namespaces ∨ entry.name = "*" ∧ target = .internal other) {other : Nat}
    (hother : other ∈ after.namespaces) :
    ∃ importer later asked found, after.module? importer = some later ∧
      later.imports.get? asked = some found ∧ found.name = "*" ∧
      found.target = some (.internal other) := by
  rcases hnamespaces other hother with hold | ⟨hwhole, rfl⟩
  · obtain ⟨importer, earlier, asked, old, hearlier, hasked, hwhole, hleads⟩ :=
      hawaits.linked.namespaces other hold
    obtain ⟨later, hlater, -, -, himports⟩ := module?_of_link hfollows.ties hearlier
    refine ⟨importer, later, asked, old, hlater, ?_, hwhole, hleads⟩
    rw [himports, hasked, Option.map_some, if_neg]
    -- the import that has been followed led nowhere before
    rintro ⟨rfl, rfl⟩
    obtain rfl := Option.some.inj (hawaits.importer.symm.trans hearlier)
    obtain rfl := Option.some.inj (hawaits.imported.symm.trans hasked)
    rw [hawaits.untouched] at hleads
    contradiction
  · obtain ⟨later, hlater, -, -, himports⟩ := module?_of_link hfollows.ties hawaits.importer
    refine ⟨id, later, name, { entry with target := some (.internal other) }, hlater, ?_,
      hwhole, rfl⟩
    rw [himports, hawaits.imported, Option.map_some, if_pos ⟨rfl, rfl⟩]

/-- Following the one import that has not been followed, and noting there what has come of it. -/
theorem traced (hlinks : after.Links module entry target)
    (hnamespaces : ∀ other ∈ after.namespaces,
      other ∈ before.namespaces ∨ entry.name = "*" ∧ target = .internal other) :
    after.Traced := by
  have hlinked : after.Linked := hawaits.linked.step hfollows.widens hfollows.wellFormed
    (fun _ _ hlater => Or.inr (hawaits.links_cases hfollows hlinks hlater))
    fun _ hother => hawaits.exists_wholeImport hfollows hnamespaces hother
  refine ⟨hlinked, fun other later asked found hlater hasked hfound => ?_⟩
  obtain ⟨earlier, hearlier, -, hrequested, himports⟩ := module?_back_of_link hfollows.ties hlater
  rw [himports] at hfound
  obtain ⟨old, hold, rfl⟩ := Option.map_eq_some_iff.mp hfound
  by_cases hplace : id = other ∧ name = asked
  · rw [if_pos hplace]
    exact ⟨target, rfl⟩
  · rw [if_neg hplace]
    refine hawaits.but other earlier asked old hearlier (hrequested ▸ hasked) (fun heq => ?_) hold
    obtain ⟨rfl, rfl⟩ := Prod.mk.inj heq
    exact hplace ⟨rfl, rfl⟩

end Awaits

end Graph

namespace Build

variable {disk : Disk} {before after : Progress} {id : Nat} {importer module : Module}
  {name : String} {entry : Import} {target : Target}

/-- An external module with a number gets to know what is imported from it. -/
theorem traced_targetNeed_external {external : Nat}
    (hawaits : before.graph.Awaits id module name entry)
    (hnames : before.graph.Names module.path entry.source (.external external)) :
    Leaves Graph.Traced Graph.Traced ((targetNeed importer entry (.external external)).run
      { before with
        graph := before.graph.follow id importer name entry (.external external) }) := by
  have hfollows := Graph.follows_follow hawaits.linked.wellFormed id importer name entry
    (.external external)
  have hnamespaces := before.graph.namespaces_follow id importer name entry (.external external)
  generalize before.graph.follow id importer name entry _ = followed at *
  obtain ⟨hresolve, hid⟩ := hnames
  rw [targetNeed, run_change_bind]
  have hrequests := hfollows.requestExternal external entry.name
  have hnumber := hrequests.widens.externalIdOf _ _ hid
  obtain ⟨found, hfound⟩ := hfollows.widens.registers hawaits.linked.registers _ _
    (hfollows.widens.externalIdOf _ _ hid)
  have hlinks : (followed.updateExternal external (·.request entry.name)).Links module entry
      (.external external) := by
    refine ⟨hresolve, hnumber, found.request entry.name, ?_, found.provides_request_self _⟩
    rw [Graph.external?_updateExternal, if_pos rfl, hfound]
    rfl
  exact leaves_pure _ (hawaits.traced hrequests hlinks fun other hother =>
    Or.inl (hnamespaces ▸ hother))

/-- A module that is imported as a whole is noted as such; else it is asked for an export, which it
need not have. -/
theorem traced_targetNeed_internal {exporterId : Nat}
    (hawaits : before.graph.Awaits id module name entry)
    (hnames : before.graph.Names module.path entry.source (.internal exporterId)) :
    Leaves Graph.Traced Graph.Traced ((targetNeed importer entry (.internal exporterId)).run
      { before with
        graph := before.graph.follow id importer name entry (.internal exporterId) }) := by
  have hfollows := Graph.follows_follow hawaits.linked.wellFormed id importer name entry
    (.internal exporterId)
  have hnamespaces := before.graph.namespaces_follow id importer name entry (.internal exporterId)
  generalize before.graph.follow id importer name entry _ = followed at *
  obtain ⟨path, hresolve, hid⟩ := hnames
  have hfound := hfollows.widens.toExtends.idOf? hid
  obtain ⟨exporter, hexporter, -⟩ := hfollows.wellFormed.ofPath _ _ hfound
  rw [targetNeed, run_get_bind]
  simp only [hexporter, Import.isNamespace, beq_iff_eq]
  by_cases hwhole : entry.name = "*"
  · rw [if_pos hwhole, run_report_bind, run_change_bind]
    have hadds := hfollows.addNamespace exporterId
    have hmem := followed.mem_addNamespace exporterId
    have hlinks : (followed.addNamespace exporterId).Links module entry (.internal exporterId) :=
      ⟨path, hresolve, hadds.widens.toExtends.idOf? hid, fun _ => (hmem _).mpr (Or.inr rfl)⟩
    refine leaves_pure _ (hawaits.traced hadds hlinks fun other hother => ?_)
    exact ((hmem other).mp hother).imp (fun h => hnamespaces ▸ h)
      fun h => ⟨hwhole, congrArg Target.internal h.symm⟩
  · rw [if_neg hwhole]
    have hlinks : followed.Links module entry (.internal exporterId) :=
      ⟨path, hresolve, hfound, fun h => absurd h hwhole⟩
    have htraced := hawaits.traced hfollows hlinks fun other hother => Or.inl (hnamespaces ▸ hother)
    cases exporter.exports.get? entry.name with
    | some exported => exact leaves_pure _ htraced
    | none => exact leaves_throw _ htraced

/-- Fetching the source of an import and following the import keeps the graph traced, whether or not
its target exports the name that is imported. -/
theorem traced_importNeed (hawaits : before.graph.Awaits id module name entry)
    (hsource : importer.path = module.path) :
    Leaves Graph.Traced Graph.Linked ((importNeed disk id importer name entry).run before) := by
  rw [importNeed_eq, hsource]
  have hfetch := linked_fetch disk entry.source module.path hawaits.linked
  cases hrun : (fetch disk entry.source module.path).run before with
  | error fault after =>
      rw [run_bind_of_error hrun]
      rw [hrun] at hfetch
      exact hfetch.1
  | ok target after =>
      rw [run_bind_of_ok hrun, run_change_bind]
      obtain ⟨hfetched, hreads⟩ := hfetch.of_ok hrun
      have hnames := fetch_names hawaits.linked.wellFormed hrun
      have hlater := hawaits.of_reads hfetched hreads
      have hleaves : Leaves Graph.Traced Graph.Traced ((targetNeed importer entry target).run
          { after with graph := after.graph.follow id importer name entry target }) := by
        cases target with
        | external external => exact traced_targetNeed_external hlater hnames
        | internal exporterId => exact traced_targetNeed_internal hlater hnames
      exact hleaves.weaken fun _ htraced => htraced.toLinked

/-- Expansion follows the imports of the names that it asks for. -/
theorem upkeep_traced (disk : Disk) : Upkeep disk Graph.Traced Graph.Linked where
  weaken := fun _ htraced => htraced.toLinked
  mark := fun _ address htraced => htraced.includeStatement address
  look := by
    intro before id module name hmodule hname htraced
    obtain ⟨hlinked, hbut⟩ := htraced.request id name
    have hasked : (before.graph.updateModule id (·.request name)).module? id =
        some (module.request name) := by
      rw [Graph.module?_updateModule, if_pos rfl, hmodule]
      rfl
    unfold need
    cases hentry : module.imports.get? name with
    | none =>
        have htraced' := hbut.traced_of_own hlinked hasked hentry
        dsimp only
        split
        · exact leaves_pure _ htraced'
        · exact leaves_pure _ htraced'
    | some entry =>
        have hawaits : (before.graph.updateModule id (·.request name)).Awaits id
            (module.request name) name entry :=
          { linked := hlinked
            but := hbut
            importer := hasked
            requested := List.mem_append_right _ List.mem_cons_self
            imported := hentry
            untouched := by
              by_contra hsome
              obtain ⟨target, htarget⟩ := Option.ne_none_iff_exists'.mp hsome
              exact hname (htraced.links id module name entry target hmodule hentry htarget).1 }
        exact traced_importNeed hawaits rfl

end Build

namespace Graph

variable {disk : Disk} {requests : List Demand} {graph : Graph}

theorem traced_empty : Graph.empty.Traced := by
  have hmodule : ∀ id module, Graph.empty.module? id ≠ some module := by simp [module?, empty]
  refine ⟨⟨complete_empty.wellFormed, ?_, ?_, ?_, ?_, ?_⟩, ?_⟩
  · simp [Registers, externalIdOf?, empty]
  · exact fun id module h => absurd h (hmodule id module)
  · exact fun id module h => absurd h (hmodule id module)
  · exact fun id module _ _ _ h => absurd h (hmodule id module)
  · exact fun id h => absurd h List.not_mem_nil
  · exact fun id module _ _ h => absurd h (hmodule id module)

/-- Reading modules keeps a graph traced. -/
theorem Traced.of_reads {before after : Graph} (htraced : before.Traced) (hlinked : after.Linked)
    (hreads : before.Reads after) : after.Traced := by
  refine ⟨hlinked, fun id module name entry hmodule hname hentry => ?_⟩
  rcases hreads.module?_back hmodule with hold | hfresh
  · exact htraced.traced id module name entry hold hname hentry
  · rw [hfresh] at hname
    contradiction

/-- A graph that has answered its requests has followed the imports of all names that have been
asked for. -/
theorem History.traced (hhistory : History disk requests graph) : graph.Traced := by
  induction hhistory with
  | start => exact traced_empty
  | loaded _ hresult ih =>
      obtain ⟨after, hrun, hgraph⟩ := run_eq_ok hresult
      obtain ⟨hlinked, hreads⟩ := (Build.linked_load _ ih.toLinked).of_ok hrun
      rw [hgraph]
      exact ih.of_reads hlinked hreads
  | fetched _ hresult ih =>
      obtain ⟨after, hrun, hgraph⟩ := run_eq_ok hresult
      obtain ⟨hlinked, hreads⟩ := (Build.linked_fetch _ _ _ ih.toLinked).of_ok hrun
      rw [hgraph]
      exact ih.of_reads hlinked hreads
  | requested _ hhas hresult ih =>
      obtain ⟨after, hrun, hgraph, -⟩ := request_eq_ok hresult
      rw [hgraph]
      exact ((Build.upkeep_traced disk).satisfy _ _ _ ih).of_ok hrun

end Graph
end ScriptBundler
