import Mathlib.Data.List.Sort
import ScriptBundler.Proofs.Graph.Reached
import ScriptBundler.Proofs.Output.Built

/-!
# Bundles of scripts

A script is a module without import and export declarations.  Its bundle consists of that one
module: nothing else is read, nothing is suggested or renamed, and all of its statements are
included.
-/

namespace ScriptBundler

open Files ScriptBundler.Module Script

/-- Whether a module has neither import nor export declarations. -/
def Module.IsScript (module : Module) : Prop :=
  ∀ statement ∈ module.statements, ∃ body, statement.form = .statement body

instance (form : ItemForm) : Decidable (∃ body, form = .statement body) :=
  match form with
  | .statement body => .isTrue ⟨body, rfl⟩
  | .importDecl _ _ | .exportDecl _ | .exportDefaultFunction _ _ | .exportDefaultClass _ _ _ _
  | .exportDefaultExpr _ | .exportList _ _ | .exportAll _ =>
    .isFalse fun h => h.elim fun _ h => nomatch h

instance (module : Module) : Decidable module.IsScript :=
  inferInstanceAs (Decidable (∀ statement ∈ module.statements, ∃ body,
    statement.form = .statement body))

theorem Module.IsScript.importEntries {module : Module} (hscript : module.IsScript) :
    (module.statements.flatMap fun statement => importEntries statement.form) = [] := by
  refine List.flatMap_eq_nil_iff.mpr fun statement hstatement => ?_
  obtain ⟨body, hbody⟩ := hscript statement hstatement
  rw [hbody]
  rfl

theorem Module.IsScript.exportEntries {module : Module} (hscript : module.IsScript) :
    (module.statements.flatMap fun statement =>
      exportEntries statement.index statement.form) = [] := by
  refine List.flatMap_eq_nil_iff.mpr fun statement hstatement => ?_
  obtain ⟨body, hbody⟩ := hscript statement hstatement
  rw [hbody]
  rfl

/-- A script that has been read imports and exports nothing. -/
theorem Module.IsScript.tables {module : Module} (hscript : module.IsScript) {path : Path}
    {source : List Char} (hsource : Module.ofSource path source = .ok module) :
    module.imports = [] ∧ module.exports = [] ∧ module.suggestedNames = [] := by
  obtain ⟨tree, -, rfl⟩ := ofSource_eq_ofTree hsource
  refine ⟨?_, ?_, rfl⟩
  · rw [ofTree_imports, hscript.importEntries]
    rfl
  · rw [ofTree_exports, hscript.exportEntries]
    rfl

namespace Graph

/-- Whether a graph holds one module and nothing else, and that module has only been marked since it
was read. -/
structure Lone (module : Module) (graph : Graph) : Prop where
  modules : ∃ later, graph.modules = [later] ∧ later.asRead = module.asRead ∧
    later.suggestedNames = []
  externals : graph.externals = []
  namespaces : graph.namespaces = []

variable {disk : Disk} {module : Module} {graph : Graph}

theorem Lone.module? (hlone : graph.Lone module) {id : Nat} {found : Module}
    (hfound : graph.module? id = some found) :
    id = 0 ∧ found.asRead = module.asRead ∧ found.suggestedNames = [] := by
  obtain ⟨later, hmodules, hsame, hsuggested⟩ := hlone.modules
  unfold Graph.module? at hfound
  rw [hmodules] at hfound
  cases id with
  | zero =>
      obtain rfl := Option.some.inj hfound
      exact ⟨rfl, hsame, hsuggested⟩
  | succ id => simp at hfound

theorem Lone.updateModule (hlone : graph.Lone module) (id : Nat) {change : Module → Module}
    (hchange : ∀ found : Module, (change found).asRead = found.asRead ∧
      (change found).suggestedNames = found.suggestedNames) :
    (graph.updateModule id change).Lone module := by
  obtain ⟨⟨later, hmodules, hsame, hsuggested⟩, hexternals, hnamespaces⟩ := hlone
  refine ⟨?_, hexternals, hnamespaces⟩
  unfold Graph.updateModule
  rw [hmodules]
  cases id with
  | zero =>
      obtain ⟨hread, hnames⟩ := hchange later
      exact ⟨change later, rfl, hread.trans hsame, hnames.trans hsuggested⟩
  | succ id => exact ⟨later, by simp, hsame, hsuggested⟩

/-- Expansion only marks what a module that imports nothing has. -/
theorem upkeep_lone (himports : module.imports = []) :
    Build.Upkeep disk (·.Lone module) (·.Lone module) where
  weaken := fun _ h => h
  mark := fun graph address hlone =>
    hlone.updateModule address.module fun found =>
      ⟨asRead_includeStatement found address.index, rfl⟩
  look := by
    intro before id found name hfound _ hlone
    have hown : found.imports.get? name = none :=
      get?_imports_eq_none_of_asRead (hlone.module? hfound).2.1 (by rw [himports]; rfl)
    have hrequested := hlone.updateModule id fun found => ⟨asRead_request found name, rfl⟩
    cases hneed : (Build.need disk id found name).run
        { before with graph := before.graph.updateModule id (·.request name) } with
    | ok needed after =>
        show after.graph.Lone module
        rw [(Build.need_own_ok hown hneed).1]
        exact hrequested
    | error fault after =>
        simp only [Build.need, hown] at hneed
        cases hown : found.ownNeed id name <;>
          simp only [hown, Build.run_report_bind, run_pure] at hneed <;> contradiction

/-- All claims in such a graph are the module's. -/
theorem Lone.owner (hlone : graph.Lone module) (hexports : module.exports = [])
    {statements : List Address} {claim : Claim} (hclaim : claim ∈ graph.claims statements) :
    claim.owner = .module 0 := by
  obtain ⟨name, owner⟩ := claim
  cases owner with
  | module id =>
      obtain ⟨address, -, rfl, statement, hstatement, -⟩ := mem_claims_module.mp hclaim
      obtain ⟨found, hfound, -⟩ := statement?_eq_some_iff.mp hstatement
      rw [(hlone.module? hfound).1]
  | anonymousDefault id =>
      obtain ⟨address, -, -, found, hfound, hdefault, -⟩ := mem_claims_anonymousDefault.mp hclaim
      obtain ⟨-, hsame, -⟩ := hlone.module? hfound
      simp [Module.anonymousDefault?, exports_eq_of_asRead hsame, hexports] at hdefault
  | namespaceObject id =>
      obtain ⟨hid, -⟩ := mem_claims_namespaceObject.mp hclaim
      rw [hlone.namespaces] at hid
      contradiction
  | external id =>
      obtain ⟨external, hexternal, -⟩ := mem_claims_external.mp hclaim
      simp [external?, hlone.externals] at hexternal

end Graph

namespace Conflict

/-- Claims of one owner do not conflict. -/
theorem ofClaims_eq_nil {claims : List Claim} {owner : Owner}
    (howner : ∀ claim ∈ claims, claim.owner = owner) : ofClaims claims = [] := by
  have hresolve : ∀ (table : Table (List Owner)) (taken : List String),
      (∀ entry ∈ table, entry.2.dropLast = []) → resolve table taken = [] := by
    intro table
    induction table with
    | nil => exact fun _ _ => rfl
    | cons entry rest ih =>
        intro taken hsingle
        obtain ⟨hfirst, hrest⟩ := List.forall_mem_cons.mp hsingle
        rw [resolve, hfirst]
        cases entry.2.getLast? <;> exact ih taken hrest
  refine hresolve _ _ fun entry hmem => ?_
  obtain ⟨name, owners⟩ := entry
  obtain rfl := eq_ownersOf_of_mem hmem
  have hnodup := nodup_ownersOf claims name
  have hall : ∀ found ∈ ownersOf claims name, found = owner :=
    fun found hfound => howner _ (mem_ownersOf.mp hfound)
  dsimp only
  generalize ownersOf claims name = owners at hnodup hall
  rcases owners with _ | ⟨first, _ | ⟨second, rest⟩⟩
  · rfl
  · rfl
  · have hsame : first = second :=
      (hall first (by simp)).trans (hall second (by simp)).symm
    simp [hsame] at hnodup

end Conflict

namespace Bundle

variable {disk : Disk} {entry : Path} {bundle : Bundle} {log later : List Log.Entry}
  {source : List Char} {module : Module}

/-- The bundle of a script holds that script and nothing else, and renames nothing. -/
theorem lone_of_build (hbuild : (build disk entry).run log = .ok bundle later)
    (hread : disk.read (entryPathOf disk entry) = .ok source)
    (hsource : Module.ofSource (entryPathOf disk entry) source = .ok module)
    (hscript : module.IsScript) :
    bundle.entry = 0 ∧ bundle.graph.Lone module ∧ bundle.naming = .empty := by
  obtain ⟨himports, hexports, hsuggested⟩ := hscript.tables hsource
  obtain ⟨loaded, expanded, hloaded, hentry, hexpanded, hstatements, hnamed⟩ := build_ok hbuild
  -- reading the entry
  have hstart : bundle.entry = 0 ∧ loaded.Lone module := by
    obtain ⟨after, hrun, hgraph⟩ := Graph.run_eq_ok hentry
    rw [← hloaded, hgraph]
    rcases Build.load_cases hrun with ⟨-, hid⟩ | ⟨found, read, -, hfound, hsource', hid, hafter⟩
    · simp [Graph.idOf?, Graph.empty] at hid
    · obtain rfl := Except.ok.inj (hread.symm.trans hfound)
      obtain rfl := Except.ok.inj (hsource.symm.trans hsource')
      refine ⟨hid, ?_⟩
      rw [hafter]
      exact ⟨⟨module, rfl, rfl, hsuggested⟩, rfl, rfl⟩
  refine ⟨hstart.1, ?_⟩
  -- including its statements
  have hlone : expanded.Lone module := by
    have hrequest : (loaded.request disk (.everything bundle.entry true)).result =
        .ok bundle.statements := hstatements
    obtain ⟨after, hrun, hgraph, -⟩ := Graph.request_eq_ok hrequest
    rw [← hexpanded]
    refine hgraph ▸ (((Graph.upkeep_lone himports).satisfy _ _ _ hstart.2).of_ok hrun)
  -- naming them
  have hclaims := Conflict.ofClaims_eq_nil fun claim
      (hclaim : claim ∈ expanded.claims bundle.statements) => hlone.owner hexports hclaim
  unfold Graph.claims at hclaims
  unfold NamedGraph.deconflict at hnamed
  simp only [hlone.namespaces, Graph.namespaceClaims] at hclaims hnamed
  simp only [hclaims, NamedGraph.settleConflicts, NamedGraph.mk.injEq] at hnamed
  obtain ⟨hgraph, hnaming⟩ := hnamed
  refine ⟨?_, hnaming.symm⟩
  rw [← hgraph]
  exact ⟨hlone.modules, by simp [Graph.withPreferredNames, hlone.externals], hlone.namespaces⟩

/-- Such a graph holds the statements that have been read. -/
theorem statement?_of_lone (hlone : bundle.graph.Lone module)
    (hsource : Module.ofSource (entryPathOf disk entry) source = .ok module)
    {statement : Statement} (hstatement : statement ∈ module.statements) :
    ∃ found, bundle.graph.statement? ⟨0, statement.index⟩ = some found ∧
      found.asRead = statement.asRead := by
  obtain ⟨position, hposition⟩ := List.mem_iff_getElem?.mp hstatement
  have hindex := (ofSource_wellFormed hsource).index position statement hposition
  obtain ⟨later, hmodules, hsame, -⟩ := hlone.modules
  obtain ⟨found, hfound, hread⟩ := Module.statement?_of_asRead hsame hposition
  refine ⟨found, ?_, hread⟩
  rw [hindex]
  exact Graph.statement?_eq_some_iff.mpr ⟨later, by rw [Graph.module?, hmodules]; rfl, hfound⟩

/-- The statements of a module are numbered one by one. -/
theorem ofSource_indices {path : Path} (hsource : Module.ofSource path source = .ok module) :
    module.statements.map (·.index) = List.range module.statements.length := by
  refine List.ext_getElem (by simp) fun position hposition _ => ?_
  rw [List.getElem_map, List.getElem_range]
  refine (ofSource_wellFormed hsource).index position _ (List.getElem?_eq_getElem ?_)
  simpa using hposition

/-- The bundle of a script holds all of its statements. -/
theorem mem_statements_iff (hbuild : (build disk entry).run log = .ok bundle later)
    (hread : disk.read (entryPathOf disk entry) = .ok source)
    (hsource : Module.ofSource (entryPathOf disk entry) source = .ok module)
    (hscript : module.IsScript) (address : Address) :
    address ∈ bundle.statements ↔
      address.module = 0 ∧ address.index < module.statements.length := by
  obtain ⟨hentry, hlone, -⟩ := lone_of_build hbuild hread hsource hscript
  have hbuilt := built_of_build hbuild
  obtain ⟨found, hmodules, hsame, -⟩ := hlone.modules
  have hfound : bundle.graph.module? 0 = some found := by
    unfold Graph.module?
    rw [hmodules]
    rfl
  have hlength : found.statements.length = module.statements.length := by
    have hmap : found.statements.map Statement.asRead = module.statements.map Statement.asRead :=
      congrArg Module.statements hsame
    simpa using congrArg List.length hmap
  rw [hbuilt.statements]
  constructor
  · rintro ⟨hincludes, statement, hstatement, -⟩
    obtain ⟨other, hother, hget⟩ := Graph.statement?_eq_some_iff.mp hstatement
    obtain ⟨hid, -⟩ := hlone.module? hother
    rw [hid] at hother
    obtain rfl := Option.some.inj (hother.symm.trans hfound)
    exact ⟨hid, hlength ▸ (List.getElem?_eq_some_iff.mp hget).1⟩
  · obtain ⟨id, index⟩ := address
    rintro ⟨rfl, hindex⟩
    -- every statement of a script is wanted
    obtain ⟨statement, hget⟩ : ∃ statement, found.statement? index = some statement :=
      ⟨_, List.getElem?_eq_getElem (hlength ▸ hindex)⟩
    have hstatement : bundle.graph.statement? ⟨0, index⟩ = some statement :=
      Graph.statement?_eq_some_iff.mpr ⟨found, hfound, hget⟩
    obtain ⟨earlier, hearlier, hread⟩ := Module.statement?_of_asRead hsame.symm hget
    obtain ⟨body, hbody⟩ := hscript earlier (List.mem_of_getElem? hearlier)
    have hform : statement.form = .statement body :=
      (Statement.form_eq_of_asRead hread).symm.trans hbody
    have hmarked := hbuilt.complete.marked _ List.mem_cons_self
    rw [hentry] at hmarked
    refine ⟨hmarked.2 _ (.plain hstatement ?_ ?_), statement, hstatement, ?_⟩ <;> rw [hform] <;> rfl

/-- Whether the statements of a bundle are in the order of one source. -/
@[reducible]
def InSourceOrder (bundle : Bundle) : Prop :=
  bundle.statements.Pairwise fun first second => first.index < second.index

/-- If they are in source order, the bundle of a script holds its statements one by one. -/
theorem statements_eq_of_ordered (hbuild : (build disk entry).run log = .ok bundle later)
    (hread : disk.read (entryPathOf disk entry) = .ok source)
    (hsource : Module.ofSource (entryPathOf disk entry) source = .ok module)
    (hscript : module.IsScript)
    (hordered : bundle.InSourceOrder) :
    bundle.statements = (List.range module.statements.length).map (⟨0, ·⟩) := by
  have hmem := mem_statements_iff hbuild hread hsource hscript
  have : Std.Irrefl fun first second : Address => first.index < second.index :=
    ⟨fun _ => Nat.lt_irrefl _⟩
  have : Std.Antisymm fun first second : Address => first.index < second.index :=
    ⟨fun _ _ hfirst hsecond => absurd hfirst (Nat.lt_asymm hsecond)⟩
  refine List.Pairwise.eq_of_mem_iff hordered (List.pairwise_map.mpr List.pairwise_lt_range) ?_
  intro address
  rw [hmem, List.mem_map]
  constructor
  · rintro ⟨hmodule, hindex⟩
    exact ⟨address.index, List.mem_range.mpr hindex, by rw [← hmodule]⟩
  · rintro ⟨index, hindex, rfl⟩
    exact ⟨rfl, List.mem_range.mp hindex⟩

end Bundle

end ScriptBundler
