import ScriptBundler.Proofs.Graph.Order
import ScriptBundler.Proofs.Graph.Resolution
import ScriptBundler.Proofs.Graph.Tracing
import ScriptBundler.Proofs.Output.Globals

/-!
# What a bundle that has been built is like

Reading, expanding and naming each leave their mark on a bundle: its graph has answered one request,
the imports of all names that have been asked for have been followed, and only claims have been
renamed.  `Bundle.Built` collects these facts, so that what follows from them need not go back to
how a bundle is made.
-/

namespace ScriptBundler

open Files ScriptBundler.Module

namespace Graph

/-- A graph whose external modules differ in their names at most. -/
theorem Widens.of_renamed {before after : Graph} (hmodules : after.modules = before.modules)
    (hpaths : after.paths = before.paths) (hspecifiers : after.specifiers = before.specifiers)
    (hnamespaces : after.namespaces = before.namespaces)
    (hexternal : ∀ id, (after.external? id).map (·.rename "") =
      (before.external? id).map (·.rename "")) : before.Widens after := by
  refine .of_specifiers_eq (.of_modules_eq hmodules hpaths) hspecifiers
    (fun id external hfound => ?_) fun id hid => hnamespaces ▸ hid
  have hsame := hexternal id
  rw [hfound] at hsame
  obtain ⟨later, hlater, hrename⟩ := Option.map_eq_some_iff.mp hsame
  refine ⟨later, hlater, fun exported hprovides => ?_⟩
  have hdefault : later.needsDefault = external.needsDefault := congrArg (·.needsDefault) hrename
  have hnamed : later.needsNamed = external.needsNamed := congrArg (·.needsNamed) hrename
  unfold External.Provides at hprovides ⊢
  rwa [hdefault, hnamed]

end Graph

namespace Bundle

/-- What is true of every bundle that has been built. -/
structure Built (bundle : Bundle) : Prop where
  complete : bundle.graph.Complete [.everything bundle.entry true]
  traced : bundle.graph.Traced
  /-- The bundle prints the statements that are included, apart from export lists. -/
  statements : ∀ address, address ∈ bundle.statements ↔
    bundle.graph.Includes address ∧ bundle.graph.Has (.statement address)
  /-- Whatever is settled belongs to a claim. -/
  settled : ∀ id name canonical, bundle.naming.get? id name = some canonical →
    ∃ claim ∈ bundle.claims, claim.place? = some (id, name)
  binds : ∀ claim ∈ bundle.claims, bundle.Binds claim.binding

variable {bundle : Bundle}

theorem Deconflicts.exists_externals {graph : Graph} (hnamed : bundle.Deconflicts graph) :
    ∃ externals, bundle.graph = { graph with externals } := by
  have hexternals := NamedGraph.exists_externals_deconflict graph bundle.statements
  rwa [hnamed.eq] at hexternals

/-- Naming changes nothing that expansion has found out. -/
theorem Deconflicts.traced {graph : Graph} (hnamed : bundle.Deconflicts graph)
    (htraced : graph.Traced) : bundle.graph.Traced := by
  have hexternal := NamedGraph.external?_deconflict graph bundle.statements
  rw [hnamed.eq] at hexternal
  obtain ⟨externals, hgraph⟩ := hnamed.exists_externals
  dsimp only at hexternal
  rw [hgraph] at hexternal ⊢
  exact ⟨htraced.toLinked.of_modules_eq (.of_renamed rfl rfl rfl rfl hexternal)
    ⟨htraced.wellFormed.module, htraced.wellFormed.ofPath, htraced.wellFormed.resolver⟩ rfl rfl,
    htraced.traced⟩

theorem built_of_build {disk : Disk} {entry : Path} {log later : List Log.Entry}
    (hbuild : (build disk entry).run log = .ok bundle later) : bundle.Built := by
  obtain ⟨loaded, expanded, hloaded, hentry, hexpanded, hstatements, hnamed⟩ := build_ok hbuild
  have hnamed : bundle.Deconflicts expanded := hnamed
  have hread := Graph.History.loaded .start hentry
  have hhas : loaded.Has (.everything bundle.entry true) := by
    obtain ⟨after, hrun, hgraph⟩ := Graph.run_eq_ok hentry
    obtain ⟨hquiet, hid⟩ := Build.load_ok hrun
    have hempty : Graph.empty.WellFormed := Graph.complete_empty.wellFormed
    obtain ⟨module, hmodule, -⟩ := (hquiet.wellFormed hempty).ofPath _ _ hid
    rw [← hloaded, hgraph]
    exact ⟨module, hmodule⟩
  rw [hloaded] at hread
  -- the graph of a bundle is that of one request, with the names of externals put in
  have hhistory : Graph.History disk [.everything bundle.entry true] expanded :=
    hexpanded ▸ Graph.History.requested hread hhas hstatements
  have hlisted : ∀ address, address ∈ bundle.statements ↔
      expanded.Includes address ∧ expanded.Has (.statement address) :=
    fun address => hexpanded ▸ Graph.mem_expandAll_iff hread hhas hstatements
  have htraced := hhistory.traced
  obtain ⟨externals, hgraph⟩ := hnamed.exists_externals
  constructor
  case complete =>
    rw [hgraph]
    exact hhistory.complete.of_quiet (.of_modules_eq rfl rfl fun _ => htraced.wellFormed.resolver)
  case traced => exact hnamed.traced htraced
  case statements =>
    rw [hgraph]
    exact hlisted
  case settled =>
    intro id name canonical hget
    rw [hnamed.claims_eq]
    have hnaming : (NamedGraph.deconflict ⟨expanded, .empty⟩ bundle.statements).1.naming =
        bundle.naming := congrArg NamedGraph.naming hnamed.eq
    rw [← hnaming] at hget
    rcases NamedGraph.only_settled_deconflict hget with
      ⟨claim, hclaim, -, hplace, -⟩ | ⟨rfl, hclaim⟩
    · exact ⟨claim, hclaim, hplace⟩
    · exact ⟨_, hclaim, rfl⟩
  case binds =>
    intro claim hclaim
    rw [hnamed.claims_eq] at hclaim
    exact hnamed.binds hclaim

/-- The name of what makes a claim is the canonical name at the place of the claim. -/
theorem nameOf_of_place {claim : Claim} {id : Nat} {name : String}
    (hplace : claim.place? = some (id, name)) :
    bundle.nameOf claim.binding = (bundle.naming.canonicalName bundle.graph id name).1 := by
  obtain ⟨claimed, owner⟩ := claim
  cases owner with
  | external other => contradiction
  | _ =>
      obtain ⟨rfl, rfl⟩ := Prod.mk.inj (Option.some.inj hplace)
      rfl

end Bundle
end ScriptBundler
