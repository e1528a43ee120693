import ScriptBundler.Proofs.Graph.Claims
import ScriptBundler.Proofs.Graph.Replacements

/-!
# The resolution of all conflicts

What naming a bundle afresh comes to, for any graph and any list of statements: which name every
claim ends with, which renamings are made for that, and that nothing else is renamed.
-/

namespace ScriptBundler

open ScriptBundler.Module

namespace Graph

/-- The name that a claim to the top level of a bundle ends with. -/
def finalName (graph : Graph) (statements : List Address) (claim : Claim) : String :=
  Conflict.assigned (Conflict.ofClaims (graph.claims statements)) claim

/-- The owners that claim a name, each one once, in the order of their first claims. -/
def ownersOf (graph : Graph) (statements : List Address) (name : String) : List Owner :=
  (((graph.claims statements).filter (·.name == name)).map (·.owner)).eraseDups

end Graph

namespace NamedGraph

/-- Renames claims one after the other. -/
def renameEach (named : NamedGraph) (final : Claim → String) (renamed : List Claim) : NamedGraph :=
  renamed.foldl (fun named claim => (named.rename claim.name claim.owner (final claim)).1) named

/-- Whether a named graph is what resolving all conflicts of a graph comes to. -/
structure Resolves (named : NamedGraph) (graph : Graph) (statements : List Address) : Prop where
  /-- Different claims end with different names. -/
  injective : ∀ first ∈ graph.claims statements, ∀ second ∈ graph.claims statements,
    graph.finalName statements first = graph.finalName statements second → first = second
  /-- Of the owners of a name, only the last one, the only one perhaps, keeps it. -/
  kept_iff : ∀ claim ∈ graph.claims statements,
    graph.finalName statements claim = claim.name ↔
      (graph.ownersOf statements claim.name).getLast? = some claim.owner
  /-- The others get a name that is not claimed, with as few `_` in front as are free. -/
  replaced : ∀ claim ∈ graph.claims statements, graph.finalName statements claim ≠ claim.name →
    (∀ other ∈ graph.claims statements, other.name ≠ graph.finalName statements claim) ∧
      FirstFree ((graph.claims statements).map (graph.finalName statements)) claim.name
        (graph.finalName statements claim)
  /-- Those claims are renamed that do not keep their names, and nothing else is, after objects for
  whole modules have been asked for their names and external modules have been given theirs. -/
  renamed : ∃ renamed : List Claim, renamed.Nodup ∧
    (∀ claim, claim ∈ renamed ↔
      claim ∈ graph.claims statements ∧ graph.finalName statements claim ≠ claim.name) ∧
    named = renameEach
      ⟨graph.withPreferredNames, (graph.namespaceClaims graph.namespaces .empty).2⟩
      (graph.finalName statements) renamed
  /-- A renamed claim has settled its place, if it does not share it. -/
  settled : ∀ claim ∈ graph.claims statements, graph.finalName statements claim ≠ claim.name →
    ∀ id name, claim.place? = some (id, name) →
      (∀ other ∈ graph.claims statements, other.place? = some (id, name) → other = claim) →
      named.naming.get? id name = some (graph.finalName statements claim)
  /-- Whatever is settled is a renamed claim or the object for a whole module. -/
  only_settled : ∀ id name canonical, named.naming.get? id name = some canonical →
    (∃ claim ∈ graph.claims statements, graph.finalName statements claim ≠ claim.name ∧
      claim.place? = some (id, name) ∧ canonical = graph.finalName statements claim) ∨
    name = "*" ∧ ⟨canonical, .namespaceObject id⟩ ∈ graph.claims statements
  /-- An external module has the name of its claim, and is otherwise as before. -/
  external : ∀ id, named.graph.external? id = (graph.external? id).map fun external =>
    external.rename (graph.finalName statements ⟨external.preferredName, .external id⟩)
  modules : named.graph.modules = graph.modules
  namespaces : named.graph.namespaces = graph.namespaces

end NamedGraph

namespace Graph

/-- Asking for the names of whole modules settles no other names. -/
theorem get?_namespaceClaims_of_not_mem (graph : Graph) {ids : List Nat} {id : Nat}
    (hid : id ∉ ids) (naming : Naming) (name : String) :
    (graph.namespaceClaims ids naming).2.get? id name = naming.get? id name := by
  induction ids generalizing naming with
  | nil => rfl
  | cons first rest ih =>
      obtain ⟨hne, hrest⟩ := List.ne_and_not_mem_of_not_mem_cons hid
      rw [namespaceClaims]
      dsimp only
      rw [ih hrest]
      cases hget : naming.get? first "*" with
      | some canonical => rw [Naming.canonicalName_of_settled hget]
      | none =>
          obtain ⟨text, hmeaning⟩ := graph.meaning_star first
          rw [Naming.canonicalName_of_here hget hmeaning, Naming.get?_settle]
          exact if_neg fun h => hne h.1.symm

end Graph

namespace NamedGraph

open Conflict

variable {graph : Graph} {statements : List Address}

/-- What several changes come to is the start or one of the changes. -/
theorem foldl_ite_cases {α β : Type} (changes : α → Prop) [DecidablePred changes] (value : α → β)
    (items : List α) (start : β) :
    items.foldl (fun kept item => if changes item then value item else kept) start = start ∨
      ∃ item ∈ items, changes item ∧
        items.foldl (fun kept item => if changes item then value item else kept) start =
          value item := by
  induction items generalizing start with
  | nil => exact Or.inl rfl
  | cons first rest ih =>
      rw [List.foldl_cons]
      rcases ih (if changes first then value first else start) with
        hstart | ⟨item, hitem, hchanges, hvalue⟩
      · by_cases hfirst : changes first
        · rw [if_pos hfirst] at hstart ⊢
          exact Or.inr ⟨first, List.mem_cons_self, hfirst, hstart⟩
        · rw [if_neg hfirst] at hstart ⊢
          exact Or.inl hstart
      · exact Or.inr ⟨item, List.mem_cons_of_mem _ hitem, hchanges, hvalue⟩

/-- Applying a resolution renames the claims in it. -/
theorem settleConflicts_eq_renameEach (named : NamedGraph) (claims : List Claim) :
    (named.settleConflicts (ofClaims claims)).1 =
      renameEach named (assigned (ofClaims claims)) ((renamings (ofClaims claims)).map (·.1)) := by
  have hpairs : ((renamings (ofClaims claims)).map (·.1)).map
      (fun claim => (claim, assigned (ofClaims claims) claim)) = renamings (ofClaims claims) := by
    rw [List.map_map]
    refine (List.map_congr_left fun entry hentry => ?_).trans (List.map_id _)
    exact Prod.ext rfl (assigned_of_mem_renamings hentry)
  rw [settleConflicts_eq]
  conv_lhs => rw [← hpairs]
  rw [List.foldl_map]
  rfl

theorem only_settled_deconflict {id : Nat} {name canonical : String}
    (hget : (deconflict ⟨graph, .empty⟩ statements).1.naming.get? id name = some canonical) :
    (∃ claim ∈ graph.claims statements, graph.finalName statements claim ≠ claim.name ∧
      claim.place? = some (id, name) ∧ canonical = graph.finalName statements claim) ∨
    name = "*" ∧ ⟨canonical, .namespaceObject id⟩ ∈ graph.claims statements := by
  rw [deconflict_eq, settleConflicts_eq, get?_foldl_apply] at hget
  obtain ⟨-, hothers, -⟩ := graph.namespaceClaims_spec graph.namespaces .empty
  rcases foldl_ite_cases (fun entry : Claim × String => entry.1.place? = some (id, name))
    (fun entry => some entry.2) (renamings (ofClaims (graph.claims statements)))
    ((graph.namespaceClaims graph.namespaces .empty).2.get? id name) with
    hstart | ⟨⟨claim, replacement⟩, hentry, hplace, hvalue⟩
  · have hsettled := hstart.symm.trans hget
    by_cases hname : name = "*"
    · subst hname
      refine Or.inr ⟨rfl, Graph.mem_claims_namespaceObject.mpr ⟨?_, hsettled⟩⟩
      by_contra hid
      rw [graph.get?_namespaceClaims_of_not_mem hid] at hsettled
      contradiction
    · rw [hothers id name hname] at hsettled
      contradiction
  · obtain ⟨hclaim, hrenamed⟩ := mem_renamed_iff.mp (List.mem_map_of_mem hentry)
    refine Or.inl ⟨claim, hclaim, hrenamed, hplace, ?_⟩
    have heq := Option.some.inj (hget.symm.trans hvalue)
    exact heq.trans (assigned_of_mem_renamings hentry).symm

theorem external?_deconflict_eq (graph : Graph) (statements : List Address) (id : Nat) :
    (deconflict ⟨graph, .empty⟩ statements).1.graph.external? id =
      (graph.external? id).map fun external =>
        external.rename (graph.finalName statements ⟨external.preferredName, .external id⟩) := by
  have hrest := external?_deconflict graph statements id
  cases hexternal : graph.external? id with
  | none =>
      rw [hexternal] at hrest
      exact Option.map_eq_none_iff.mp hrest
  | some external =>
      have hclaim : ⟨external.preferredName, .external id⟩ ∈ graph.claims statements :=
        Graph.mem_claims_external.mpr ⟨external, hexternal, rfl⟩
      have honly : ∀ other ∈ graph.claims statements, other.owner = .external id →
          other = ⟨external.preferredName, .external id⟩ := by
        rintro ⟨name, owner⟩ hother rfl
        obtain ⟨found, hfound, rfl⟩ := Graph.mem_claims_external.mp hother
        obtain rfl := Option.some.inj (hexternal.symm.trans hfound)
        rfl
      have hpreferred : graph.withPreferredNames.external? id =
          some (external.rename external.preferredName) := by
        rw [Graph.external?_withPreferredNames, hexternal]
        rfl
      obtain ⟨later, hlater, hname⟩ := external?_settleConflicts
        ⟨graph.withPreferredNames, (graph.namespaceClaims graph.namespaces .empty).2⟩
        hclaim rfl honly hpreferred rfl
      rw [← deconflict_eq] at hlater
      rw [hlater, hexternal] at hrest
      -- the two differ in the name at most
      have hsame : later.rename "" = external.rename "" := Option.some.inj hrest
      have hrename : ∀ final, later.rename final = external.rename final :=
        fun final => congrArg (·.rename final) hsame
      rw [hlater, Option.map_some, ← hrename]
      exact congrArg (fun final => some (later.rename final)) hname

/-- Naming a bundle afresh gives different claims different names, keeps what can be kept, renames
the other claims with as few `_` as are free, and renames nothing else. -/
theorem resolves_deconflict (graph : Graph) (statements : List Address) :
    (deconflict ⟨graph, .empty⟩ statements).1.Resolves graph statements := by
  obtain ⟨hmodules, hnamespaces⟩ := modules_deconflict graph statements
  constructor
  case injective =>
    intro first hfirst second hsecond heq
    exact assigned_injective hfirst hsecond heq
  case kept_iff =>
    intro claim hclaim
    rw [Graph.ownersOf, ← ownersOf_eq_eraseDups]
    exact assigned_eq_name_iff hclaim
  case replaced =>
    intro claim hclaim hrenamed
    exact firstFree_assigned hclaim hrenamed
  case renamed =>
    refine ⟨_, nodup_renamed_ofClaims (graph.claims statements), fun claim => mem_renamed_iff, ?_⟩
    rw [deconflict_eq]
    exact settleConflicts_eq_renameEach _ _
  case settled =>
    intro claim hclaim hrenamed id name hplace honly
    rw [deconflict_eq]
    rcases get?_settleConflicts _ hclaim hplace honly with hsettled | ⟨hkept, -⟩
    · exact hsettled
    · exact absurd hkept hrenamed
  case only_settled =>
    intro id name canonical hget
    exact only_settled_deconflict hget
  case external => exact external?_deconflict_eq graph statements
  case modules => exact hmodules
  case namespaces => exact hnamespaces

end NamedGraph

end ScriptBundler
