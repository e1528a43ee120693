import ScriptBundler.Proofs.Graph.Conflicts
import ScriptBundler.Proofs.Graph.Settling

/-!
# Applying the resolution of conflicts

Renaming owners settles names and renames external modules, and changes nothing else.  Every
renaming has one place that it goes to; as no claim is renamed twice, a place ends with the name
that its claim is assigned.
-/

namespace ScriptBundler

/-! ## The last of several changes -/

section Last

variable {α β : Type} {changes : α → Prop} [DecidablePred changes] {value : α → β}

theorem foldl_ite_of_forall_not {items : List α} (start : β)
    (hnone : ∀ item ∈ items, ¬ changes item) :
    items.foldl (fun kept item => if changes item then value item else kept) start = start := by
  induction items generalizing start with
  | nil => rfl
  | cons first rest ih =>
      rw [List.foldl_cons, if_neg (hnone first List.mem_cons_self)]
      exact ih start fun item hitem => hnone item (List.mem_cons_of_mem _ hitem)

/-- Changes that all agree. -/
theorem foldl_ite_of_mem {items : List α} {item : α} {start : β} (hitem : item ∈ items)
    (hchanges : changes item)
    (hagree : ∀ other ∈ items, changes other → value other = value item) :
    items.foldl (fun kept item => if changes item then value item else kept) start =
      value item := by
  -- once the value is there it stays
  have hstay : ∀ rest : List α, (∀ other ∈ rest, changes other → value other = value item) →
      rest.foldl (fun kept item => if changes item then value item else kept) (value item) =
        value item := by
    intro rest hrest
    induction rest with
    | nil => rfl
    | cons first rest ih =>
        rw [List.foldl_cons]
        have hfirst : (if changes first then value first else value item) = value item := by
          split
          · rename_i h
            exact hrest first List.mem_cons_self h
          · rfl
        rw [hfirst]
        exact ih fun other hother => hrest other (List.mem_cons_of_mem _ hother)
  induction items generalizing start with
  | nil => contradiction
  | cons first rest ih =>
      rw [List.foldl_cons]
      rcases List.mem_cons.mp hitem with rfl | hrest
      · rw [if_pos hchanges]
        exact hstay rest fun other hother => hagree other (List.mem_cons_of_mem _ hother)
      · exact ih hrest fun other hother => hagree other (List.mem_cons_of_mem _ hother)

end Last

/-- The canonical name that renaming a claim changes; renaming an external module changes none. -/
def Claim.place? (claim : Claim) : Option (Nat × String) :=
  match claim.owner with
  | .module id => some (id, claim.name)
  | .anonymousDefault id => some (id, "default")
  | .namespaceObject id => some (id, "*")
  | .external _ => none

namespace NamedGraph

/-- Renames a claim. -/
def apply (named : NamedGraph) (entry : Claim × String) : NamedGraph :=
  (named.rename entry.1.name entry.1.owner entry.2).1

theorem renameAll_eq (named : NamedGraph) (name : String) (renamed : List (Owner × String)) :
    (named.renameAll name renamed).1 =
      (renamed.map fun entry => ((⟨name, entry.1⟩ : Claim), entry.2)).foldl apply named := by
  induction renamed generalizing named with
  | nil => rfl
  | cons first rest ih =>
      obtain ⟨owner, replacement⟩ := first
      rw [List.map_cons, List.foldl_cons]
      exact ih (named.rename name owner replacement).1

/-- Applying a resolution renames one claim after the other. -/
theorem settleConflicts_eq (named : NamedGraph) (conflicts : List Conflict) :
    (named.settleConflicts conflicts).1 = (Conflict.renamings conflicts).foldl apply named := by
  induction conflicts generalizing named with
  | nil => rfl
  | cons conflict rest ih =>
      rw [settleConflicts]
      dsimp only
      rw [ih, renameAll_eq, ← List.foldl_append]
      rfl

theorem get?_apply (named : NamedGraph) (entry : Claim × String) (id : Nat) (name : String) :
    (named.apply entry).naming.get? id name =
      if entry.1.place? = some (id, name) then some entry.2 else named.naming.get? id name := by
  obtain ⟨⟨claimed, owner⟩, replacement⟩ := entry
  cases owner with
  | external other => rfl
  | _ =>
      refine (Naming.get?_settle _ _ _ _ _ _).trans ?_
      simp only [Claim.place?, Option.some.injEq, Prod.mk.injEq]

theorem get?_foldl_apply (named : NamedGraph) (renamings : List (Claim × String)) (id : Nat)
    (name : String) :
    (renamings.foldl apply named).naming.get? id name =
      renamings.foldl (fun kept entry =>
        if entry.1.place? = some (id, name) then some entry.2 else kept)
        (named.naming.get? id name) := by
  induction renamings generalizing named with
  | nil => rfl
  | cons first rest ih => rw [List.foldl_cons, ih, get?_apply, List.foldl_cons]

/-- Renaming changes nothing in a graph but external modules. -/
theorem exists_externals_foldl_apply (named : NamedGraph) (renamings : List (Claim × String)) :
    ∃ externals, (renamings.foldl apply named).graph = { named.graph with externals } := by
  induction renamings generalizing named with
  | nil => exact ⟨named.graph.externals, rfl⟩
  | cons first rest ih =>
      obtain ⟨⟨claimed, owner⟩, replacement⟩ := first
      obtain ⟨externals, hgraph⟩ := ih (named.apply (⟨claimed, owner⟩, replacement))
      refine ⟨externals, ?_⟩
      rw [List.foldl_cons, hgraph]
      cases owner <;> rfl

theorem external?_apply (named : NamedGraph) (entry : Claim × String) (id : Nat) :
    (named.apply entry).graph.external? id = (named.graph.external? id).map fun external =>
      if entry.1.owner = .external id then external.rename entry.2 else external := by
  obtain ⟨⟨claimed, owner⟩, replacement⟩ := entry
  cases owner with
  | external other =>
      show (named.graph.externals.modify other _)[id]? = _
      rw [List.getElem?_modify]
      by_cases hsame : other = id
      · subst hsame
        simp only
        rfl
      · simp only [if_neg hsame, Owner.external.injEq]
        rfl
  | _ =>
      simp only [reduceCtorEq, if_false]
      exact Option.map_id'.symm

theorem external?_foldl_apply (named : NamedGraph) (renamings : List (Claim × String)) (id : Nat) :
    (renamings.foldl apply named).graph.external? id =
      (named.graph.external? id).map fun external => renamings.foldl (fun kept entry =>
        if entry.1.owner = .external id then external.rename entry.2 else kept) external := by
  induction renamings generalizing named with
  | nil => exact Option.map_id'.symm
  | cons first rest ih =>
      rw [List.foldl_cons, ih, external?_apply, Option.map_map]
      refine congrArg (Option.map · _) (funext fun external => ?_)
      rw [Function.comp_apply, List.foldl_cons]
      -- renaming twice is renaming once
      by_cases hfirst : first.1.owner = .external id
      · rw [if_pos hfirst]
        rfl
      · rw [if_neg hfirst]

open Conflict in
/-- Where only one claim goes to a place, the place ends with the name that it is assigned. -/
theorem get?_settleConflicts (named : NamedGraph) {claims : List Claim} {claim : Claim} {id : Nat}
    {name : String} (hclaim : claim ∈ claims) (hplace : claim.place? = some (id, name))
    (honly : ∀ other ∈ claims, other.place? = some (id, name) → other = claim) :
    (named.settleConflicts (ofClaims claims)).1.naming.get? id name =
        some (assigned (ofClaims claims) claim) ∨
      assigned (ofClaims claims) claim = claim.name ∧
        (named.settleConflicts (ofClaims claims)).1.naming.get? id name =
          named.naming.get? id name := by
  rw [settleConflicts_eq, get?_foldl_apply]
  rcases assigned_cases hclaim with ⟨hname, -, habsent⟩ | hrenamed
  · refine Or.inr ⟨hname, foldl_ite_of_forall_not _ fun entry hentry hother => habsent ?_⟩
    exact List.mem_map.mpr ⟨entry, hentry, honly _ (mem_claims_of_mem_renamings hentry) hother⟩
  · refine Or.inl (foldl_ite_of_mem hrenamed hplace fun other hother hsame => ?_)
    have hkey := honly _ (mem_claims_of_mem_renamings hother) hsame
    rw [List.inj_on_of_nodup_map (nodup_renamed_ofClaims claims) hother hrenamed hkey]

open Conflict in
/-- An external module with one claim ends with the name that it is assigned. -/
theorem external?_settleConflicts (named : NamedGraph) {claims : List Claim} {claim : Claim}
    {id : Nat} {external : External} (hclaim : claim ∈ claims) (howner : claim.owner = .external id)
    (honly : ∀ other ∈ claims, other.owner = .external id → other = claim)
    (hexternal : named.graph.external? id = some external) (hname : external.name = claim.name) :
    ∃ later, (named.settleConflicts (ofClaims claims)).1.graph.external? id = some later ∧
      later.name = assigned (ofClaims claims) claim := by
  rw [settleConflicts_eq, external?_foldl_apply, hexternal]
  refine ⟨_, rfl, ?_⟩
  dsimp only
  rcases assigned_cases hclaim with ⟨hkept, -, habsent⟩ | hrenamed
  · rw [foldl_ite_of_forall_not, hkept, hname]
    intro entry hentry hother
    refine habsent (List.mem_map.mpr ⟨entry, hentry, ?_⟩)
    exact honly _ (mem_claims_of_mem_renamings hentry) hother
  · have hlast : (renamings (ofClaims claims)).foldl (fun kept entry =>
        if entry.1.owner = .external id then external.rename entry.2 else kept) external =
          external.rename (assigned (ofClaims claims) claim) := by
      refine foldl_ite_of_mem hrenamed howner fun other hother hsame => ?_
      have hkey := honly _ (mem_claims_of_mem_renamings hother) hsame
      rw [List.inj_on_of_nodup_map (nodup_renamed_ofClaims claims) hother hrenamed hkey]
    rw [hlast]
    rfl

end NamedGraph

end ScriptBundler
