import ScriptBundler.Proofs.Graph.Deconfliction

/-!
# Claims

Which names are claimed at the top level of a bundle, and by whom.  Each owner but a module claims
one name; a module claims the names that its statements define.
-/

namespace ScriptBundler

open ScriptBundler.Module

namespace Graph

variable {graph : Graph} {claim : Claim}

/-- The claims to the top level of a bundle with some statements. -/
def claims (graph : Graph) (statements : List Address) : List Claim :=
  (graph.namespaceClaims graph.namespaces .empty).1 ++ statements.flatMap graph.statementClaims ++
    graph.externalClaims

/-- Objects for whole modules claim the names that these have been given. -/
theorem namespaceClaims_spec (graph : Graph) (ids : List Nat) (naming : Naming) :
    naming.Extends (graph.namespaceClaims ids naming).2 ∧
      (∀ id name, name ≠ "*" →
        (graph.namespaceClaims ids naming).2.get? id name = naming.get? id name) ∧
      ∀ claim, claim ∈ (graph.namespaceClaims ids naming).1 ↔
        ∃ id ∈ ids, claim.owner = .namespaceObject id ∧
          (graph.namespaceClaims ids naming).2.get? id "*" = some claim.name := by
  induction ids generalizing naming with
  | nil => exact ⟨.refl naming, fun _ _ _ => rfl, by simp [namespaceClaims]⟩
  | cons first rest ih =>
      obtain ⟨hextends, hothers, hclaims⟩ := ih (naming.canonicalName graph first "*").2
      have hfirst := naming.canonicalName_extends graph first "*"
      have hsettled := hextends first "*" _ (naming.canonicalName_settles graph first "*")
      -- a module as a whole is no alias, so that asking for it settles no other name
      have hkept : ∀ id name, name ≠ "*" →
          (naming.canonicalName graph first "*").2.get? id name = naming.get? id name := by
        intro id name hname
        cases hget : naming.get? first "*" with
        | some canonical => rw [Naming.canonicalName_of_settled hget]
        | none =>
            obtain ⟨text, hmeaning⟩ := graph.meaning_star first
            rw [Naming.canonicalName_of_here hget hmeaning, Naming.get?_settle]
            exact if_neg fun h => hname h.2.symm
      rw [namespaceClaims]
      dsimp only
      refine ⟨hfirst.trans hextends, fun id name hname => ?_, fun claim => ?_⟩
      · rw [hothers id name hname, hkept id name hname]
      · rw [List.mem_cons, hclaims]
        constructor
        · rintro (rfl | ⟨id, hid, howner, hget⟩)
          · exact ⟨first, List.mem_cons_self, rfl, hsettled⟩
          · exact ⟨id, List.mem_cons_of_mem _ hid, howner, hget⟩
        · rintro ⟨id, hid, howner, hget⟩
          rcases List.mem_cons.mp hid with rfl | hid
          · obtain ⟨name, owner⟩ := claim
            obtain rfl : owner = .namespaceObject id := howner
            rw [hsettled] at hget
            exact Or.inl (by rw [Option.some.inj hget])
          · exact Or.inr ⟨id, hid, howner, hget⟩

/-- Every object for a whole module gets a name. -/
theorem namespaceClaims_settles (naming : Naming) {ids : List Nat} {id : Nat} (hid : id ∈ ids) :
    ∃ name, (graph.namespaceClaims ids naming).2.get? id "*" = some name := by
  induction ids generalizing naming with
  | nil => contradiction
  | cons first rest ih =>
      obtain ⟨hextends, -, -⟩ :=
        graph.namespaceClaims_spec rest (naming.canonicalName graph first "*").2
      rcases List.mem_cons.mp hid with rfl | hid
      · exact ⟨_, hextends _ _ _ (naming.canonicalName_settles graph id "*")⟩
      · exact ih _ hid

/-- A statement claims the names that it defines for its module, and as a default export without a
name the one that is made up for it. -/
theorem mem_statementClaims {address : Address} :
    claim ∈ graph.statementClaims address ↔
      ∃ module, graph.module? address.module = some module ∧
        ((claim.owner = .module address.module ∧ ∃ statement,
            module.statement? address.index = some statement ∧ claim.name ∈ statement.defines) ∨
          (claim.owner = .anonymousDefault address.module ∧
            module.anonymousDefault? = some address.index ∧
            claim.name = module.anonymousDefaultName)) := by
  unfold statementClaims
  cases hmodule : graph.module? address.module with
  | none => simp
  | some module =>
      obtain ⟨name, owner⟩ := claim
      have hdefines : ∀ name, name ∈ ((module.statement? address.index).map (·.defines)).getD [] ↔
          ∃ statement, module.statement? address.index = some statement ∧
            name ∈ statement.defines := by
        intro name
        cases module.statement? address.index <;> simp
      have hanonymous : (⟨name, owner⟩ : Claim) ∈
          (if module.anonymousDefault? == some address.index then
            [(⟨module.anonymousDefaultName, .anonymousDefault address.module⟩ : Claim)]
          else []) ↔
          owner = .anonymousDefault address.module ∧
            module.anonymousDefault? = some address.index ∧ name = module.anonymousDefaultName := by
        by_cases hdefault : module.anonymousDefault? = some address.index
        · simp [hdefault, and_comm]
        · simp [hdefault]
      dsimp only
      rw [List.mem_append, List.mem_map, hanonymous]
      simp only [hdefines, Claim.mk.injEq, Option.some.injEq]
      constructor
      · rintro (⟨defined, hdefined, rfl, rfl⟩ | hdefault)
        · exact ⟨module, rfl, Or.inl ⟨rfl, hdefined⟩⟩
        · exact ⟨module, rfl, Or.inr hdefault⟩
      · rintro ⟨_, rfl, ⟨rfl, hdefined⟩ | hdefault⟩
        · exact Or.inl ⟨name, hdefined, rfl, rfl⟩
        · exact Or.inr hdefault

theorem mem_externalClaims :
    claim ∈ graph.externalClaims ↔
      ∃ id external, graph.external? id = some external ∧
        claim = ⟨external.preferredName, .external id⟩ := by
  unfold externalClaims external?
  rw [List.mem_map]
  constructor
  · rintro ⟨⟨external, id⟩, hmem, rfl⟩
    exact ⟨id, external, List.mem_zipIdx_iff_getElem?.mp hmem, rfl⟩
  · rintro ⟨id, external, hget, rfl⟩
    exact ⟨(external, id), List.mem_zipIdx_iff_getElem?.mpr hget, rfl⟩

/-! ## The claims of each owner -/

variable {statements : List Address} {name : String} {id : Nat}

theorem mem_claims :
    claim ∈ graph.claims statements ↔
      claim ∈ (graph.namespaceClaims graph.namespaces .empty).1 ∨
        (∃ address ∈ statements, claim ∈ graph.statementClaims address) ∨
          claim ∈ graph.externalClaims := by
  rw [claims, List.mem_append, List.mem_append, List.mem_flatMap, or_assoc]

/-- A module claims the names that its statements define. -/
theorem mem_claims_module :
    ⟨name, .module id⟩ ∈ graph.claims statements ↔
      ∃ address ∈ statements, address.module = id ∧
        ∃ statement ∈ graph.statement? address, name ∈ statement.defines := by
  obtain ⟨-, -, hobjects⟩ := graph.namespaceClaims_spec graph.namespaces .empty
  simp only [mem_claims, hobjects, mem_externalClaims, mem_statementClaims, reduceCtorEq,
    Claim.mk.injEq, Owner.module.injEq, statement?, Option.mem_def, Option.bind_eq_some_iff]
  constructor
  · rintro (⟨_, -, h, -⟩ | ⟨address, haddress, module, hmodule, h | ⟨h, -⟩⟩ | ⟨_, _, -, -, h⟩)
    · contradiction
    · obtain ⟨rfl, statement, hstatement, hname⟩ := h
      exact ⟨address, haddress, rfl, statement, ⟨module, hmodule, hstatement⟩, hname⟩
    · contradiction
    · contradiction
  · rintro ⟨address, haddress, rfl, statement, ⟨module, hmodule, hstatement⟩, hname⟩
    exact Or.inr (Or.inl ⟨address, haddress, module, hmodule,
      Or.inl ⟨rfl, statement, hstatement, hname⟩⟩)

/-- The default export of a module claims the name that is made up for it. -/
theorem mem_claims_anonymousDefault :
    ⟨name, .anonymousDefault id⟩ ∈ graph.claims statements ↔
      ∃ address ∈ statements, address.module = id ∧ ∃ module ∈ graph.module? id,
        module.anonymousDefault? = some address.index ∧ name = module.anonymousDefaultName := by
  obtain ⟨-, -, hobjects⟩ := graph.namespaceClaims_spec graph.namespaces .empty
  simp only [mem_claims, hobjects, mem_externalClaims, mem_statementClaims, reduceCtorEq,
    Claim.mk.injEq, Owner.anonymousDefault.injEq, Option.mem_def]
  constructor
  · rintro (⟨_, -, h, -⟩ | ⟨address, haddress, module, hmodule, ⟨h, -⟩ | h⟩ | ⟨_, _, -, -, h⟩)
    · contradiction
    · contradiction
    · obtain ⟨rfl, hdefault⟩ := h
      exact ⟨address, haddress, rfl, module, hmodule, hdefault⟩
    · contradiction
  · rintro ⟨address, haddress, rfl, module, hmodule, hdefault⟩
    exact Or.inr (Or.inl ⟨address, haddress, module, hmodule, Or.inr ⟨rfl, hdefault⟩⟩)

/-- The object for a module claims the name that it has been given. -/
theorem mem_claims_namespaceObject :
    ⟨name, .namespaceObject id⟩ ∈ graph.claims statements ↔
      id ∈ graph.namespaces ∧
        (graph.namespaceClaims graph.namespaces .empty).2.get? id "*" = some name := by
  obtain ⟨-, -, hobjects⟩ := graph.namespaceClaims_spec graph.namespaces .empty
  simp only [mem_claims, hobjects, mem_externalClaims, mem_statementClaims, reduceCtorEq,
    Claim.mk.injEq, Owner.namespaceObject.injEq]
  constructor
  · rintro (⟨_, hid, rfl, hname⟩ | ⟨_, _, _, _, ⟨h, -⟩ | ⟨h, -⟩⟩ | ⟨_, _, -, -, h⟩)
    · exact ⟨hid, hname⟩
    · contradiction
    · contradiction
    · contradiction
  · rintro ⟨hid, hname⟩
    exact Or.inl ⟨id, hid, rfl, hname⟩

/-- An external module claims the name that it prefers. -/
theorem mem_claims_external :
    ⟨name, .external id⟩ ∈ graph.claims statements ↔
      ∃ external ∈ graph.external? id, name = external.preferredName := by
  obtain ⟨-, -, hobjects⟩ := graph.namespaceClaims_spec graph.namespaces .empty
  simp only [mem_claims, hobjects, mem_externalClaims, mem_statementClaims, reduceCtorEq,
    Claim.mk.injEq, Owner.external.injEq, Option.mem_def]
  constructor
  · rintro (⟨_, -, h, -⟩ | ⟨_, _, _, _, ⟨h, -⟩ | ⟨h, -⟩⟩ | ⟨_, external, hexternal, hname, rfl⟩)
    · contradiction
    · contradiction
    · contradiction
    · exact ⟨external, hexternal, hname⟩
  · rintro ⟨external, hexternal, hname⟩
    exact Or.inr (Or.inr ⟨id, external, hexternal, hname, rfl⟩)

theorem external?_withPreferredNames (graph : Graph) (id : Nat) :
    graph.withPreferredNames.external? id =
      (graph.external? id).map fun external => external.rename external.preferredName :=
  List.getElem?_map

end Graph

namespace NamedGraph

/-- Naming a bundle afresh resolves the conflicts among all claims to its top level, where the
objects for whole modules have settled their names and every external module has the one that it
prefers. -/
theorem deconflict_eq (graph : Graph) (statements : List Address) :
    (deconflict ⟨graph, .empty⟩ statements).1 =
      (settleConflicts
        ⟨graph.withPreferredNames, (graph.namespaceClaims graph.namespaces .empty).2⟩
        (Conflict.ofClaims (graph.claims statements))).1 := rfl

/-- Naming a bundle changes nothing in its graph but external modules. -/
theorem exists_externals_deconflict (graph : Graph) (statements : List Address) :
    ∃ externals, (deconflict ⟨graph, .empty⟩ statements).1.graph = { graph with externals } := by
  rw [deconflict_eq, settleConflicts_eq]
  obtain ⟨externals, hgraph⟩ := exists_externals_foldl_apply
    ⟨graph.withPreferredNames, (graph.namespaceClaims graph.namespaces .empty).2⟩
    (Conflict.renamings (Conflict.ofClaims (graph.claims statements)))
  exact ⟨externals, hgraph⟩

theorem modules_deconflict (graph : Graph) (statements : List Address) :
    (deconflict ⟨graph, .empty⟩ statements).1.graph.modules = graph.modules ∧
      (deconflict ⟨graph, .empty⟩ statements).1.graph.namespaces = graph.namespaces := by
  obtain ⟨externals, hgraph⟩ := exists_externals_deconflict graph statements
  rw [hgraph]
  exact ⟨rfl, rfl⟩

/-- External modules get other names, and are otherwise as before. -/
theorem external?_deconflict (graph : Graph) (statements : List Address) (id : Nat) :
    ((deconflict ⟨graph, .empty⟩ statements).1.graph.external? id).map (·.rename "") =
      (graph.external? id).map (·.rename "") := by
  rw [deconflict_eq, settleConflicts_eq, external?_foldl_apply,
    Graph.external?_withPreferredNames, Option.map_map, Option.map_map]
  refine congrArg (Option.map · _) (funext fun external => ?_)
  rw [Function.comp_apply, Function.comp_apply]
  generalize Conflict.renamings _ = renamings
  -- whatever it is renamed to, the rest of it stays
  have hsame : ∀ kept : External, kept.rename "" = external.rename "" →
      (renamings.foldl (fun kept entry =>
        if entry.1.owner = .external id then external.rename entry.2 else kept) kept).rename "" =
          external.rename "" := by
    induction renamings with
    | nil => exact fun _ h => h
    | cons first rest ih =>
        intro kept hkept
        rw [List.foldl_cons]
        refine ih _ ?_
        split
        · rfl
        · exact hkept
  exact hsame _ rfl

end NamedGraph

end ScriptBundler
