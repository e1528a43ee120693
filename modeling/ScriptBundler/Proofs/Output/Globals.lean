import ScriptBundler.Proofs.Graph.Crowding
import ScriptBundler.Proofs.Graph.Resolution
import ScriptBundler.Proofs.Output.Bindings

/-!
# Globals

Which globals of the environment a bundle hides.  A module refers to a global by a name that it
neither imports nor declares.  No such name is claimed for the module, and resolving the conflicts
looks at claims alone: so a binding of the bundle is called like the global if some other owner
claims the name, or if the claims to names with fewer `_` in front overflow into it, and not
otherwise.
-/

namespace ScriptBundler

open Files ScriptBundler.Module Conflict

namespace Graph

variable {graph other : Graph}

/-- The names of whole modules depend on the modules alone. -/
theorem namespaceClaims_of_modules_eq (hmodules : other.modules = graph.modules) (ids : List Nat)
    (naming : Naming) : other.namespaceClaims ids naming = graph.namespaceClaims ids naming := by
  have hmodule : ∀ id, other.module? id = graph.module? id := fun id => congrArg (·[id]?) hmodules
  have hmeaning : ∀ id, other.meaning id "*" = graph.meaning id "*" := by
    intro id
    simp only [meaning, hmodule, beq_self_eq_true, if_true]
  have hbound : other.chainBound = graph.chainBound := by
    unfold chainBound
    rw [hmodules]
  have hname : ∀ naming : Naming, ∀ id,
      naming.canonicalName other id "*" = naming.canonicalName graph id "*" := by
    intro naming id
    obtain ⟨text, hhere⟩ := graph.meaning_star id
    cases hget : naming.get? id "*" with
    | some canonical =>
        rw [Naming.canonicalName_of_settled hget, Naming.canonicalName_of_settled hget]
    | none =>
        rw [Naming.canonicalName_of_here hget hhere,
          Naming.canonicalName_of_here hget ((hmeaning id).trans hhere)]
  induction ids generalizing naming with
  | nil => rfl
  | cons first rest ih => simp only [namespaceClaims, hname, ih]

end Graph

namespace Bundle

/-- The claims to the top level of a bundle. -/
def claims (bundle : Bundle) : List Claim :=
  bundle.graph.claims bundle.statements

/-- Whether a module refers to a global of the environment in a statement that the bundle holds. -/
@[reducible]
def Global (bundle : Bundle) (id : Nat) (name : String) : Prop :=
  (∃ address ∈ bundle.statements, address.module = id ∧
    ∃ statement ∈ bundle.graph.statement? address, name ∈ statement.dependsOn) ∧
  ¬ bundle.Imports id name ∧
  ∀ module ∈ bundle.graph.module? id, ∀ statement ∈ module.statements, name ∉ statement.defines

/-- Whether no binding of a bundle is called like a global that one of its modules refers to. -/
def GlobalsApart (bundle : Bundle) : Prop :=
  ∀ id name, bundle.Global id name → ∀ binding, bundle.Binds binding → bundle.nameOf binding ≠ name

/-- Whether a name is taken from a module that does not declare it: some other owner claims it, or
it is made up for one of the claims to names with fewer `_` in front. -/
def Takes (bundle : Bundle) (id : Nat) (name : String) : Prop :=
  (∃ claim ∈ bundle.claims, claim.name = name ∧ claim.owner ≠ .module id) ∨
    Crowded bundle.claims name

variable {bundle : Bundle} {graph : Graph}

/-- Resolving conflicts does not change what is claimed. -/
theorem Deconflicts.claims_eq (hnamed : bundle.Deconflicts graph) :
    bundle.claims = graph.claims bundle.statements := by
  have hmodules : bundle.graph.modules = graph.modules := by
    obtain ⟨hmodules, -⟩ := NamedGraph.modules_deconflict graph bundle.statements
    rwa [hnamed.eq] at hmodules
  have hexternal : ∀ id, (bundle.graph.external? id).map (·.preferredName) =
      (graph.external? id).map (·.preferredName) := by
    intro id
    have hrenamed := NamedGraph.external?_deconflict_eq graph bundle.statements id
    rw [hnamed.eq] at hrenamed
    rw [hrenamed, Option.map_map]
    rfl
  have hobjects : bundle.graph.namespaceClaims bundle.graph.namespaces .empty =
      graph.namespaceClaims graph.namespaces .empty := by
    rw [hnamed.namespaces, Graph.namespaceClaims_of_modules_eq hmodules]
  have hstatements : bundle.graph.statementClaims = graph.statementClaims := by
    funext address
    unfold Graph.statementClaims
    rw [hnamed.module?]
  have hexternals : bundle.graph.externalClaims = graph.externalClaims := by
    refine List.ext_getElem? fun id => ?_
    have hclaim := congrArg (Option.map fun name => (⟨name, .external id⟩ : Claim)) (hexternal id)
    unfold Graph.external? at hclaim
    simpa [Graph.externalClaims, List.getElem?_zipIdx, Function.comp_def] using hclaim
  unfold claims Graph.claims
  rw [hobjects, hstatements, hexternals]

/-- The bundle binds what is claimed. -/
theorem Deconflicts.binds (hnamed : bundle.Deconflicts graph) {claim : Claim}
    (hclaim : claim ∈ graph.claims bundle.statements) : bundle.Binds claim.binding := by
  obtain ⟨name, owner⟩ := claim
  cases owner with
  | module id =>
      obtain ⟨address, haddress, hid, statement, hstatement, hname⟩ :=
        Graph.mem_claims_module.mp hclaim
      rw [← hnamed.statement?] at hstatement
      exact ⟨address, haddress, hid, statement, hstatement, hname⟩
  | anonymousDefault id =>
      obtain ⟨address, haddress, hid, module, hmodule, hdefault, -⟩ :=
        Graph.mem_claims_anonymousDefault.mp hclaim
      rw [← hnamed.module?] at hmodule
      exact ⟨address, haddress, hid, module, hmodule, hdefault⟩
  | namespaceObject id =>
      obtain ⟨hid, -⟩ := Graph.mem_claims_namespaceObject.mp hclaim
      have hsame := hnamed.namespaces
      rw [← hsame] at hid
      exact hid
  | external id =>
      obtain ⟨external, hexternal, -⟩ := Graph.mem_claims_external.mp hclaim
      exact (hnamed.isSome_external? id).trans (Option.isSome_of_mem hexternal)

/-- A module that declares a name nowhere does not claim it. -/
theorem Global.owner_ne {id : Nat} {name : String} (hglobal : bundle.Global id name)
    {claim : Claim} (hclaim : claim ∈ bundle.claims) (hname : claim.name = name) :
    claim.owner ≠ .module id := by
  obtain ⟨claimed, owner⟩ := claim
  rintro rfl
  obtain ⟨address, -, rfl, statement, hstatement, hdefines⟩ := Graph.mem_claims_module.mp hclaim
  obtain ⟨module, hmodule, hget⟩ := Option.bind_eq_some_iff.mp hstatement
  have hundeclared := hglobal.2.2 module hmodule statement (List.mem_of_getElem? hget)
  exact hundeclared (hname ▸ hdefines)

/-- A plain binding of a bundle that has been built is called like a global only if the name is
taken from the module that refers to the global; and a name that is taken is the final name of a
claim, so that its binding is called like the global if it is plain. -/
theorem global_taken_iff {disk : Disk} {entry : Path} {log later : List Log.Entry}
    (hbuild : (build disk entry).run log = .ok bundle later) {id : Nat} {name : String}
    (hglobal : bundle.Global id name) :
    (∀ binding, bundle.Binds binding → bundle.Plain binding → bundle.nameOf binding = name →
      bundle.Takes id name) ∧
    (bundle.Takes id name → ∃ claim ∈ bundle.claims, bundle.Binds claim.binding ∧
      bundle.graph.finalName bundle.statements claim = name ∧
      (bundle.Plain claim.binding → bundle.nameOf claim.binding = name)) := by
  obtain ⟨_, graph, -, -, -, -, hnamed⟩ := build_ok hbuild
  have hnamed : bundle.Deconflicts graph := hnamed
  have hclaims := hnamed.claims_eq
  have hfinal : ∀ claim, bundle.graph.finalName bundle.statements claim =
      assigned (ofClaims (graph.claims bundle.statements)) claim := by
    intro claim
    rw [← hclaims]
    rfl
  constructor
  · intro binding hbinds hplain hname
    have hclaimed : ∀ id, binding ≠ .interop id := by
      rintro id rfl
      exact hplain
    obtain ⟨claim, hclaim, rfl⟩ := exists_claim hnamed hbinds hclaimed
    have hassigned := (nameOf_binding hnamed hclaim hplain).symm.trans hname
    have htaken := exists_assigned_eq_iff.mp ⟨claim, hclaim, hassigned⟩
    rw [← hclaims] at htaken
    refine htaken.imp_left ?_
    rintro ⟨other, hother, hsame⟩
    exact ⟨other, hother, hsame, hglobal.owner_ne hother hsame⟩
  · intro htaken
    have hsome : ∃ claim ∈ bundle.claims, assigned (ofClaims bundle.claims) claim = name := by
      refine exists_assigned_eq_iff.mpr (htaken.imp_left ?_)
      rintro ⟨claim, hclaim, hsame, -⟩
      exact ⟨claim, hclaim, hsame⟩
    rw [hclaims] at hsome
    obtain ⟨claim, hclaim, hassigned⟩ := hsome
    refine ⟨claim, hclaims ▸ hclaim, hnamed.binds hclaim, (hfinal claim).trans hassigned, ?_⟩
    intro hplain
    exact (nameOf_binding hnamed hclaim hplain).trans hassigned

/-- A module that refers to two globals: the one is declared by the module that it imports, and the
other one is made up for the name that both modules declare. -/
def hiddenDisk : Disk where
  workingDirectory := []
  files :=
    [(["main.js"], .text
        "import \x7b x as y \x7d from './lib';\nexport var x = [y, console, _x];\n".toList),
      (["lib.js"], .text "export var x = 1, console = 2;\n".toList)]
  directories := []

theorem global_taken_hiddenDisk : ∃ bundle log,
    (build hiddenDisk ⟨"main.js"⟩).run [] = .ok bundle log ∧
      bundle.Takes 0 "console" ∧ bundle.Takes 0 "_x" := by
  obtain ⟨bundle, log, hbuild, hcheck⟩ := exists_of_passes hiddenDisk ⟨"main.js"⟩
    (fun bundle => decide ((bundle.Global 0 "console" ∧ bundle.Global 0 "_x") ∧
      (bundle.Binds (.declared 1 "console") ∧ bundle.Plain (.declared 1 "console") ∧
        bundle.nameOf (.declared 1 "console") = "console") ∧
      (bundle.Binds (.declared 1 "x") ∧ bundle.Plain (.declared 1 "x") ∧
        bundle.nameOf (.declared 1 "x") = "_x")))
    (by decide +kernel)
  obtain ⟨⟨hdeclared, hmade⟩, ⟨hfirst, hplain, hname⟩, hsecond, hplain', hname'⟩ :=
    of_decide_eq_true hcheck
  exact ⟨bundle, log, hbuild, (global_taken_iff hbuild hdeclared).1 _ hfirst hplain hname,
    (global_taken_iff hbuild hmade).1 _ hsecond hplain' hname'⟩

/-- The declaration of `console` in the one module hides the global from the other one. -/
theorem not_globalsApart_hiddenDisk : ∃ bundle log,
    (build hiddenDisk ⟨"main.js"⟩).run [] = .ok bundle log ∧ ¬ bundle.GlobalsApart := by
  obtain ⟨bundle, log, hbuild, hcheck⟩ := exists_of_passes hiddenDisk ⟨"main.js"⟩
    (fun bundle => decide (bundle.Global 0 "console" ∧ bundle.Binds (.declared 1 "console") ∧
      bundle.nameOf (.declared 1 "console") = "console"))
    (by decide +kernel)
  obtain ⟨hglobal, hbinds, hname⟩ := of_decide_eq_true hcheck
  exact ⟨bundle, log, hbuild, fun hall => hall 0 "console" hglobal _ hbinds hname⟩

end Bundle
end ScriptBundler
