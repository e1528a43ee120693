import ScriptBundler.Proofs.Builds
import ScriptBundler.Proofs.Graph.Claims

/-!
# Top-level bindings

What a bundle binds at its top level, and under which names.  The resolution of conflicts names
apart all that claims a name.  Two kinds of bindings stand outside of it: the default export that is
taken out of an external module claims no name, and a name that a module declares but also imports
is printed as what the import means.
-/

namespace ScriptBundler

open Files ScriptBundler.Module

/-- A binding at the top level of a bundle. -/
inductive Binding where
  /-- A name that statements of a module define. -/
  | declared (id : Nat) (name : String)
  /-- The variable for a default export without a name. -/
  | anonymousDefault (id : Nat)
  /-- The object for a module that is imported as a whole. -/
  | namespaceObject (id : Nat)
  /-- The variable for an external module. -/
  | external (id : Nat)
  /-- The variable for the default export of an external module of which more is used. -/
  | interop (id : Nat)
deriving DecidableEq

/-- The binding that a claim is made for. -/
def Claim.binding (claim : Claim) : Binding :=
  match claim.owner with
  | .module id => .declared id claim.name
  | .anonymousDefault id => .anonymousDefault id
  | .namespaceObject id => .namespaceObject id
  | .external id => .external id

namespace Bundle

/-- Whether a bundle has a binding at its top level. -/
@[reducible]
def Binds (bundle : Bundle) : Binding → Prop
  | .declared id name =>
      ∃ address ∈ bundle.statements, address.module = id ∧
        ∃ statement ∈ bundle.graph.statement? address, name ∈ statement.defines
  | .anonymousDefault id =>
      ∃ address ∈ bundle.statements, address.module = id ∧
        ∃ module ∈ bundle.graph.module? id, module.anonymousDefault? = some address.index
  | .namespaceObject id => id ∈ bundle.graph.namespaces
  | .external id => (bundle.graph.external? id).isSome
  | .interop id =>
      ∃ external ∈ bundle.graph.external? id,
        external.needsDefault = true ∧ external.needsNamed = true

/-- The name that a binding has in the text of a bundle. -/
def nameOf (bundle : Bundle) : Binding → String
  | .declared id name => (bundle.naming.canonicalName bundle.graph id name).1
  | .anonymousDefault id => (bundle.naming.canonicalName bundle.graph id "default").1
  | .namespaceObject id => (bundle.naming.canonicalName bundle.graph id "*").1
  | .external id => ((bundle.graph.external? id).map (·.name)).getD ""
  | .interop id => ((bundle.graph.external? id).map (·.defaultName)).getD ""

/-- Whether a module imports a name. -/
@[reducible]
def Imports (bundle : Bundle) (id : Nat) (name : String) : Prop :=
  ∃ module ∈ bundle.graph.module? id, (module.imports.get? name).isSome

/-- Whether a binding is printed under the name that its claim has been assigned. -/
@[reducible]
def Plain (bundle : Bundle) : Binding → Prop
  -- `default` and `*` are asked for as the default export and the whole module
  | .declared id name => name ≠ "default" ∧ name ≠ "*" ∧ ¬ bundle.Imports id name
  | .anonymousDefault id =>
      ¬ bundle.Imports id "default" ∧ ¬ bundle.Binds (.declared id "default")
  | .namespaceObject id => ¬ bundle.Binds (.declared id "*")
  | .external _ => True
  | .interop _ => False

instance (bundle : Bundle) : (binding : Binding) → Decidable (bundle.Binds binding)
  | .declared _ _ | .anonymousDefault _ | .namespaceObject _ | .external _ | .interop _ =>
      inferInstance

instance (bundle : Bundle) : (binding : Binding) → Decidable (bundle.Plain binding)
  | .declared _ _ | .anonymousDefault _ | .namespaceObject _ | .external _ | .interop _ =>
      inferInstance

variable {bundle : Bundle} {graph : Graph} {binding : Binding}

/-- Whether the names of a bundle are those that resolving the conflicts gives to a graph. -/
def Deconflicts (bundle : Bundle) (graph : Graph) : Prop :=
  (NamedGraph.deconflict ⟨graph, .empty⟩ bundle.statements).1 = ⟨bundle.graph, bundle.naming⟩

theorem Deconflicts.eq (hnamed : bundle.Deconflicts graph) :
    (NamedGraph.deconflict ⟨graph, .empty⟩ bundle.statements).1 = ⟨bundle.graph, bundle.naming⟩ :=
  hnamed

theorem Deconflicts.module? (hnamed : bundle.Deconflicts graph) (id : Nat) :
    bundle.graph.module? id = graph.module? id := by
  obtain ⟨hmodules, -⟩ := NamedGraph.modules_deconflict graph bundle.statements
  rw [hnamed.eq] at hmodules
  exact congrArg (·[id]?) hmodules

theorem Deconflicts.statement? (hnamed : bundle.Deconflicts graph) (address : Address) :
    bundle.graph.statement? address = graph.statement? address := by
  unfold Graph.statement?
  rw [hnamed.module?]

theorem Deconflicts.namespaces (hnamed : bundle.Deconflicts graph) :
    bundle.graph.namespaces = graph.namespaces := by
  obtain ⟨-, hnamespaces⟩ := NamedGraph.modules_deconflict graph bundle.statements
  rw [hnamed.eq] at hnamespaces
  exact hnamespaces

theorem Deconflicts.isSome_external? (hnamed : bundle.Deconflicts graph) (id : Nat) :
    (bundle.graph.external? id).isSome = (graph.external? id).isSome := by
  have hrenamed := NamedGraph.external?_deconflict graph bundle.statements id
  rw [hnamed.eq] at hrenamed
  have hisSome := congrArg Option.isSome hrenamed
  rwa [Option.isSome_map, Option.isSome_map] at hisSome

/-- All bindings but those of default exports of external modules have a claim. -/
theorem exists_claim (hnamed : bundle.Deconflicts graph) (hbinds : bundle.Binds binding)
    (hclaimed : ∀ id, binding ≠ .interop id) :
    ∃ claim ∈ graph.claims bundle.statements, claim.binding = binding := by
  cases binding with
  | declared id name =>
      obtain ⟨address, haddress, hid, statement, hstatement, hname⟩ := hbinds
      rw [hnamed.statement?] at hstatement
      exact ⟨⟨name, .module id⟩,
        Graph.mem_claims_module.mpr ⟨address, haddress, hid, statement, hstatement, hname⟩, rfl⟩
  | anonymousDefault id =>
      obtain ⟨address, haddress, hid, module, hmodule, hdefault⟩ := hbinds
      rw [hnamed.module?] at hmodule
      exact ⟨⟨module.anonymousDefaultName, .anonymousDefault id⟩,
        Graph.mem_claims_anonymousDefault.mpr
          ⟨address, haddress, hid, module, hmodule, hdefault, rfl⟩, rfl⟩
  | namespaceObject id =>
      have hid : id ∈ graph.namespaces := hnamed.namespaces ▸ hbinds
      obtain ⟨name, hname⟩ := Graph.namespaceClaims_settles .empty hid
      exact ⟨⟨name, .namespaceObject id⟩, Graph.mem_claims_namespaceObject.mpr ⟨hid, hname⟩, rfl⟩
  | external id =>
      obtain ⟨external, hexternal⟩ :=
        Option.isSome_iff_exists.mp ((hnamed.isSome_external? id).symm.trans hbinds)
      exact ⟨⟨external.preferredName, .external id⟩,
        Graph.mem_claims_external.mpr ⟨external, hexternal, rfl⟩, rfl⟩
  | interop id => exact absurd rfl (hclaimed id)

/-- A name that a module does not define is not claimed for it. -/
theorem Deconflicts.not_mem_claims (hnamed : bundle.Deconflicts graph) {id : Nat} {name : String}
    (hunbound : ¬ bundle.Binds (.declared id name)) :
    ⟨name, .module id⟩ ∉ graph.claims bundle.statements := by
  intro hmem
  obtain ⟨address, haddress, hid, statement, hstatement, hname⟩ := Graph.mem_claims_module.mp hmem
  rw [← hnamed.statement?] at hstatement
  exact hunbound ⟨address, haddress, hid, statement, hstatement, hname⟩

/-- No other claim goes where the claim of a plain binding goes. -/
theorem eq_of_place? (hnamed : bundle.Deconflicts graph) {claim other : Claim}
    (hclaim : claim ∈ graph.claims bundle.statements)
    (hother : other ∈ graph.claims bundle.statements) (hplain : bundle.Plain claim.binding)
    {place : Nat × String} (hplace : claim.place? = some place)
    (hsame : other.place? = some place) : other = claim := by
  rw [← hplace] at hsame
  -- the default export and the whole module go where `default` and `*` go, and no plain declaration
  -- is called so
  obtain ⟨name, owner⟩ := claim
  obtain ⟨name', owner'⟩ := other
  cases owner with
  | module id =>
      obtain ⟨hdefault, hstar, -⟩ := hplain
      cases owner' with
      | module id' =>
          obtain ⟨rfl, rfl⟩ := Prod.mk.inj (Option.some.inj hsame)
          rfl
      | anonymousDefault id' =>
          obtain ⟨-, heq⟩ := Prod.mk.inj (Option.some.inj hsame)
          exact absurd heq.symm hdefault
      | namespaceObject id' =>
          obtain ⟨-, heq⟩ := Prod.mk.inj (Option.some.inj hsame)
          exact absurd heq.symm hstar
      | external id' => contradiction
  | anonymousDefault id =>
      obtain ⟨-, hunbound⟩ := hplain
      cases owner' with
      | module id' =>
          obtain ⟨rfl, rfl⟩ := Prod.mk.inj (Option.some.inj hsame)
          exact absurd hother (hnamed.not_mem_claims hunbound)
      | anonymousDefault id' =>
          obtain ⟨rfl, -⟩ := Prod.mk.inj (Option.some.inj hsame)
          obtain ⟨_, -, -, module, hmodule, -, rfl⟩ := Graph.mem_claims_anonymousDefault.mp hclaim
          obtain ⟨_, -, -, module', hmodule', -, rfl⟩ := Graph.mem_claims_anonymousDefault.mp hother
          rw [Option.mem_unique hmodule hmodule']
      | namespaceObject id' =>
          obtain ⟨-, heq⟩ := Prod.mk.inj (Option.some.inj hsame)
          exact absurd heq (by decide)
      | external id' => contradiction
  | namespaceObject id =>
      cases owner' with
      | module id' =>
          obtain ⟨rfl, rfl⟩ := Prod.mk.inj (Option.some.inj hsame)
          exact absurd hother (hnamed.not_mem_claims hplain)
      | anonymousDefault id' =>
          obtain ⟨-, heq⟩ := Prod.mk.inj (Option.some.inj hsame)
          exact absurd heq (by decide)
      | namespaceObject id' =>
          obtain ⟨rfl, -⟩ := Prod.mk.inj (Option.some.inj hsame)
          obtain ⟨-, hname⟩ := Graph.mem_claims_namespaceObject.mp hclaim
          obtain ⟨-, hname'⟩ := Graph.mem_claims_namespaceObject.mp hother
          rw [Option.some.inj (hname.symm.trans hname')]
      | external id' => contradiction
  | external id => contradiction

open Conflict in
/-- The place of a plain binding's claim ends with the name that the claim is assigned, unless that
is the claimed name, and nothing has been asked for there since the objects were named. -/
theorem get?_place (hnamed : bundle.Deconflicts graph) {claim : Claim}
    (hclaim : claim ∈ graph.claims bundle.statements) (hplain : bundle.Plain claim.binding)
    {id : Nat} {key : String} (hplace : claim.place? = some (id, key)) :
    bundle.naming.get? id key =
        some (assigned (ofClaims (graph.claims bundle.statements)) claim) ∨
      assigned (ofClaims (graph.claims bundle.statements)) claim = claim.name ∧
        bundle.naming.get? id key =
          (graph.namespaceClaims graph.namespaces .empty).2.get? id key := by
  have hget := NamedGraph.get?_settleConflicts
    ⟨graph.withPreferredNames, (graph.namespaceClaims graph.namespaces .empty).2⟩ hclaim hplace
    fun other hother hsame => eq_of_place? hnamed hclaim hother hplain hplace hsame
  rwa [← NamedGraph.deconflict_eq, hnamed.eq] at hget

theorem get?_imports_eq_none {id : Nat} {name : String} {module : Module}
    (hmodule : module ∈ bundle.graph.module? id) (himports : ¬ bundle.Imports id name) :
    module.imports.get? name = none := by
  by_contra himported
  exact himports ⟨module, hmodule, Option.isSome_iff_ne_none.mpr himported⟩

open Conflict in
/-- A plain binding is printed under the name that its claim is assigned. -/
theorem nameOf_binding (hnamed : bundle.Deconflicts graph) {claim : Claim}
    (hclaim : claim ∈ graph.claims bundle.statements) (hplain : bundle.Plain claim.binding) :
    bundle.nameOf claim.binding = assigned (ofClaims (graph.claims bundle.statements)) claim := by
  obtain ⟨-, hothers, -⟩ := graph.namespaceClaims_spec graph.namespaces .empty
  obtain ⟨name, owner⟩ := claim
  cases owner with
  | module id =>
      have ⟨hdefault, hstar, himports⟩ := hplain
      obtain ⟨address, -, hid, statement, hstatement, -⟩ := Graph.mem_claims_module.mp hclaim
      rw [← hnamed.statement?] at hstatement
      obtain ⟨module, hmodule, -⟩ := Option.bind_eq_some_iff.mp hstatement
      rw [hid] at hmodule
      rcases get?_place hnamed hclaim hplain rfl with hget | ⟨hkept, hget⟩
      · exact congrArg Prod.fst (Naming.canonicalName_of_settled hget)
      -- a name that is neither settled nor imported means itself
      · rw [hothers id name hstar] at hget
        have hown := get?_imports_eq_none hmodule himports
        have hmeaning := Graph.meaning_own hmodule hstar hown hdefault
        rw [hkept]
        exact congrArg Prod.fst (Naming.canonicalName_of_here hget hmeaning)
  | anonymousDefault id =>
      have ⟨himports, _⟩ := hplain
      obtain ⟨address, -, -, module, hmodule, hanonymous, rfl⟩ :=
        Graph.mem_claims_anonymousDefault.mp hclaim
      rw [← hnamed.module?] at hmodule
      rcases get?_place hnamed hclaim hplain rfl with hget | ⟨hkept, hget⟩
      · exact congrArg Prod.fst (Naming.canonicalName_of_settled hget)
      · rw [hothers id "default" (by decide)] at hget
        have hown := get?_imports_eq_none hmodule himports
        have hmeaning := Graph.meaning_anonymousDefault hmodule hown hanonymous
        rw [hkept]
        exact congrArg Prod.fst (Naming.canonicalName_of_here hget hmeaning)
  | namespaceObject id =>
      -- claiming the name of an object has settled it
      obtain ⟨-, hname⟩ := Graph.mem_claims_namespaceObject.mp hclaim
      rcases get?_place hnamed hclaim hplain rfl with hget | ⟨hkept, hget⟩
      · exact congrArg Prod.fst (Naming.canonicalName_of_settled hget)
      · rw [hname] at hget
        rw [hkept]
        exact congrArg Prod.fst (Naming.canonicalName_of_settled hget)
  | external id =>
      obtain ⟨external, hexternal, rfl⟩ := Graph.mem_claims_external.mp hclaim
      have hpreferred : graph.withPreferredNames.external? id =
          some (external.rename external.preferredName) := by
        rw [Graph.external?_withPreferredNames, hexternal]
        rfl
      obtain ⟨later, hlater, hname⟩ := NamedGraph.external?_settleConflicts
        ⟨graph.withPreferredNames, (graph.namespaceClaims graph.namespaces .empty).2⟩ hclaim rfl
        (fun other hother howner => by
          obtain ⟨name', owner'⟩ := other
          obtain rfl : owner' = .external id := howner
          obtain ⟨external', hexternal', rfl⟩ := Graph.mem_claims_external.mp hother
          rw [Option.mem_unique hexternal hexternal'])
        hpreferred rfl
      rw [← NamedGraph.deconflict_eq, hnamed.eq] at hlater
      rw [← hname]
      exact congrArg (fun found : Option External => (found.map (·.name)).getD "") hlater

/-- Plain bindings that are printed under one name are the same. -/
theorem nameOf_injective (hnamed : bundle.Deconflicts graph) {first second : Binding}
    (hfirst : bundle.Binds first) (hsecond : bundle.Binds second) (hplain : bundle.Plain first)
    (hplain' : bundle.Plain second) (heq : bundle.nameOf first = bundle.nameOf second) :
    first = second := by
  have hclaimed : ∀ binding, bundle.Plain binding → ∀ id, binding ≠ .interop id := by
    rintro _ hodd id rfl
    exact hodd
  obtain ⟨claim, hclaim, rfl⟩ := exists_claim hnamed hfirst (hclaimed _ hplain)
  obtain ⟨claim', hclaim', rfl⟩ := exists_claim hnamed hsecond (hclaimed _ hplain')
  rw [nameOf_binding hnamed hclaim hplain, nameOf_binding hnamed hclaim' hplain'] at heq
  rw [Conflict.assigned_injective hclaim hclaim' heq]

/-- Whether all bindings of a bundle have different names. -/
def NamesApart (bundle : Bundle) : Prop :=
  ∀ first second, bundle.Binds first → bundle.Binds second →
    bundle.nameOf first = bundle.nameOf second → first = second

/-- Whether the bindings of a bundle that are not plain share their names with no others. -/
def OthersApart (bundle : Bundle) : Prop :=
  ∀ first second, bundle.Binds first → bundle.Binds second → ¬ bundle.Plain first →
    bundle.nameOf first = bundle.nameOf second → first = second

/-- The plain bindings of a bundle that has been built have different names, so that all bindings
have different names exactly if those that are not plain happen to. -/
theorem namesApart_iff_othersApart {disk : Disk} {entry : Path} {log later : List Log.Entry}
    (hbuild : (build disk entry).run log = .ok bundle later) :
    (∀ first second, bundle.Binds first → bundle.Binds second → bundle.Plain first →
      bundle.Plain second → bundle.nameOf first = bundle.nameOf second → first = second) ∧
    (bundle.NamesApart ↔ bundle.OthersApart) := by
  obtain ⟨_, graph, -, -, -, -, hnamed⟩ := build_ok hbuild
  have happly : ∀ first second, bundle.Binds first → bundle.Binds second → bundle.Plain first →
      bundle.Plain second → bundle.nameOf first = bundle.nameOf second → first = second :=
    fun _ _ => nameOf_injective hnamed
  refine ⟨happly, fun hall first second hfirst hsecond _ => hall first second hfirst hsecond,
    fun hothers first second hfirst hsecond heq => ?_⟩
  -- if one of the two is not plain, the condition decides
  by_cases hplain : bundle.Plain first
  · by_cases hplain' : bundle.Plain second
    · exact happly first second hfirst hsecond hplain hplain' heq
    · exact (hothers second first hsecond hfirst hplain' heq.symm).symm
  · exact hothers first second hfirst hsecond hplain heq

/-- Two modules that declare one name. -/
def rivalDisk : Disk where
  workingDirectory := []
  files :=
    [(["main.js"], .text "import \x7b x as y \x7d from './lib';\nexport var x = y;\n".toList),
      (["lib.js"], .text "export var x = 1;\n".toList)]
  directories := []

theorem namesApart_rivalDisk : ∃ bundle log,
    (build rivalDisk ⟨"main.js"⟩).run [] = .ok bundle log ∧
      bundle.nameOf (.declared 0 "x") ≠ bundle.nameOf (.declared 1 "x") := by
  obtain ⟨bundle, log, hbuild, hcheck⟩ := exists_of_passes rivalDisk ⟨"main.js"⟩
    (fun bundle => decide
      ((bundle.Binds (.declared 0 "x") ∧ bundle.Plain (.declared 0 "x")) ∧
        bundle.Binds (.declared 1 "x") ∧ bundle.Plain (.declared 1 "x")))
    (by decide +kernel)
  obtain ⟨⟨hfirst, hplain⟩, hsecond, hplain'⟩ := of_decide_eq_true hcheck
  refine ⟨bundle, log, hbuild, fun heq => ?_⟩
  have hsame := (namesApart_iff_othersApart hbuild).1 _ _ hfirst hsecond hplain hplain' heq
  exact absurd hsame (by decide)

/-- A module that declares the name under which the default export of an external module is taken
out of it. -/
def interopDisk : Disk where
  workingDirectory := []
  files :=
    [(["main.js"], .text
      ("import d, \x7b join \x7d from 'path';\nvar d__default = 1;\n" ++
        "export var r = [d(join), d__default];\n").toList)]
  directories := []

theorem not_namesApart_interopDisk : ∃ bundle log,
    (build interopDisk ⟨"main.js"⟩).run [] = .ok bundle log ∧ ¬ bundle.NamesApart := by
  obtain ⟨bundle, log, hbuild, hcheck⟩ := exists_of_passes interopDisk ⟨"main.js"⟩
    (fun bundle => decide
      (bundle.Binds (.interop 0) ∧ bundle.Binds (.declared 0 "d__default") ∧
        bundle.nameOf (.interop 0) = bundle.nameOf (.declared 0 "d__default")))
    (by decide +kernel)
  obtain ⟨hfirst, hsecond, heq⟩ := of_decide_eq_true hcheck
  exact ⟨bundle, log, hbuild, fun hall => absurd (hall _ _ hfirst hsecond heq) (by decide)⟩

end Bundle
end ScriptBundler
