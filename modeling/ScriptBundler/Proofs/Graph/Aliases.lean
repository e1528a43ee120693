import Mathlib.Data.List.Perm.Subperm
import Mathlib.Logic.Relation
import ScriptBundler.Proofs.Graph.Settling
import ScriptBundler.Proofs.Tables

/-!
# Aliases

A name that means the same as another name is an alias of it, and the aliases make up chains.  If no
chain runs in a circle, every chain ends within the bound that canonical names are looked up with:
only imported names and default exports are aliases, and the bound counts all of them.

A canonical name is then determined by the names that the resolution of conflicts has settled.  What
is settled by asking is a cache: it never changes an answer.
-/

namespace ScriptBundler
namespace Graph

open ScriptBundler.Module

variable {graph : Graph} {id : Nat} {name : String}

/-- A name of a module means the same as another one, which is the next one of its chain. -/
def Alias (graph : Graph) (place next : Nat × String) : Prop :=
  graph.meaning place.1 place.2 = .elsewhere next.1 next.2

/-- No chain of aliases runs in a circle. -/
def AcyclicAliases (graph : Graph) : Prop :=
  ∀ place, ¬ Relation.TransGen graph.Alias place place

/-- Whether the chain of a name ends within so many names, at one that is bound where it is. -/
def endsWithin (graph : Graph) : Nat → Nat → String → Bool
  | 0, _, _ => false
  | steps + 1, id, name =>
    match graph.meaning id name with
    | .here _ => true
    | .elsewhere other exported => graph.endsWithin steps other exported

theorem endsWithin_of_here {text : String} (hmeaning : graph.meaning id name = .here text)
    (steps : Nat) : graph.endsWithin (steps + 1) id name = true := by
  simp [endsWithin, hmeaning]

theorem endsWithin_of_elsewhere {other : Nat} {exported : String}
    (hmeaning : graph.meaning id name = .elsewhere other exported) (steps : Nat) :
    graph.endsWithin (steps + 1) id name = graph.endsWithin steps other exported := by
  simp [endsWithin, hmeaning]

/-- A chain that ends does not come back to where it starts. -/
theorem not_transGen_of_endsWithin {steps : Nat} {place : Nat × String}
    (hends : graph.endsWithin steps place.1 place.2 = true) :
    ¬ Relation.TransGen graph.Alias place place := by
  induction steps generalizing place with
  | zero => exact absurd hends (by simp [endsWithin])
  | succ steps ih =>
      intro hcircle
      obtain ⟨next, halias, hback⟩ := Relation.TransGen.head'_iff.mp hcircle
      rw [endsWithin_of_elsewhere halias] at hends
      -- the next name lies on the same circle
      exact ih hends (.tail' hback halias)

/-- The names that can be aliases. -/
def aliasPlaces (graph : Graph) : List (Nat × String) :=
  graph.modules.zipIdx.flatMap fun (module, id) =>
    (id, "default") :: module.imports.map fun entry => (id, entry.1)

theorem mem_aliasPlaces {place next : Nat × String} (halias : graph.Alias place next) :
    place ∈ graph.aliasPlaces := by
  obtain ⟨id, name⟩ := place
  unfold Alias meaning at halias
  cases hmodule : graph.module? id with
  | none => simp [hmodule] at halias
  | some module =>
      refine List.mem_flatMap.mpr
        ⟨(module, id), List.mem_zipIdx_iff_getElem?.mpr hmodule, List.mem_cons.mpr ?_⟩
      by_cases hdefault : name = "default"
      · exact Or.inl (by rw [hdefault])
      · refine Or.inr ?_
        cases himport : module.imports.get? name with
        | none =>
            have hdefault' : (name == "default") = false := by simpa using hdefault
            simp only [hmodule, himport, hdefault'] at halias
            split at halias <;> simp at halias
        | some entry =>
            exact List.mem_map.mpr ⟨(name, entry), Table.mem_of_get? himport, rfl⟩

theorem length_flatMap_eq_total {α β : Type} (f : α → List β) (items : List α) :
    (items.flatMap f).length = total (items.map fun item => (f item).length) := by
  induction items with
  | nil => rfl
  | cons item rest ih => rw [List.flatMap_cons, List.length_append, ih, List.map_cons, total]

theorem length_aliasPlaces_lt (graph : Graph) : graph.aliasPlaces.length < graph.chainBound := by
  have hlength : graph.aliasPlaces.length =
      total (graph.modules.map fun module => module.imports.length + 1) := by
    rw [aliasPlaces, length_flatMap_eq_total]
    conv_rhs => rw [← List.zipIdx_map_fst 0 graph.modules, List.map_map]
    simp [Function.comp_def]
  have hle : ∀ modules : List Module,
      total (modules.map fun module => module.imports.length + 1) ≤
        total (modules.map fun module => module.imports.length + 2) := by
    intro modules
    induction modules with
    | nil => exact Nat.le_refl _
    | cons module rest ih => simp only [List.map_cons, total]; omega
  have := hle graph.modules
  unfold chainBound
  omega

/-- A chain on which nothing runs in circles ends while there are names left that it has not
passed. -/
theorem endsWithin_of_seen {steps : Nat} (seen : List (Nat × String)) (place : Nat × String)
    (hfree : ∀ other, Relation.ReflTransGen graph.Alias place other →
      ¬ Relation.TransGen graph.Alias other other)
    (hnodup : seen.Nodup)
    (hseen : ∀ other ∈ seen, other ∈ graph.aliasPlaces ∧
      Relation.TransGen graph.Alias other place)
    (hsteps : graph.aliasPlaces.length < seen.length + steps) :
    graph.endsWithin steps place.1 place.2 = true := by
  induction steps generalizing seen place with
  | zero =>
      have hsub : seen ⊆ graph.aliasPlaces := fun other hother => (hseen other hother).1
      have := (hnodup.subperm hsub).length_le
      omega
  | succ steps ih =>
      cases hmeaning : graph.meaning place.1 place.2 with
      | here text => exact endsWithin_of_here hmeaning steps
      | elsewhere other exported =>
          have halias : graph.Alias place (other, exported) := hmeaning
          rw [endsWithin_of_elsewhere hmeaning]
          refine ih (place :: seen) (other, exported) ?_ ?_ ?_ ?_
          · exact fun later hlater => hfree later (.head halias hlater)
          · exact List.nodup_cons.mpr
              ⟨fun hmem => hfree place .refl (hseen place hmem).2, hnodup⟩
          · intro earlier hearlier
            rcases List.mem_cons.mp hearlier with rfl | hearlier
            · exact ⟨mem_aliasPlaces halias, .single halias⟩
            · exact ⟨(hseen earlier hearlier).1, (hseen earlier hearlier).2.tail halias⟩
          · simp only [List.length_cons]
            omega

/-- Without circles every chain ends within the bound. -/
theorem AcyclicAliases.endsWithin (hacyclic : graph.AcyclicAliases) (id : Nat) (name : String) :
    graph.endsWithin graph.chainBound id name = true :=
  endsWithin_of_seen [] (id, name) (fun other _ => hacyclic other) List.nodup_nil (by simp)
    (by simpa using graph.length_aliasPlaces_lt)

/-- A chain that ends does so within the bound. -/
theorem endsWithin_chainBound {steps : Nat} (hends : graph.endsWithin steps id name = true) :
    graph.endsWithin graph.chainBound id name = true := by
  have hlater : ∀ place other : Nat × String, Relation.ReflTransGen graph.Alias place other →
      ∀ steps, graph.endsWithin steps place.1 place.2 = true →
        ∃ steps, graph.endsWithin steps other.1 other.2 = true := by
    intro place other hreach
    induction hreach using Relation.ReflTransGen.head_induction_on with
    | refl => exact fun steps hends => ⟨steps, hends⟩
    | head halias _ ih =>
        intro steps hends
        cases steps with
        | zero => exact absurd hends (by simp [Graph.endsWithin])
        | succ steps =>
            rw [endsWithin_of_elsewhere halias] at hends
            exact ih steps hends
  refine endsWithin_of_seen [] (id, name) (fun other hreach => ?_) List.nodup_nil (by simp)
    (by simpa using graph.length_aliasPlaces_lt)
  obtain ⟨later, hends⟩ := hlater (id, name) other hreach steps hends
  exact not_transGen_of_endsWithin hends

/-- Circles are looked for among the finitely many names that can be aliases. -/
theorem acyclicAliases_iff : graph.AcyclicAliases ↔
    ∀ place ∈ graph.aliasPlaces, graph.endsWithin graph.chainBound place.1 place.2 = true := by
  constructor
  · exact fun hacyclic place _ => hacyclic.endsWithin place.1 place.2
  · intro hends place hcircle
    obtain ⟨next, halias, -⟩ := Relation.TransGen.head'_iff.mp hcircle
    exact not_transGen_of_endsWithin (hends place (mem_aliasPlaces halias)) hcircle

instance (graph : Graph) : Decidable graph.AcyclicAliases :=
  decidable_of_iff _ acyclicAliases_iff.symm

end Graph

namespace Naming

variable {graph : Graph} {base naming : Naming} {id : Nat} {name canonical : String}

/-- The canonical name of a name, if nothing more is settled than there is: the settled one, else
the text of what is bound where the name is, else that of the name that it is an alias of. -/
inductive Resolves (graph : Graph) (naming : Naming) : Nat → String → String → Prop where
  | settled {id : Nat} {name canonical : String} (hget : naming.get? id name = some canonical) :
      Resolves graph naming id name canonical
  | here {id : Nat} {name text : String} (hget : naming.get? id name = none)
      (hmeaning : graph.meaning id name = .here text) : Resolves graph naming id name text
  | elsewhere {id other : Nat} {name exported canonical : String}
      (hget : naming.get? id name = none)
      (hmeaning : graph.meaning id name = .elsewhere other exported)
      (hnext : Resolves graph naming other exported canonical) :
      Resolves graph naming id name canonical

theorem Resolves.unique {first second : String} (hfirst : naming.Resolves graph id name first)
    (hsecond : naming.Resolves graph id name second) : first = second := by
  induction hfirst with
  | settled hget =>
      cases hsecond with
      | settled hget' => exact Option.some.inj (hget.symm.trans hget')
      | here hget' => rw [hget] at hget'; contradiction
      | elsewhere hget' => rw [hget] at hget'; contradiction
  | here hget hmeaning =>
      cases hsecond with
      | settled hget' => rw [hget] at hget'; contradiction
      | here _ hmeaning' => exact Meaning.here.inj (hmeaning.symm.trans hmeaning')
      | elsewhere _ hmeaning' => rw [hmeaning] at hmeaning'; contradiction
  | elsewhere hget hmeaning _ ih =>
      cases hsecond with
      | settled hget' => rw [hget] at hget'; contradiction
      | here _ hmeaning' => rw [hmeaning] at hmeaning'; contradiction
      | elsewhere _ hmeaning' hnext =>
          obtain ⟨rfl, rfl⟩ := Meaning.elsewhere.inj (hmeaning.symm.trans hmeaning')
          exact ih hnext

/-- A naming that has been asked since an earlier one: what is settled in addition is what the
earlier one determines. -/
structure Caches (graph : Graph) (base naming : Naming) : Prop where
  keeps : base.Extends naming
  resolves : ∀ id name canonical,
    naming.get? id name = some canonical → base.Resolves graph id name canonical

theorem Caches.refl (graph : Graph) (base : Naming) : base.Caches graph base :=
  ⟨.refl base, fun _ _ _ hget => .settled hget⟩

/-- Settling what the earlier naming determines. -/
theorem Caches.settle (hcaches : base.Caches graph naming) (hget : base.get? id name = none)
    (hresolves : base.Resolves graph id name canonical) :
    base.Caches graph (naming.settle id name canonical) := by
  refine ⟨hcaches.keeps.settle hget canonical, fun other asked found hfound => ?_⟩
  rw [get?_settle] at hfound
  split at hfound
  · rename_i hsame
    obtain ⟨rfl, rfl⟩ := hsame
    obtain rfl := Option.some.inj hfound
    exact hresolves
  · exact hcaches.resolves other asked found hfound

/-- What has not been settled since was not settled before. -/
theorem Caches.get?_eq_none (hcaches : base.Caches graph naming)
    (hget : naming.get? id name = none) : base.get? id name = none := by
  cases hbase : base.get? id name with
  | none => rfl
  | some canonical =>
      rw [hcaches.keeps id name canonical hbase] at hget
      contradiction

/-- Following a chain to its end gives what the earlier naming determines, and settles nothing
else. -/
theorem Caches.follow (hcaches : base.Caches graph naming) {steps : Nat}
    (hends : graph.endsWithin steps id name = true) :
    base.Resolves graph id name (follow graph steps id name naming).1 ∧
      base.Caches graph (Naming.follow graph steps id name naming).2 := by
  induction steps generalizing id name with
  | zero => exact absurd hends (by simp [Graph.endsWithin])
  | succ steps ih =>
      rw [Naming.follow]
      cases hget : naming.get? id name with
      | some canonical => exact ⟨hcaches.resolves id name canonical hget, hcaches⟩
      | none =>
          have hbase := hcaches.get?_eq_none hget
          cases hmeaning : graph.meaning id name with
          | here text =>
              have hresolves : base.Resolves graph id name text := .here hbase hmeaning
              exact ⟨hresolves, hcaches.settle hbase hresolves⟩
          | elsewhere other exported =>
              rw [Graph.endsWithin_of_elsewhere hmeaning] at hends
              obtain ⟨hnext, hcached⟩ := ih hends
              have hresolves := Resolves.elsewhere hbase hmeaning hnext
              exact ⟨hresolves, hcached.settle hbase hresolves⟩

theorem Caches.canonicalName (hcaches : base.Caches graph naming)
    (hacyclic : graph.AcyclicAliases) (id : Nat) (name : String) :
    base.Resolves graph id name (naming.canonicalName graph id name).1 ∧
      base.Caches graph (naming.canonicalName graph id name).2 :=
  hcaches.follow (hacyclic.endsWithin id name)

/-- The canonical name of a name whose chain ends is determined. -/
theorem resolves_canonicalName (naming : Naming) {steps : Nat}
    (hends : graph.endsWithin steps id name = true) :
    naming.Resolves graph id name (naming.canonicalName graph id name).1 :=
  ((Caches.refl graph naming).follow (Graph.endsWithin_chainBound hends)).1

theorem Resolves.canonicalName_eq {steps : Nat} (hends : graph.endsWithin steps id name = true)
    (hresolves : naming.Resolves graph id name canonical) :
    (naming.canonicalName graph id name).1 = canonical :=
  (naming.resolves_canonicalName hends).unique hresolves

end Naming
end ScriptBundler
