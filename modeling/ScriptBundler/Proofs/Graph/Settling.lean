import ScriptBundler.Graph.Naming

/-!
# Settled names

Asking for a canonical name settles it, and a settled name stays as it is, whatever is asked for
afterwards.
-/

namespace ScriptBundler
namespace Naming

/-- A later naming in which everything is settled that was so earlier on, in the same way. -/
def Extends (before after : Naming) : Prop :=
  ∀ id name canonical, before.get? id name = some canonical → after.get? id name = some canonical

variable {naming before middle after : Naming} {graph : Graph} {id : Nat} {name : String}

theorem Extends.refl (naming : Naming) : naming.Extends naming :=
  fun _ _ _ h => h

theorem Extends.trans (hfirst : before.Extends middle) (hsecond : middle.Extends after) :
    before.Extends after :=
  fun id name canonical h => hsecond id name canonical (hfirst id name canonical h)

theorem get?_settle (naming : Naming) (id other : Nat) (name asked canonical : String) :
    (naming.settle id name canonical).get? other asked =
      if id = other ∧ name = asked then some canonical else naming.get? other asked := by
  unfold settle get?
  rw [List.lookup_cons]
  by_cases hsame : id = other ∧ name = asked
  · obtain ⟨rfl, rfl⟩ := hsame
    simp
  · have hkey : ((other, asked) == (id, name)) = false := by
      rw [beq_eq_false_iff_ne]
      rintro heq
      obtain ⟨rfl, rfl⟩ := Prod.mk.inj heq
      exact hsame ⟨rfl, rfl⟩
    rw [hkey, if_neg hsame]

/-- Settling a name that was not settled before. -/
theorem Extends.settle (hextends : before.Extends after) (hnone : before.get? id name = none)
    (canonical : String) : before.Extends (after.settle id name canonical) := by
  intro other asked found hfound
  rw [get?_settle]
  by_cases hsame : id = other ∧ name = asked
  · obtain ⟨rfl, rfl⟩ := hsame
    rw [hnone] at hfound
    contradiction
  · rw [if_neg hsame]
    exact hextends other asked found hfound

theorem follow_extends (graph : Graph) (steps id : Nat) (name : String) (naming : Naming) :
    naming.Extends (follow graph steps id name naming).2 := by
  induction steps generalizing id name naming with
  | zero => exact .refl naming
  | succ steps ih =>
      rw [follow]
      cases hget : naming.get? id name with
      | some canonical => exact .refl naming
      | none =>
          cases hmeaning : graph.meaning id name with
          | here text => exact (Extends.refl naming).settle hget text
          -- the chain may come back to this name; it is unsettled before the chain is followed
          | elsewhere other exported => exact (ih other exported naming).settle hget _

/-- Asking for a canonical name settles it. -/
theorem follow_settles (graph : Graph) (steps id : Nat) (name : String) (naming : Naming) :
    (follow graph (steps + 1) id name naming).2.get? id name =
      some (follow graph (steps + 1) id name naming).1 := by
  rw [follow]
  cases hget : naming.get? id name with
  | some canonical => exact hget
  | none => exact (get?_settle _ id id name name _).trans (if_pos ⟨rfl, rfl⟩)

theorem canonicalName_extends (naming : Naming) (graph : Graph) (id : Nat) (name : String) :
    naming.Extends (naming.canonicalName graph id name).2 :=
  follow_extends graph _ id name naming

theorem canonicalName_settles (naming : Naming) (graph : Graph) (id : Nat) (name : String) :
    (naming.canonicalName graph id name).2.get? id name =
      some (naming.canonicalName graph id name).1 :=
  follow_settles graph _ id name naming

theorem canonicalName_of_settled {canonical : String}
    (hget : naming.get? id name = some canonical) :
    naming.canonicalName graph id name = (canonical, naming) := by
  unfold canonicalName
  rw [show graph.chainBound = (graph.chainBound - 1) + 1 from rfl, follow, hget]

/-- A name that is bound where it is asked for. -/
theorem canonicalName_of_here {text : String} (hget : naming.get? id name = none)
    (hmeaning : graph.meaning id name = .here text) :
    naming.canonicalName graph id name = (text, naming.settle id name text) := by
  unfold canonicalName
  rw [show graph.chainBound = (graph.chainBound - 1) + 1 from rfl, follow, hget, hmeaning]

end Naming

namespace Graph

open ScriptBundler.Module

variable {graph : Graph} {id : Nat} {module : Module} {name : String}

/-- A module as a whole is bound where it is asked for. -/
theorem meaning_star (graph : Graph) (id : Nat) : ∃ text, graph.meaning id "*" = .here text := by
  unfold meaning
  cases graph.module? id with
  | none => exact ⟨_, rfl⟩
  | some module => exact ⟨_, rfl⟩

/-- A name that a module does not import stands for itself. -/
theorem meaning_own (hmodule : graph.module? id = some module) (hstar : name ≠ "*")
    (hown : module.imports.get? name = none) (hdefault : name ≠ "default") :
    graph.meaning id name = .here name := by
  simp [meaning, hmodule, hstar, hown, hdefault]

/-- A default export without a name stands for a made-up name. -/
theorem meaning_anonymousDefault (hmodule : graph.module? id = some module)
    (hown : module.imports.get? "default" = none) {index : Nat}
    (hdefault : module.anonymousDefault? = some index) :
    graph.meaning id "default" = .here module.anonymousDefaultName := by
  obtain ⟨entry, hentry, hanonymous⟩ := Option.bind_eq_some_iff.mp hdefault
  split at hanonymous
  · rename_i hnameless
    obtain ⟨hlocal, hidentifier⟩ := Bool.and_eq_true_iff.mp hnameless
    have hnone : entry.identifier = none := Option.isNone_iff_eq_none.mp hidentifier
    simp [meaning, hmodule, hown, defaultMeaning, hentry, hnone, beq_iff_eq.mp hlocal]
  · contradiction

end Graph
end ScriptBundler
