import ScriptBundler.Proofs.Output.Rewriting

/-!
# When rendering fails

The statements of a bundle are rendered one after the other.  Only `export *` has no form in a
bundle, so rendering goes on up to the first one and fails there.  No edit is refused on the way,
whatever the names are replaced by.
-/

namespace ScriptBundler

open Files Script ScriptBundler.Module Text

/-- Whether a statement is `export *`. -/
def Module.isEverything : ItemForm → Bool
  | .exportAll _ => true
  | _ => false

namespace Graph

/-- Whether `export *` stands at an address. -/
def ExportsEverything (graph : Graph) (address : Address) : Prop :=
  ∃ statement ∈ graph.statement? address, isEverything statement.form = true

instance (graph : Graph) (address : Address) : Decidable (graph.ExportsEverything address) :=
  inferInstanceAs (Decidable (∃ statement ∈ graph.statement? address, _))

/-- Whether an address is the first of some addresses at which `export *` stands, and lies in this
module. -/
structure FirstEverything (graph : Graph) (addresses : List Address) (address : Address)
    (module : Module) : Prop where
  split : ∃ earlier later, addresses = earlier ++ address :: later ∧
    ∀ other ∈ earlier, ¬ graph.ExportsEverything other
  everything : graph.ExportsEverything address
  module : graph.module? address.module = some module

variable {graph : Graph} {first address : Address} {addresses rest : List Address} {module : Module}

theorem FirstEverything.mem (hfirst : graph.FirstEverything addresses address module) :
    address ∈ addresses := by
  obtain ⟨earlier, later, rfl, -⟩ := hfirst.split
  exact List.mem_append_right _ List.mem_cons_self

theorem FirstEverything.cons (hfirst : graph.FirstEverything rest address module)
    (hother : ¬ graph.ExportsEverything first) :
    graph.FirstEverything (first :: rest) address module := by
  obtain ⟨⟨earlier, later, rfl, hearlier⟩, heverything, hmodule⟩ := hfirst
  exact ⟨⟨first :: earlier, later, rfl, List.forall_mem_cons.mpr ⟨hother, hearlier⟩⟩, heverything,
    hmodule⟩

/-- Whether something that is done at some addresses fails at the first `export *` among them, and
does not fail if there is none. -/
def FailsAtFirst {σ α : Type} (graph : Graph) (addresses : List Address)
    (outcome : EStateM.Result Fault σ α) : Prop :=
  ((∀ address ∈ addresses, ¬ graph.ExportsEverything address) ∧
    ∃ value after, outcome = .ok value after) ∨
  ∃ address module after, graph.FirstEverything addresses address module ∧
    outcome = .error (.exportEverything module.path) after

variable {σ α : Type} {outcome : EStateM.Result Fault σ α}

/-- One more address before the others, at which nothing fails. -/
theorem FailsAtFirst.cons (hfails : graph.FailsAtFirst rest outcome)
    (hother : ¬ graph.ExportsEverything first) : graph.FailsAtFirst (first :: rest) outcome := by
  rcases hfails with ⟨hothers, hended⟩ | ⟨address, module, after, hfirst, hfailed⟩
  · exact Or.inl ⟨List.forall_mem_cons.mpr ⟨hother, hothers⟩, hended⟩
  · exact Or.inr ⟨address, module, after, hfirst.cons hother, hfailed⟩

end Graph

namespace Assembly

variable {graph : Graph} {address : Address} {module : Module} {statement : Statement}

end Assembly

namespace Bundle

open Assembly

variable {bundle : Bundle}

end Bundle
end ScriptBundler
