import ScriptBundler.Graph.Expansion
import ScriptBundler.Proofs.Computations

/-!
# The steps of building

What the steps of a computation that builds a graph do to its progress.  A loop over a list is taken
apart into its steps.
-/

namespace ScriptBundler
namespace Build

variable {α β : Type} {before after : Progress}

theorem run_report_bind (entries : List Log.Entry) (next : Unit → Build β) (before : Progress) :
    (report entries >>= next).run before =
      (next ()).run { before with log := before.log ++ entries } := rfl

theorem run_change_bind (step : Graph → Graph) (next : Unit → Build β) (before : Progress) :
    (change step >>= next).run before =
      (next ()).run { before with graph := step before.graph } := rfl

theorem run_emit_bind (address : Address) (next : Unit → Build β) (before : Progress) :
    (emit address >>= next).run before =
      (next ()).run { before with emitted := before.emitted ++ [address] } := rfl

theorem run_mark_bind (address : Address) (next : Unit → Build β) (before : Progress) :
    (mark address >>= next).run before =
      (next ()).run { before with
        graph := before.graph.updateModule address.module
          (·.includeStatement address.index) } := rfl

/-- Whether a statement is included does not depend on anything but the graph. -/
theorem run_isIncluded_bind (address : Address) (next : Bool → Build β) (before : Progress) :
    (isIncluded address >>= next).run before =
      (next (((before.graph.statement? address).map (·.included)).getD true)).run before := by
  refine run_bind_of_ok ?_
  rw [isIncluded, run_get_bind]
  cases hstatement : before.graph.statement? address <;> rfl

/-- What is done only for statements that are not included yet. -/
theorem run_unless_included_cases {address : Address} {statement : Module.Statement}
    {body : Build Unit} (hstatement : before.graph.statement? address = some statement)
    (hrun : (do
      if !(← isIncluded address) then
        body : Build Unit).run before = .ok () after) :
    (statement.included = true ∧ after = before) ∨
      (statement.included = false ∧ body.run before = .ok () after) := by
  rw [run_isIncluded_bind, hstatement] at hrun
  cases hincluded : statement.included with
  | true =>
      simp only [hincluded, Option.map_some, Option.getD_some, Bool.not_true, Bool.false_eq_true,
        if_false, run_pure] at hrun
      obtain ⟨-, rfl⟩ := EStateM.Result.ok.inj hrun
      exact Or.inl ⟨rfl, rfl⟩
  | false =>
      simp only [hincluded, Option.map_some, Option.getD_some, Bool.not_false, if_true] at hrun
      exact Or.inr ⟨rfl, hrun⟩

theorem run_forM_nil (body : α → Build Unit) (before : Progress) :
    (([] : List α).forM body).run before = .ok () before := rfl

/-- A loop over a list does its first step and goes on with the others. -/
theorem run_forM_cons_eq_ok {item : α} {rest : List α} {body : α → Build Unit}
    (hrun : ((item :: rest).forM body).run before = .ok () after) :
    ∃ middle, (body item).run before = .ok () middle ∧
      (rest.forM body).run middle = .ok () after := by
  change (body item >>= fun _ => rest.forM body).run before = .ok () after at hrun
  obtain ⟨_, middle, hfirst, hrest⟩ := run_bind_eq_ok hrun
  exact ⟨middle, hfirst, hrest⟩

end Build
end ScriptBundler
