import ScriptBundler.Proofs.Graph.Closure

/-!
# What expansion keeps

Expansion changes a graph in two ways: it marks statements, and it looks after names.  Whatever
both of these keep holds of every graph that expansion leaves behind.  A fault may strike while a
name is looked after, so that of the graph after a fault less may hold than of the others.
-/

namespace ScriptBundler

open Files ScriptBundler.Module Script

namespace Build

section Leaves

variable {α β : Type} {sound weak : Graph → Prop} {before : Progress}

/-- What holds of the graph that a computation leaves behind: `sound` if it ends without a fault,
and `weak` if it ends with one. -/
def Leaves (sound weak : Graph → Prop) : EStateM.Result Fault Progress α → Prop
  | .ok _ after => sound after.graph
  | .error _ after => weak after.graph

theorem leaves_pure (value : α) (hsound : sound before.graph) :
    Leaves sound weak ((pure value : Build α).run before) := hsound

theorem leaves_throw (fault : Fault) (hweak : weak before.graph) :
    Leaves sound weak ((throw fault : Build α).run before) := hweak

theorem leaves_bind {first : Build α} {next : α → Build β}
    (hfirst : Leaves sound weak (first.run before))
    (hnext : ∀ value middle, first.run before = .ok value middle → sound middle.graph →
      Leaves sound weak ((next value).run middle)) :
    Leaves sound weak ((first >>= next).run before) := by
  cases hrun : first.run before with
  | ok value middle =>
      rw [hrun] at hfirst
      rw [run_bind_of_ok hrun]
      exact hnext value middle hrun hfirst
  | error fault after =>
      rw [hrun] at hfirst
      rw [run_bind_of_error hrun]
      exact hfirst

theorem leaves_map {change : α → β} {first : Build α}
    (hfirst : Leaves sound weak (first.run before)) :
    Leaves sound weak ((change <$> first).run before) := by
  rw [map_eq_pure_bind]
  exact leaves_bind hfirst fun value _ _ hmiddle => leaves_pure (change value) hmiddle

theorem leaves_forM {items : List α} {body : α → Build Unit}
    (hbody : ∀ item ∈ items, ∀ before : Progress, sound before.graph →
      Leaves sound weak ((body item).run before))
    (hsound : sound before.graph) : Leaves sound weak ((items.forM body).run before) := by
  induction items generalizing before with
  | nil => exact leaves_pure () hsound
  | cons first rest ih =>
      refine leaves_bind (hbody first List.mem_cons_self before hsound) fun _ middle _ hmiddle => ?_
      exact ih (fun item hitem => hbody item (List.mem_cons_of_mem _ hitem)) hmiddle

theorem Leaves.weaken {result : EStateM.Result Fault Progress α}
    (hleaves : Leaves sound sound result) (hweaken : ∀ graph, sound graph → weak graph) :
    Leaves sound weak result := by
  cases result with
  | ok value after => exact hleaves
  | error fault after => exact hweaken _ hleaves

theorem Leaves.of_ok {computation : Build α} {value : α} {after : Progress}
    (hleaves : Leaves sound weak (computation.run before))
    (hrun : computation.run before = .ok value after) : sound after.graph := by
  rw [hrun] at hleaves
  exact hleaves

end Leaves

/-- What marking a statement and looking after a name keep. -/
structure Upkeep (disk : Disk) (sound weak : Graph → Prop) : Prop where
  weaken : ∀ graph, sound graph → weak graph
  mark : ∀ graph (address : Address), sound graph →
    sound (graph.updateModule address.module (·.includeStatement address.index))
  look : ∀ (before : Progress) id module name, before.graph.module? id = some module →
    name ∉ module.requested → sound before.graph →
    Leaves sound weak ((need disk id module name).run
      { before with graph := before.graph.updateModule id (·.request name) })

namespace Upkeep

variable {disk : Disk} {sound weak : Graph → Prop} {budget : Nat} {before : Progress}

section

variable (hinner : ∀ demand (before : Progress), sound before.graph →
  Leaves sound weak ((satisfy disk budget demand).run before))

include hinner

theorem includeModifier (id : Nat) (name : String) (index : Nat) (hsound : sound before.graph) :
    Leaves sound weak ((includeModifier disk budget id name index).run before) := by
  unfold Build.includeModifier
  rw [run_isIncluded_bind]
  split
  · rw [run_report_bind]
    exact hinner (.statement ⟨id, index⟩) _ hsound
  · exact leaves_pure () hsound

variable (hkeeps : Upkeep disk sound weak)

include hkeeps

theorem expandStatement (address : Address) (hsound : sound before.graph) :
    Leaves sound weak ((expandStatement disk (budget + 1) address).run before) := by
  rw [Build.expandStatement, run_get_bind]
  split
  · exact leaves_pure () hsound
  · split
    · rw [run_mark_bind]
      refine leaves_bind (leaves_forM (fun name _ before hbefore => ?_) (hkeeps.mark _ _ hsound))
        fun _ middle _ hmiddle => ?_
      · exact hinner (.name address.module name) before hbefore
      · rw [run_emit_bind]
        refine leaves_forM (fun name _ before hbefore => ?_) hmiddle
        rw [run_get_bind]
        split
        · exact leaves_pure () hbefore
        · exact leaves_forM (fun index _ before hbefore =>
            includeModifier hinner address.module name index hbefore) hbefore
    · exact leaves_pure () hsound

theorem define (id : Nat) (name : String) (hsound : sound before.graph) :
    Leaves sound weak ((define disk (budget + 1) id name).run before) := by
  rw [Build.define, run_get_bind]
  cases hmodule : before.graph.module? id with
  | none => exact leaves_pure () hsound
  | some module =>
      by_cases hrequested : name ∈ module.requested
      · simp only [List.contains_iff_mem.mpr hrequested, Bool.not_true, Bool.false_eq_true,
          if_false]
        exact leaves_pure () hsound
      · have hnew : module.requested.contains name = false := by simpa using hrequested
        simp only [hnew, Bool.not_false, if_true]
        rw [run_change_bind]
        refine leaves_bind (hkeeps.look before id module name hmodule hrequested hsound)
          fun needed middle _ hmiddle => ?_
        cases needed with
        | nothing => exact leaves_pure () hmiddle
        | statement address => exact hinner (.statement address) middle hmiddle
        | name other exported => exact hinner (.name other exported) middle hmiddle
        | everything other => exact hinner (.everything other false) middle hmiddle

theorem expandAll (id : Nat) (isEntry : Bool) (hsound : sound before.graph) :
    Leaves sound weak ((expandAll disk (budget + 1) id isEntry).run before) := by
  rw [Build.expandAll, run_get_bind]
  split
  · exact leaves_pure () hsound
  · refine leaves_forM (fun statement _ before hbefore => ?_) hsound
    rw [run_isIncluded_bind]
    split
    · split
      · exact leaves_pure () hbefore
      · rw [run_mark_bind]
        exact leaves_forM (fun name _ before hbefore => hinner (.name id name) before hbefore)
          (hkeeps.mark _ ⟨id, statement.index⟩ hbefore)
      · exact hinner (.statement ⟨id, statement.index⟩) before hbefore
    · exact leaves_pure () hbefore

end

/-- Expansion for any demand and within any budget keeps what its steps keep. -/
theorem satisfy (hkeeps : Upkeep disk sound weak) (budget : Nat) (demand : Demand)
    (before : Progress) (hsound : sound before.graph) :
    Leaves sound weak ((satisfy disk budget demand).run before) := by
  -- a call within a budget makes its own calls within a smaller one
  induction budget generalizing demand before with
  | zero => cases demand <;> exact leaves_throw _ (hkeeps.weaken _ hsound)
  | succ budget ih =>
      cases demand with
      | statement address => exact expandStatement ih hkeeps address hsound
      | name id name => exact define ih hkeeps id name hsound
      | everything id isEntry => exact expandAll ih hkeeps id isEntry hsound

end Upkeep

end Build
end ScriptBundler
