import ScriptBundler.Bundle
import ScriptBundler.Proofs.Computations

/-!
# Bundles that are built

What a bundle that has been built is made of: the entry module has been read, all that it needs has
been included, and the names have been resolved.

A check of the bundle of some project shows that the project has a bundle with some property.
-/

namespace ScriptBundler

open Files

theorem Reporting.run_report_bind {α : Type} (entries : List Log.Entry)
    (next : Unit → Reporting α) (log : List Log.Entry) :
    (report entries >>= next).run log = (next ()).run (log ++ entries) := rfl

/-- A request to a graph has an outcome only if it ends without a fault. -/
theorem Reporting.ofOutcome_ok {α : Type} {outcome : Outcome α} {graph : Graph} {value : α}
    {log later : List Log.Entry}
    (hrun : (ofOutcome outcome).run log = .ok (graph, value) later) :
    outcome.graph = graph ∧ outcome.result = .ok value := by
  rw [ofOutcome, run_report_bind] at hrun
  obtain ⟨result, middle, hresult, hpure⟩ := run_bind_eq_ok hrun
  rw [run_pure] at hpure
  obtain ⟨heq, -⟩ := EStateM.Result.ok.inj hpure
  obtain ⟨hgraph, rfl⟩ := Prod.mk.inj heq
  refine ⟨hgraph, ?_⟩
  cases houtcome : outcome.result with
  | ok found =>
      rw [houtcome, ofExcept, run_pure] at hresult
      obtain ⟨rfl, -⟩ := EStateM.Result.ok.inj hresult
      rfl
  | error fault =>
      rw [houtcome, ofExcept, run_throw] at hresult
      contradiction

/-- A bundle holds the statements that the entry module needs, and names them apart. -/
theorem Bundle.build_ok {disk : Disk} {entry : Path} {bundle : Bundle} {log later : List Log.Entry}
    (hbuild : (build disk entry).run log = .ok bundle later) :
    ∃ loaded expanded,
      (Graph.empty.run (Build.load disk (entryPathOf disk entry))).graph = loaded ∧
      (Graph.empty.run (Build.load disk (entryPathOf disk entry))).result = .ok bundle.entry ∧
      (loaded.expandAll disk bundle.entry true).graph = expanded ∧
      (loaded.expandAll disk bundle.entry true).result = .ok bundle.statements ∧
      (NamedGraph.deconflict ⟨expanded, .empty⟩ bundle.statements).1 =
        ⟨bundle.graph, bundle.naming⟩ := by
  rw [build, Reporting.run_report_bind] at hbuild
  obtain ⟨⟨loaded, id⟩, _, hload, hrest⟩ := run_bind_eq_ok hbuild
  obtain ⟨⟨expanded, statements⟩, _, hexpand, hrest⟩ := run_bind_eq_ok hrest
  obtain ⟨hloaded, hentry⟩ := Reporting.ofOutcome_ok hload
  obtain ⟨hexpanded, hstatements⟩ := Reporting.ofOutcome_ok hexpand
  dsimp only at hrest
  rw [Reporting.run_report_bind, run_pure] at hrest
  obtain ⟨rfl, -⟩ := EStateM.Result.ok.inj hrest
  exact ⟨loaded, expanded, hloaded, hentry, hexpanded, hstatements, rfl⟩

/-- Whether a project has a bundle that passes a check. -/
def Bundle.passes (disk : Disk) (entry : Path) (check : Bundle → Bool) : Bool :=
  match (Bundle.build disk entry).run [] with
  | .ok bundle _ => check bundle
  | .error _ _ => false

theorem Bundle.exists_of_passes (disk : Disk) (entry : Path) (check : Bundle → Bool)
    (hpasses : Bundle.passes disk entry check = true) :
    ∃ bundle log, (Bundle.build disk entry).run [] = .ok bundle log ∧ check bundle = true := by
  unfold Bundle.passes at hpasses
  cases hbuild : (Bundle.build disk entry).run [] with
  | ok bundle log =>
      rw [hbuild] at hpasses
      exact ⟨bundle, log, rfl, hpasses⟩
  | error fault log =>
      rw [hbuild] at hpasses
      contradiction

end ScriptBundler
