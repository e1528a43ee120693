import ScriptBundler.Proofs.Module.Readings
import ScriptBundler.Proofs.Output.Built
import ScriptBundler.Proofs.Output.Capture

/-!
# What a statement writes to

A statement writes to the targets of its assignments and of its loops, and to everything in a target
that takes a value apart.  The analysis looks at the root of a target, and a target that takes a
value apart has none; nor does it look at the targets of loops.  What a statement writes to in these
ways only is not among what it may modify.

A bundle keeps every statement that may modify what a statement in it defines.
-/

namespace ScriptBundler

open Files Script ScriptBundler.Module

namespace Script

mutual

/-- The names that an assignment to a pattern writes to.  First values and computed keys are not
written to; a member of something is written to by the name that the access starts from. -/
def Pattern.targets : Pattern → List String
  | .ident id => [id.name]
  | .hole => []
  | .array elements _ => Pattern.targetsOf elements
  | .object members _ => Pattern.targetsOf members
  | .shorthand id _ => [id.name]
  | .keyed _ value => value.targets
  | .rest inner _ => inner.targets
  | .withDefault inner _ _ => inner.targets
  | .target value => value.root.toList

/-- The names that an assignment to patterns writes to. -/
def Pattern.targetsOf : List Pattern → List String
  | [] => []
  | first :: others => first.targets ++ Pattern.targetsOf others

end

/-- Whether a pattern is a single target. -/
def Pattern.isSingle : Pattern → Bool
  | .ident _ | .target _ => true
  | _ => false

theorem Pattern.targets_of_isSingle {target : Pattern} (hsingle : target.isSingle = true) :
    target.targets = target.root.toList := by
  cases target <;> first | contradiction | rfl

namespace Region

/-- The names that a region writes to as an assignment or a loop. -/
def written : Region → List String
  | .node (.assign _ target _) | .loop (some target) => target.targets
  | _ => []

/-- The names that a region writes to as a loop, or in a target that takes a value apart. -/
def scattered : Region → List String
  | .node (.assign _ target _) => if target.isSingle then [] else target.targets
  | .loop (some target) => target.targets
  | _ => []

/-- The names at the roots of what a region assigns to, updates, or gives to a call. -/
def touched : Region → List String
  | .node shape => shape.writes
  | _ => []

variable {region : Region} {name : String}

theorem mem_written_of_mem_scattered (hname : name ∈ region.scattered) : name ∈ region.written := by
  unfold scattered at hname
  split at hname
  · split at hname
    · exact absurd hname List.not_mem_nil
    · exact hname
  · exact hname
  · exact absurd hname List.not_mem_nil

/-- What is written to otherwise is the root of a single target. -/
theorem mem_scattered_or_touched (hname : name ∈ region.written) :
    name ∈ region.scattered ∨ name ∈ region.touched := by
  unfold written at hname
  split at hname
  · rename_i operator target span
    cases hsingle : target.isSingle with
    | true =>
        rw [Pattern.targets_of_isSingle hsingle] at hname
        exact Or.inr hname
    | false => exact Or.inl (by simpa [scattered, hsingle] using hname)
  · exact Or.inl hname
  · exact absurd hname List.not_mem_nil

end Region

end Script

namespace Module

/-- The names that the regions of a statement have in some sense, where they are names of the top
level or names that nothing declares. -/
def Statement.free (names : Region → List String) (statement : Statement) : List String :=
  statement.spots.flatMap fun spot =>
    (names spot.region).filter fun name => !spot.taken.contains name

variable {statement : Statement} {names : Region → List String} {name : String}

theorem Statement.mem_free : name ∈ statement.free names ↔
    ∃ spot ∈ statement.spots, name ∈ names spot.region ∧ name ∉ spot.taken := by
  simp [Statement.free]

/-- A statement may modify what it touches. -/
theorem Statement.Read.mem_modifies_iff {source : List Char} {scopes : ScopeTree} {item : Item}
    (hread : statement.Read source scopes item) :
    name ∈ statement.modifies ↔ name ∈ statement.free Region.touched := by
  rw [hread.names.modifies, ← hread.places_spots, Statement.mem_free]
  constructor
  · rintro ⟨place, hplace, hname, hfree⟩
    obtain ⟨⟨region, bound, taken⟩, hspot, heq⟩ := List.mem_filterMap.mp hplace
    cases region with
    | node shape =>
        obtain rfl := Option.some.inj heq
        exact ⟨_, hspot, hname, hfree⟩
    | _ => contradiction
  · rintro ⟨⟨region, bound, taken⟩, hspot, hname, hfree⟩
    cases region with
    | node shape => exact ⟨_, List.mem_filterMap.mpr ⟨_, hspot, rfl⟩, hname, hfree⟩
    | _ => exact absurd hname List.not_mem_nil

/-- All that a statement writes to is among what it may modify exactly if that is so for what is
written to by loops and in targets that take a value apart. -/
theorem Statement.Read.written_subset_iff {source : List Char} {scopes : ScopeTree} {item : Item}
    (hread : statement.Read source scopes item) :
    statement.free Region.written ⊆ statement.modifies ↔
      statement.free Region.scattered ⊆ statement.free Region.touched := by
  constructor
  · intro hwritten name hname
    obtain ⟨spot, hspot, hscattered, hfree⟩ := Statement.mem_free.mp hname
    exact hread.mem_modifies_iff.mp (hwritten (Statement.mem_free.mpr
      ⟨spot, hspot, Region.mem_written_of_mem_scattered hscattered, hfree⟩))
  · intro hscattered name hname
    obtain ⟨spot, hspot, hwritten, hfree⟩ := Statement.mem_free.mp hname
    refine hread.mem_modifies_iff.mpr ?_
    rcases Region.mem_scattered_or_touched hwritten with hloose | htouched
    · exact hscattered (Statement.mem_free.mpr ⟨spot, hspot, hloose, hfree⟩)
    · exact Statement.mem_free.mpr ⟨spot, hspot, htouched, hfree⟩

/-- A module knows each of its statements that may modify a name. -/
theorem Sourced.mem_modifiersOf {module : Module} (hsourced : module.Sourced) {index : Nat}
    (hstatement : module.statement? index = some statement) (hname : name ∈ statement.modifies) :
    index ∈ module.modifiersOf name := by
  obtain ⟨path, source, earlier, hsource, hrest⟩ := hsourced
  obtain ⟨tree, -, rfl⟩ := ofSource_eq_ofTree hsource
  obtain ⟨found, hfound, heq⟩ := statement?_of_asRead hrest.symm hstatement
  have hmodifications : module.modifications =
      modificationTable (ofTree path source tree).statements :=
    (congrArg Module.modifications hrest :)
  have hmodifies : found.modifies = statement.modifies := (congrArg Statement.modifies heq :)
  obtain ⟨item, hfrom⟩ := ofTree_statement? hfound
  show index ∈ knownModifiers module.modifications name
  rw [hmodifications, mem_modificationTable]
  exact ⟨found, List.mem_of_getElem? hfound, hfrom.index, hmodifies ▸ hname⟩

end Module

namespace Bundle

variable {bundle : Bundle} {module : Module} {statement definer : Statement} {name : String}
  {id index position : Nat}

/-- A bundle keeps the statements that may modify what a statement in it defines. -/
theorem Built.mem_of_modifies (hbuilt : bundle.Built)
    (hmodule : bundle.graph.module? id = some module)
    (hstatement : module.statement? index = some statement) (hname : name ∈ statement.modifies)
    (hdefiner : module.statement? position = some definer) (hdefines : name ∈ definer.defines)
    (hmem : ⟨id, position⟩ ∈ bundle.statements) : ⟨id, index⟩ ∈ bundle.statements := by
  have hmodifier := (hbuilt.traced.sourced _ _ hmodule).mem_modifiersOf hstatement hname
  have hcalls : bundle.graph.Calls (.statement ⟨id, position⟩) (.statement ⟨id, index⟩) :=
    .modifier (Graph.statement?_eq_some_iff.mpr ⟨module, hmodule, hdefiner⟩) hdefines hmodule
      hmodifier
  have hmarks : bundle.graph.Marks (.statement ⟨id, position⟩) := ((hbuilt.statements _).mp hmem).1
  exact (hbuilt.statements _).mpr ⟨(hbuilt.complete.settled _ hmarks).calls _ hcalls,
    hcalls.has hbuilt.complete.wellFormed fun _ => Demand.noConfusion⟩

/-- All that a statement of a module writes to is among what it may modify, exactly if it also
touches what it writes to by loops and in targets that take a value apart.  A bundle keeps a
statement that may modify what is defined by a statement in the bundle. -/
theorem written_subset_modifies_iff (hsourced : module.Sourced)
    (hstatement : module.statement? index = some statement) :
    (statement.free Region.written ⊆ statement.modifies ↔
      statement.free Region.scattered ⊆ statement.free Region.touched) ∧
    ∀ disk entry log bundle later id, (build disk entry).run log = .ok bundle later →
      bundle.graph.module? id = some module →
      ∀ name ∈ statement.modifies, ∀ position definer, module.statement? position = some definer →
        name ∈ definer.defines → ⟨id, position⟩ ∈ bundle.statements →
        ⟨id, index⟩ ∈ bundle.statements := by
  obtain ⟨item, hread⟩ := hsourced.read hstatement
  refine ⟨hread.written_subset_iff, ?_⟩
  intro disk entry log bundle later id hbuild hmodule name hname position definer hdefiner hdefines
    hmem
  exact (built_of_build hbuild).mem_of_modifies hmodule hstatement hname hdefiner hdefines hmem

/-- A module that changes what it exports by taking a value apart, and by an update in it. -/
def updatedDisk : Disk where
  workingDirectory := []
  files :=
    [(["main.js"], .text "import \x7b a \x7d from './lib';\nexport var r = a;\n".toList),
      (["lib.js"], .text "export var a = 1;\n[a] = [a++];\n".toList)]
  directories := []

theorem mem_statements_updatedDisk : ∃ bundle log module statement,
    (build updatedDisk ⟨"main.js"⟩).run [] = .ok bundle log ∧
      bundle.graph.module? 1 = some module ∧ module.statement? 1 = some statement ∧
      statement.free Region.scattered = ["a"] ∧
      statement.free Region.written ⊆ statement.modifies ∧ "a" ∈ statement.modifies ∧
      ⟨1, 0⟩ ∈ bundle.statements ∧ ⟨1, 1⟩ ∈ bundle.statements := by
  obtain ⟨bundle, log, hbuild, hcheck⟩ := exists_of_passes updatedDisk ⟨"main.js"⟩
    (fun bundle => decide (⟨1, 0⟩ ∈ bundle.statements) && (bundle.graph.module? 1).any fun module =>
      (module.statement? 1).any fun statement => (module.statement? 0).any fun definer => decide
        (statement.free Region.scattered = ["a"] ∧ "a" ∈ statement.free Region.touched ∧
          "a" ∈ statement.free Region.written ∧ "a" ∈ definer.defines))
    (by decide +kernel)
  obtain ⟨hmem, hcheck⟩ := Bool.and_eq_true_iff.mp hcheck
  obtain ⟨module, hmodule, hcheck⟩ := (Option.any_eq_true _ _).mp hcheck
  obtain ⟨statement, hstatement, hcheck⟩ := (Option.any_eq_true _ _).mp hcheck
  obtain ⟨definer, hdefiner, hcheck⟩ := (Option.any_eq_true _ _).mp hcheck
  obtain ⟨hscattered, htouched, hwritten, hdefines⟩ := of_decide_eq_true hcheck
  have hsourced := (built_of_build hbuild).traced.sourced _ _ hmodule
  obtain ⟨hiff, hkept⟩ := written_subset_modifies_iff hsourced hstatement
  have hsubset : statement.free Region.written ⊆ statement.modifies := by
    rw [hiff, hscattered]
    exact List.cons_subset.mpr ⟨htouched, List.nil_subset _⟩
  have hmodifies := hsubset hwritten
  have hboth := hkept _ _ _ _ _ 1 hbuild hmodule "a" hmodifies 0 definer hdefiner hdefines
    (of_decide_eq_true hmem)
  exact ⟨bundle, log, module, statement, hbuild, hmodule, hstatement, hscattered, hsubset,
    hmodifies, of_decide_eq_true hmem, hboth⟩

/-- A module that changes what it exports by taking a value apart. -/
def scatteringDisk : Disk where
  workingDirectory := []
  files :=
    [(["main.js"], .text "import \x7b a \x7d from './lib';\nexport var r = a;\n".toList),
      (["lib.js"], .text "export var a = 1;\n[a] = [2];\n".toList)]
  directories := []

/-- The bundle has the statement that defines the name, but not the one that writes to it. -/
theorem not_written_subset_scatteringDisk : ∃ bundle log,
    (build scatteringDisk ⟨"main.js"⟩).run [] = .ok bundle log ∧
      bundle.statements = [⟨1, 0⟩, ⟨0, 1⟩] ∧
      ∃ module statement definer, bundle.graph.module? 1 = some module ∧
        module.statement? 1 = some statement ∧ module.statement? 0 = some definer ∧
        "a" ∈ definer.defines ∧ "a" ∈ statement.free Region.written ∧
        ¬ statement.free Region.written ⊆ statement.modifies := by
  obtain ⟨bundle, log, hbuild, hcheck⟩ := exists_of_passes scatteringDisk ⟨"main.js"⟩
    (fun bundle => decide (bundle.statements = [⟨1, 0⟩, ⟨0, 1⟩]) &&
      (bundle.graph.module? 1).any fun module =>
        (module.statement? 1).any fun statement => (module.statement? 0).any fun definer => decide
          ("a" ∈ definer.defines ∧ "a" ∈ statement.free Region.written ∧ "a" ∉ statement.modifies))
    (by decide +kernel)
  obtain ⟨hstatements, hcheck⟩ := Bool.and_eq_true_iff.mp hcheck
  obtain ⟨module, hmodule, hcheck⟩ := (Option.any_eq_true _ _).mp hcheck
  obtain ⟨statement, hstatement, hcheck⟩ := (Option.any_eq_true _ _).mp hcheck
  obtain ⟨definer, hdefiner, hcheck⟩ := (Option.any_eq_true _ _).mp hcheck
  obtain ⟨hdefines, hwritten, hmissed⟩ := of_decide_eq_true hcheck
  exact ⟨bundle, log, hbuild, of_decide_eq_true hstatements, module, statement, definer, hmodule,
    hstatement, hdefiner, hdefines, hwritten, fun hsubset => hmissed (hsubset hwritten)⟩

end Bundle
end ScriptBundler
