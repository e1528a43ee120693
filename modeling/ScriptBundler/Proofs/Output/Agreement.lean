import ScriptBundler.Proofs.Output.Denotations

/-!
# Importers and definers

All that import a binding print it as the module does that it belongs to, however long the chains
are that lead there.  This is so for the names that expansion has looked after.  A name that nothing
has asked for is not followed; if it is printed nevertheless, as it is by the object for a module
that passes it on, it is printed as it stands.
-/

namespace ScriptBundler
namespace Bundle

open Files ScriptBundler.Module

/-- Whether no module declares a name that it only passes on, has a default export without a name
beside an imported one, or passes on `*`. -/
@[reducible]
def Unblurred (bundle : Bundle) : Prop :=
  ∀ module ∈ bundle.graph.modules,
    (∀ statement ∈ module.statements, ∀ name ∈ statement.defines, module.forwards name = false) ∧
      (module.anonymousDefault?.isSome = true → module.imports.get? "default" = none) ∧
      module.imports.get? "*" = none

/-- Whether expansion has looked after a name, or the name is not passed on. -/
def Reached (bundle : Bundle) (id : Nat) (name : String) : Prop :=
  bundle.graph.Supplied id name ∨
    ∀ module ∈ bundle.graph.module? id, module.forwards name = false

/-- Whether every imported name that has been asked for is printed as what its chain ends at, and
the bundle holds that. -/
def ImportsAgree (bundle : Bundle) (disk : Disk) : Prop :=
  ∀ id module name entry destination, bundle.graph.module? id = some module →
    module.imports.get? name = some entry → bundle.graph.Requested id name →
    bundle.graph.EndsAt disk (module, name) destination →
    bundle.Holds destination ∧ bundle.printed id name = bundle.textOf destination

/-- Whether two names are printed alike if their chains end at the same binding, among some
names. -/
def NamesAgree (bundle : Bundle) (disk : Disk) (among : Nat → String → Prop) : Prop :=
  ∀ first second module target name other destination,
    bundle.graph.module? first = some module → bundle.graph.module? second = some target →
    among first name → among second other →
    bundle.graph.EndsAt disk (module, name) destination →
    bundle.graph.EndsAt disk (target, other) destination →
    bundle.printed first name = bundle.printed second other

variable {bundle : Bundle} {disk : Disk} {id : Nat} {module : Module} {name : String}

theorem Unblurred.clear (hunblurred : bundle.Unblurred) (hbuilt : bundle.Built)
    (place : Module × String) : bundle.Clear disk place := by
  rintro id module name hmodule - ⟨hforwards, hblurred⟩
  obtain ⟨hdeclares, hdefault, hstar⟩ := hunblurred module (List.mem_of_getElem? hmodule)
  rcases hblurred with rfl | ⟨claim, hclaim, hplace⟩
  · simp [Module.forwards, hstar] at hforwards
  · have hbinds := hbuilt.binds claim hclaim
    obtain ⟨claimed, owner⟩ := claim
    cases owner with
    | module other =>
        obtain ⟨rfl, rfl⟩ := Prod.mk.inj (Option.some.inj hplace)
        obtain ⟨address, -, rfl, statement, hstatement, hname⟩ := hbinds
        obtain ⟨found, hfound, hget⟩ := Graph.statement?_eq_some_iff.mp hstatement
        obtain rfl := Option.some.inj (hmodule.symm.trans hfound)
        rw [hdeclares statement (List.mem_of_getElem? hget) claimed hname] at hforwards
        contradiction
    | anonymousDefault other =>
        obtain ⟨rfl, rfl⟩ := Prod.mk.inj (Option.some.inj hplace)
        obtain ⟨address, -, -, found, hfound, hanonymous⟩ := hbinds
        obtain rfl := Option.some.inj (hmodule.symm.trans hfound)
        obtain ⟨entry, hentry, hnameless⟩ := Option.bind_eq_some_iff.mp hanonymous
        split at hnameless
        · rename_i hconditions
          obtain ⟨-, hidentifier⟩ := Bool.and_eq_true_iff.mp hconditions
          have hown := hdefault (Option.isSome_of_mem hanonymous)
          have hnone := Option.isNone_iff_eq_none.mp hidentifier
          simp [Module.forwards, hown, hentry, hnone] at hforwards
        · contradiction
    | namespaceObject other =>
        obtain ⟨rfl, rfl⟩ := Prod.mk.inj (Option.some.inj hplace)
        simp [Module.forwards, hstar] at hforwards
    | external other => contradiction

/-- A name that is not passed on is printed as what it is bound to where it is. -/
theorem Built.printed_of_not_forwards (hbuilt : bundle.Built)
    (hmodule : bundle.graph.module? id = some module) (hforwards : module.forwards name = false)
    {destination : Destination} (hends : bundle.graph.EndsAt disk (module, name) destination) :
    bundle.printed id name = bundle.textOf destination := by
  have hown := hbuilt.traced.own id module hmodule
  cases hends with
  | next hpasses =>
      rw [hpasses.forwards] at hforwards
      contradiction
  | here hends =>
      cases hends with
      | declared => exact (textOf_declared hown name).symm
      | anonymousDefault => exact (textOf_anonymousDefault hown).symm
      | whole hentry | external hentry => simp [Module.forwards, hentry] at hforwards

theorem Built.printed_of_reached (hbuilt : bundle.Built) (hunblurred : bundle.Unblurred)
    (hmodule : bundle.graph.module? id = some module) (hreached : bundle.Reached id name)
    {destination : Destination} (hends : bundle.graph.EndsAt disk (module, name) destination) :
    bundle.printed id name = bundle.textOf destination := by
  rcases hreached with hsupplied | hown
  · exact (hbuilt.denotes_of_clear hsupplied hmodule (hunblurred.clear hbuilt _) hends).2
  · exact hbuilt.printed_of_not_forwards hmodule (hown module hmodule) hends

/-- In a bundle without blurred names, an imported name that has been asked for is printed as what
its chain ends at, which the bundle holds; and two names are printed alike if their chains end at
the same binding and both are looked after or bound where they are. -/
theorem namesAgree_reached {entry : Path} {log later : List Log.Entry}
    (hbuild : (build disk entry).run log = .ok bundle later) (hunblurred : bundle.Unblurred) :
    bundle.ImportsAgree disk ∧ bundle.NamesAgree disk bundle.Reached := by
  have hbuilt := built_of_build hbuild
  constructor
  · intro id module name entry destination hmodule _ hrequested hends
    exact hbuilt.denotes_of_clear (Or.inl hrequested) hmodule (hunblurred.clear hbuilt _) hends
  · intro first second module target name other destination hmodule htarget hfirst hsecond hends
      hends'
    rw [hbuilt.printed_of_reached hunblurred hmodule hfirst hends,
      hbuilt.printed_of_reached hunblurred htarget hsecond hends']

/-- A module that takes a name from another one directly, and from a second one that passes it
on. -/
def sharedNameDisk : Disk where
  workingDirectory := []
  files := [(["main.js"], .text ("import * as all from './mid';\n".toList ++
      "import \x7b x as q \x7d from './end';\nexport var r = [all.x, q];\n".toList)),
    (["mid.js"], .text "export \x7b x \x7d from './end';\n".toList),
    (["end.js"], .text "var y = 1;\nexport \x7b y as x \x7d;\n".toList)]
  directories := []

/-- The name that is imported directly is printed like the declaration. -/
theorem namesAgree_sharedNameDisk : ∃ bundle log,
    (build sharedNameDisk ⟨"main.js"⟩).run [] = .ok bundle log ∧ bundle.Unblurred ∧
      bundle.printed 0 "q" = bundle.printed 2 "y" := by
  obtain ⟨bundle, log, hbuild, hcheck⟩ := exists_of_passes sharedNameDisk ⟨"main.js"⟩
    (fun bundle => decide (bundle.Unblurred ∧
      (∃ module ∈ bundle.graph.module? 0, "q" ∈ module.requested ∧
        bundle.graph.destination? sharedNameDisk 2 module "q" =
          some (.declared ⟨"/end.js"⟩ "y")) ∧
      (∃ module ∈ bundle.graph.module? 2, module.forwards "y" = false ∧
        bundle.graph.destination? sharedNameDisk 1 module "y" =
          some (.declared ⟨"/end.js"⟩ "y"))))
    (by decide +kernel)
  obtain ⟨hunblurred, ⟨module, hmodule, hasked, hchain⟩, target, htarget, hown, hchain'⟩ :=
    of_decide_eq_true hcheck
  refine ⟨bundle, log, hbuild, hunblurred, ?_⟩
  refine (namesAgree_reached hbuild hunblurred).2 0 2 module target "q" "y" _ hmodule htarget
    (Or.inl (Or.inl ⟨module, hmodule, hasked⟩)) (Or.inr fun found hfound => ?_)
    (Graph.endsAt_of_destination? hchain) (Graph.endsAt_of_destination? hchain')
  obtain rfl := Option.some.inj (htarget.symm.trans hfound)
  exact hown

/-- The name that is passed on has not been asked for, and is printed as it stands, by
the object for the module: it is the name of nothing. -/
theorem not_namesAgree_sharedNameDisk : ∃ bundle log,
    (build sharedNameDisk ⟨"main.js"⟩).run [] = .ok bundle log ∧ bundle.Unblurred ∧
      bundle.graph.AcyclicAliases ∧ 1 ∈ bundle.graph.namespaces ∧
      ¬ bundle.NamesAgree sharedNameDisk fun _ _ => True := by
  obtain ⟨bundle, log, hbuild, hcheck⟩ := exists_of_passes sharedNameDisk ⟨"main.js"⟩
    (fun bundle => decide (bundle.Unblurred ∧ bundle.graph.AcyclicAliases ∧
      1 ∈ bundle.graph.namespaces ∧
      bundle.printed 0 "q" ≠ bundle.printed 1 "x" ∧
      (∃ module ∈ bundle.graph.module? 0, bundle.graph.destination? sharedNameDisk 2 module "q" =
        some (.declared ⟨"/end.js"⟩ "y")) ∧
      (∃ module ∈ bundle.graph.module? 1, bundle.graph.destination? sharedNameDisk 2 module "x" =
        some (.declared ⟨"/end.js"⟩ "y"))))
    (by decide +kernel)
  obtain ⟨hunblurred, hacyclic, hwhole, hdiffer, ⟨module, hmodule, hchain⟩, target, htarget,
    hchain'⟩ := of_decide_eq_true hcheck
  refine ⟨bundle, log, hbuild, hunblurred, hacyclic, hwhole, fun hagree => hdiffer ?_⟩
  exact hagree 0 1 module target "q" "x" _ hmodule htarget trivial trivial
    (Graph.endsAt_of_destination? hchain) (Graph.endsAt_of_destination? hchain')

end Bundle
end ScriptBundler
