import ScriptBundler.Proofs.Output.Denotations

/-!
# References

No name in a bundle dangles.  A statement refers to names of its module, and the end of the bundle
to the names that the entry module exports; if the chain of such a name ends, then what is printed
for it starts with a name that is bound in the bundle.

Most of these names have been asked for, or are names of a module that is demanded as a whole.  What
is left are names that a module both declares and imports, and names whose place has been given to
something else: these are bound as well, if not as the chain says.
-/

namespace ScriptBundler
namespace Bundle

open Files ScriptBundler.Module

/-- Whether a text starts with the name of something that is there in a bundle. -/
def Rooted (bundle : Bundle) (text : String) : Prop :=
  ∃ binding, bundle.Shows binding ∧
    (text = bundle.nameOf binding ∨
      ∃ id exported, binding = .external id ∧
        text = bundle.nameOf (.external id) ++ "." ++ exported)

/-- The names that a bundle prints, each with the name at which the chain of what it stands for
starts: those that a statement depends on, and those behind the exports of the entry module, also if
its default export is handed on as the whole module. -/
inductive Prints (bundle : Bundle) : Nat → String → String → Prop where
  | reference {address : Address} {statement : Statement} {name : String}
      (haddress : address ∈ bundle.statements)
      (hstatement : bundle.graph.statement? address = some statement)
      (hname : name ∈ statement.dependsOn) : Prints bundle address.module name name
  | exported {module : Module} {key : String} {entry : Export}
      (hmodule : bundle.graph.module? bundle.entry = some module)
      (hentry : module.exports.get? key = some entry) :
      Prints bundle bundle.entry entry.localName entry.localName
  | ownDefault {module : Module} {entry : Export}
      (hmodule : bundle.graph.module? bundle.entry = some module)
      (hentry : module.exports.get? "default" = some entry)
      (hown : module.imports.get? "default" = none) :
      Prints bundle bundle.entry "default" entry.localName
  | importedDefault {module : Module} (hmodule : bundle.graph.module? bundle.entry = some module)
      (hentry : module.exports.has "default" = true)
      (himported : (module.imports.get? "default").isSome = true) :
      Prints bundle bundle.entry "default" "default"

/-- Whether no module passes on a name that is written `*`, as only a text in quotes can be. -/
@[reducible]
def Starless (bundle : Bundle) : Prop :=
  ∀ module ∈ bundle.graph.modules, module.imports.get? "*" = none

variable {bundle : Bundle} {disk : Disk} {id : Nat} {module : Module} {name : String}

theorem Shows.rooted {binding : Binding} (hshows : bundle.Shows binding) :
    bundle.Rooted (bundle.nameOf binding) :=
  ⟨binding, hshows, Or.inl rfl⟩

/-- What a chain ends at is printed so that it starts with the name of something in the bundle. -/
theorem Holds.rooted {destination : Destination} (hholds : bundle.Holds destination) :
    bundle.Rooted (bundle.textOf destination) := by
  cases destination with
  | declared path name =>
      obtain ⟨id, hid, hshows⟩ := hholds
      rw [textOf_declared hid]
      exact hshows.rooted
  | anonymousDefault path =>
      obtain ⟨id, hid, hshows⟩ := hholds
      rw [textOf_anonymousDefault hid]
      exact hshows.rooted
  | whole path =>
      obtain ⟨id, hid, hshows⟩ := hholds
      rw [textOf_whole hid]
      exact hshows.rooted
  | external specifier exported =>
      obtain ⟨id, hid, external, hexternal, hprovides⟩ := hholds
      have hname : bundle.nameOf (.external id) = external.name := by
        simp [nameOf, Option.mem_def.mp hexternal]
      have hshows : bundle.Shows (.external id) := Option.isSome_of_mem hexternal
      rw [textOf_external hid hexternal, External.canonicalName]
      by_cases hwhole : exported = "*"
      · simp only [hwhole, beq_self_eq_true, if_true]
        exact hname ▸ hshows.rooted
      by_cases hdefault : exported = "default"
      · simp only [hdefault, beq_self_eq_true, if_true]
        by_cases hnamed : external.needsNamed = true
        -- the default export has a variable of its own
        · have hinterop : bundle.nameOf (.interop id) = external.defaultName := by
            simp [nameOf, Option.mem_def.mp hexternal]
          rw [External.Provides, if_pos hdefault] at hprovides
          have hshows' : bundle.Shows (.interop id) := ⟨external, hexternal, hprovides, hnamed⟩
          simpa [hnamed, hinterop] using hshows'.rooted
        · simpa [hnamed, hname] using hshows.rooted
      · refine ⟨.external id, hshows, Or.inr ⟨id, exported, rfl, ?_⟩⟩
        simp [hwhole, hdefault, hname]

namespace Built

variable (hbuilt : bundle.Built)

include hbuilt

/-- A statement of the bundle is printed unless it may leave no text behind. -/
theorem keeps_of_mem {address : Address} {statement : Statement}
    (haddress : address ∈ bundle.statements)
    (hstatement : bundle.graph.statement? address = some statement)
    (hvoid : isVoid statement.form = false) : bundle.Keeps address :=
  hbuilt.keeps ((hbuilt.statements address).mp haddress).1 hstatement hvoid

/-- What claims a name is there. -/
theorem rooted_of_claim {claim : Claim} (hclaim : claim ∈ bundle.claims) :
    bundle.Rooted (bundle.nameOf claim.binding) := by
  have hbinds := hbuilt.binds claim hclaim
  obtain ⟨claimed, owner⟩ := claim
  cases owner with
  | module id =>
      obtain ⟨address, haddress, hid, statement, hstatement, hname⟩ := hbinds
      obtain ⟨module, hmodule, hget⟩ := Graph.statement?_eq_some_iff.mp hstatement
      have hvoid := (hbuilt.traced.sourced _ module hmodule).isVoid_of_mem_defines hget hname
      have hkeeps := hbuilt.keeps_of_mem haddress hstatement hvoid
      have hshows : bundle.Shows (.declared id claimed) :=
        ⟨address, hkeeps, hid, statement, hstatement, hname⟩
      exact hshows.rooted
  | anonymousDefault id =>
      obtain ⟨address, haddress, rfl, module, hmodule, hanonymous⟩ := hbinds
      have hsourced := hbuilt.traced.sourced _ module hmodule
      obtain ⟨statement, hget, hform⟩ := hsourced.anonymousDefault hanonymous
      have hstatement : bundle.graph.statement? address = some statement :=
        Graph.statement?_eq_some_iff.mpr ⟨module, hmodule, hget⟩
      rcases hform with hnameless | hdefines
      · have hkeeps := hbuilt.keeps_of_mem haddress hstatement (isVoid_of_isNameless hnameless)
        have hshows : bundle.Shows (.anonymousDefault address.module) :=
          ⟨address, hkeeps, rfl, ⟨module, hmodule, hanonymous⟩, statement, hstatement, hnameless⟩
        exact hshows.rooted
      · have hvoid := hsourced.isVoid_of_mem_defines hget hdefines
        have hkeeps := hbuilt.keeps_of_mem haddress hstatement hvoid
        have hshows : bundle.Shows (.declared address.module "default") :=
          ⟨address, hkeeps, rfl, statement, hstatement, hdefines⟩
        exact hshows.rooted
  | namespaceObject id =>
      have hshows : bundle.Shows (.namespaceObject id) := hbinds
      exact hshows.rooted
  | external id =>
      have hshows : bundle.Shows (.external id) := hbinds
      exact hshows.rooted

theorem rooted_of_settled {canonical : String}
    (hget : bundle.naming.get? id name = some canonical) :
    bundle.Rooted (bundle.printed id name) := by
  obtain ⟨claim, hclaim, hplace⟩ := hbuilt.settled id name canonical hget
  rw [printed, ← nameOf_of_place hplace]
  exact hbuilt.rooted_of_claim hclaim

/-- What is printed for a name that is looked after is there, if the chain of the name ends. -/
theorem rooted_of_supplied (hstarless : bundle.Starless) (hsupplied : bundle.graph.Supplied id name)
    (hmodule : bundle.graph.module? id = some module) {destination : Destination}
    (hends : bundle.graph.EndsAt disk (module, name) destination) :
    bundle.Rooted (bundle.printed id name) := by
  obtain ⟨hholds, -, hprinted | hblurs⟩ := hbuilt.denotes hends hsupplied hmodule
  · dsimp only at hprinted
    rw [hprinted]
    exact hholds.rooted
  · obtain ⟨other, target, exported, htarget, -, hforwards, rfl | ⟨claim, hclaim, -, htext⟩⟩ :=
      hblurs
    · have hstar := hstarless target (List.mem_of_getElem? htarget)
      simp [Module.forwards, hstar] at hforwards
    · dsimp only at htext
      rw [htext]
      exact hbuilt.rooted_of_claim hclaim

/-- The entry module is demanded as a whole, with what its export lists name. -/
theorem marks_entry : bundle.graph.Marks (.everything bundle.entry true) :=
  hbuilt.complete.marked _ List.mem_cons_self

theorem supplied_of_listed {index : Nat} {statement : Statement}
    (hstatement : bundle.graph.statement? ⟨bundle.entry, index⟩ = some statement)
    (hlisted : name ∈ listedNames statement.form) : bundle.graph.Supplied bundle.entry name :=
  Or.inl (hbuilt.marks_entry.2 _ (.listed hstatement hlisted))

/-- The default export of the entry module is looked after. -/
theorem supplied_default (hmodule : bundle.graph.module? bundle.entry = some module) :
    bundle.graph.Supplied bundle.entry "default" := by
  cases himport : module.imports.get? "default" with
  | none =>
      refine Or.inr ⟨⟨true, hbuilt.marks_entry⟩, fun found hfound => ?_⟩
      obtain rfl := Option.some.inj (hmodule.symm.trans hfound)
      exact himport
  | some entry =>
      have hsourced := hbuilt.traced.sourced _ module hmodule
      obtain ⟨index, statement, hget, hlisted⟩ := hsourced.imports_default himport
      exact hbuilt.supplied_of_listed
        (Graph.statement?_eq_some_iff.mpr ⟨module, hmodule, hget⟩) hlisted

/-- A name behind an export of the entry module is looked after, or else it is defined by a
statement that is printed. -/
theorem supplied_or_shows (hmodule : bundle.graph.module? bundle.entry = some module)
    {key : String} {entry : Export} (hentry : module.exports.get? key = some entry) :
    bundle.graph.Supplied bundle.entry entry.localName ∨
      bundle.Shows (.declared bundle.entry entry.localName) := by
  have hsourced := hbuilt.traced.sourced _ module hmodule
  obtain ⟨index, statement, hget, -, hlisted | hdefines | ⟨hdefault, -⟩⟩ :=
    hsourced.export_cases hentry
  · exact Or.inl (hbuilt.supplied_of_listed
      (Graph.statement?_eq_some_iff.mpr ⟨module, hmodule, hget⟩) hlisted)
  · have hstatement : bundle.graph.statement? ⟨bundle.entry, index⟩ = some statement :=
      Graph.statement?_eq_some_iff.mpr ⟨module, hmodule, hget⟩
    have hvoid := hsourced.isVoid_of_mem_defines hget hdefines
    have hplain := plain_of_isVoid hvoid
    have hincludes := hbuilt.marks_entry.2 _ (.plain hstatement hplain.1 hplain.2)
    exact Or.inr ⟨_, hbuilt.keeps hincludes hstatement hvoid, rfl, statement, hstatement, hdefines⟩
  · rw [hdefault]
    exact Or.inl (hbuilt.supplied_default hmodule)

/-- An import that nothing has asked for has not been followed, and its chain of meanings ends. -/
theorem endsWithin_of_not_supplied (hmodule : bundle.graph.module? bundle.entry = some module)
    (hunsupplied : ¬ bundle.graph.Supplied bundle.entry name) :
    ∃ steps, bundle.graph.endsWithin steps bundle.entry name = true := by
  by_cases hstar : name = "*"
  · subst hstar
    obtain ⟨text, hmeaning⟩ := bundle.graph.meaning_star bundle.entry
    exact ⟨1, Graph.endsWithin_of_here hmeaning 0⟩
  cases himport : module.imports.get? name with
  | none =>
      refine absurd (Or.inr ⟨⟨true, hbuilt.marks_entry⟩, fun found hfound => ?_⟩) hunsupplied
      obtain rfl := Option.some.inj (hmodule.symm.trans hfound)
      exact himport
  | some entry =>
      have hnone : entry.target = none := by
        by_contra hsome
        obtain ⟨target, htarget⟩ := Option.ne_none_iff_exists'.mp hsome
        have hasked := (hbuilt.traced.links _ module name entry target hmodule himport htarget).1
        exact hunsupplied (Or.inl ⟨module, hmodule, hasked⟩)
      have hmeaning : bundle.graph.meaning bundle.entry name = .here name := by
        simp [Graph.meaning, hmodule, hstar, himport, Graph.importMeaning, hnone]
      exact ⟨1, Graph.endsWithin_of_here hmeaning 0⟩

/-- What is printed for the default export of the entry module is there, if the chain of the name
behind it ends. -/
theorem rooted_of_ownDefault (hstarless : bundle.Starless)
    (hmodule : bundle.graph.module? bundle.entry = some module) {entry : Export}
    (hentry : module.exports.get? "default" = some entry)
    (hown : module.imports.get? "default" = none) {destination : Destination}
    (hends : bundle.graph.EndsAt disk (module, entry.localName) destination) :
    bundle.Rooted (bundle.printed bundle.entry "default") := by
  by_cases hdefault : entry.localName = "default"
  · rw [hdefault] at hends
    exact hbuilt.rooted_of_supplied hstarless (hbuilt.supplied_default hmodule) hmodule hends
  -- the name behind the default export is printed for it, unless its place has been given away
  cases hget : bundle.naming.get? bundle.entry "default" with
  | some canonical => exact hbuilt.rooted_of_settled hget
  | none =>
      have hidentifier : entry.identifier = none := by
        by_contra hsome
        obtain ⟨mentioned, hmentioned⟩ := Option.ne_none_iff_exists'.mp hsome
        have hsourced := hbuilt.traced.sourced _ module hmodule
        exact hdefault (hsourced.default_identifier hentry hmentioned).1
      have hmeaning : bundle.graph.meaning bundle.entry "default" =
          .elsewhere bundle.entry entry.localName := by
        simp [Graph.meaning, hmodule, hown, Graph.defaultMeaning, hentry, hidentifier, hdefault]
      by_cases hsupplied : bundle.graph.Supplied bundle.entry entry.localName
      · obtain ⟨-, ⟨steps, hsteps⟩, -⟩ := hbuilt.denotes hends hsupplied hmodule
        rw [printed_of_elsewhere hget hmeaning hsteps]
        exact hbuilt.rooted_of_supplied hstarless hsupplied hmodule hends
      · obtain ⟨steps, hsteps⟩ := hbuilt.endsWithin_of_not_supplied hmodule hsupplied
        rw [printed_of_elsewhere hget hmeaning hsteps]
        exact ((hbuilt.supplied_or_shows hmodule hentry).resolve_left hsupplied).rooted

end Built

/-- What is printed for a reference, or for an export of the entry module, starts with the name of
something that is there in the bundle, if the chain of the name ends at all. -/
theorem rooted_of_prints {entry : Path} {log later : List Log.Entry}
    (hbuild : (build disk entry).run log = .ok bundle later) (hstarless : bundle.Starless)
    {asked start : String} (hprints : bundle.Prints id asked start)
    (hmodule : bundle.graph.module? id = some module) {destination : Destination}
    (hends : bundle.graph.EndsAt disk (module, start) destination) :
    bundle.Rooted (bundle.printed id asked) := by
  have hbuilt := built_of_build hbuild
  cases hprints with
  | @reference address statement _ haddress hstatement hname =>
      have hincludes := ((hbuilt.statements address).mp haddress).1
      have hrequested := (hbuilt.complete.settled (.statement address) hincludes).calls _
        (.dependency hstatement hname)
      exact hbuilt.rooted_of_supplied hstarless (Or.inl hrequested) hmodule hends
  | exported hfound hentry =>
      rcases hbuilt.supplied_or_shows hfound hentry with hsupplied | hshows
      · exact hbuilt.rooted_of_supplied hstarless hsupplied hmodule hends
      · exact hshows.rooted
  | importedDefault =>
      exact hbuilt.rooted_of_supplied hstarless (hbuilt.supplied_default hmodule) hmodule hends
  | @ownDefault found entry hfound hentry hown =>
      obtain rfl := Option.some.inj (hmodule.symm.trans hfound)
      exact hbuilt.rooted_of_ownDefault hstarless hmodule hentry hown hends

/-- A module that takes a name from another one, which imports it from an external module. -/
def relayDisk : Disk where
  workingDirectory := []
  files := [(["main.js"], .text
      "import \x7b joined as b \x7d from './lib';\nexport var r = b;\n".toList),
    (["lib.js"], .text
      "import \x7b join \x7d from 'path';\nexport \x7b join as joined \x7d;\n".toList)]
  directories := []

theorem rooted_relayDisk : ∃ bundle log, (build relayDisk ⟨"main.js"⟩).run [] = .ok bundle log ∧
    bundle.Starless ∧ bundle.Prints 0 "b" "b" ∧ bundle.Rooted (bundle.printed 0 "b") := by
  obtain ⟨bundle, log, hbuild, hcheck⟩ := exists_of_passes relayDisk ⟨"main.js"⟩
    (fun bundle => decide (bundle.Starless ∧ (⟨0, 1⟩ : Address) ∈ bundle.statements ∧
      (∃ statement ∈ bundle.graph.statement? ⟨0, 1⟩, "b" ∈ statement.dependsOn) ∧
      ∃ module ∈ bundle.graph.module? 0, bundle.graph.destination? relayDisk 2 module "b" =
        some (.external "path" "join")))
    (by decide +kernel)
  obtain ⟨hstarless, haddress, ⟨statement, hstatement, hname⟩, module, hmodule, hchain⟩ :=
    of_decide_eq_true hcheck
  have hprints : bundle.Prints 0 "b" "b" := .reference haddress hstatement hname
  exact ⟨bundle, log, hbuild, hstarless, hprints,
    rooted_of_prints hbuild hstarless hprints hmodule (Graph.endsAt_of_destination? hchain)⟩

end Bundle
end ScriptBundler
