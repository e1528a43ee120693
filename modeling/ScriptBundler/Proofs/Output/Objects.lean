import ScriptBundler.Proofs.Output.Capture
import ScriptBundler.Proofs.Output.Denotations

/-!
# Objects for whole modules

A module that is imported as a whole gets an object in the bundle, with an accessor for each of its
exports, which returns what is printed for the name behind the export.  An export is complete if the
bundle holds what the chain of that name ends at, and prints the name accordingly.

All statements of such a module are in the bundle, but its export lists count for nothing there, so
that a name which it passes on is followed only if something else asks for it.  Exports that are
followed are complete, as long as no name on their chains is blurred; the others need not be.
-/

namespace ScriptBundler

open Files ScriptBundler.Module

namespace Assembly

/-- The accessors for exports return what is printed for the names behind the exports, whatever has
been asked for before. -/
theorem run_getters {graph : Graph} {base : Naming} (hacyclic : graph.AcyclicAliases) (id : Nat)
    (indent : String) (exports : Table Export) {draft : Draft}
    (hcaches : base.Caches graph draft.naming) :
    ∃ naming, base.Caches graph naming ∧
      (getters graph id indent exports).run draft =
        .ok (exports.map fun entry =>
          let canonical := (base.canonicalName graph id entry.2.localName).1
          s!"{indent}get {entry.1} () \x7b return {canonical} \x7d") ⟨naming, draft.log⟩ := by
  induction exports generalizing draft with
  | nil => exact ⟨draft.naming, hcaches, rfl⟩
  | cons first rest ih =>
      obtain ⟨key, entry⟩ := first
      obtain ⟨hresolves, hcached⟩ := hcaches.canonicalName hacyclic id entry.localName
      have hfirst := (Naming.Caches.refl graph base).canonicalName hacyclic id entry.localName
      -- the rest starts from the names that the first accessor has settled
      have hcached' : base.Caches graph (⟨_, draft.log⟩ : Draft).naming := hcached
      obtain ⟨naming, hnaming, hrest⟩ := ih hcached'
      refine ⟨naming, hnaming, ?_⟩
      rw [getters, run_bind_of_ok (run_canonicalName ..), run_bind_of_ok hrest,
        hresolves.unique hfirst.1]
      rfl

end Assembly

namespace Bundle

/-- Whether the bundle holds what the chain of a name ends at, if it ends, and prints the name
accordingly. -/
def Denotes (bundle : Bundle) (disk : Disk) (id : Nat) (name : String) : Prop :=
  ∀ module ∈ bundle.graph.module? id, ∀ destination,
    bundle.graph.EndsAt disk (module, name) destination →
    bundle.Holds destination ∧ bundle.printed id name = bundle.textOf destination

/-- Whether an accessor of the object for a module that is imported as a whole returns what is
printed for a name. -/
def Exposes (bundle : Bundle) (id : Nat) (name : String) : Prop :=
  id ∈ bundle.graph.namespaces ∧
    ∃ module ∈ bundle.graph.module? id, ∃ key, ∃ entry ∈ module.exports.get? key,
      entry.localName = name

/-- Whether a name of a module is followed to its end: it is not imported, or something has asked
for it, and no name on its chain is blurred. -/
def Followed (bundle : Bundle) (disk : Disk) (id : Nat) (name : String) : Prop :=
  ∀ module ∈ bundle.graph.module? id,
    (module.imports.get? name = none ∨ bundle.graph.Requested id name) ∧
      bundle.Clear disk (module, name)

/-- Whether the objects for whole modules are complete. -/
def ObjectsComplete (bundle : Bundle) (disk : Disk) : Prop :=
  ∀ id name, bundle.Exposes id name → bundle.Denotes disk id name

variable {bundle : Bundle} {disk : Disk} {id : Nat} {name : String}

/-- All statements of a module that is imported as a whole are demanded. -/
theorem Built.marks_namespace (hbuilt : bundle.Built) (hid : id ∈ bundle.graph.namespaces) :
    bundle.graph.Marks (.everything id false) := by
  obtain ⟨importer, module, name, entry, hmodule, hentry, hwhole, htarget⟩ :=
    hbuilt.traced.namespaces id hid
  obtain ⟨hasked, path, hresolve, hpath, -⟩ :=
    hbuilt.traced.links importer module name entry (.internal id) hmodule hentry htarget
  have hleads : bundle.graph.leadsTo module entry = some id := by
    unfold Graph.leadsTo
    rw [hresolve]
    exact hpath
  have hrequested : bundle.graph.Requested importer name := ⟨module, hmodule, hasked⟩
  exact (hbuilt.complete.settled (.name importer name) hrequested).calls _
    (.wholeImport hmodule hentry hwhole hleads)

theorem Built.denotes_of_followed (hbuilt : bundle.Built) (hexposes : bundle.Exposes id name)
    (hfollowed : bundle.Followed disk id name) : bundle.Denotes disk id name := by
  intro module hmodule destination hends
  obtain ⟨hown, hclear⟩ := hfollowed module hmodule
  have hsupplied : bundle.graph.Supplied id name := by
    rcases hown with hown | hrequested
    · refine Or.inr ⟨⟨false, hbuilt.marks_namespace hexposes.1⟩, fun found hfound => ?_⟩
      obtain rfl := Option.some.inj (hmodule.symm.trans hfound)
      exact hown
    · exact Or.inl hrequested
  exact hbuilt.denotes_of_clear hsupplied hmodule hclear hends

/-- Names that are followed are complete in the objects for whole modules, so that the objects are
complete exactly if the other names in them are.  And the accessors of such an object are one for
each export, which returns what is printed for the name behind it, whatever has been printed
before. -/
theorem objectsComplete_iff {entry : Path} {log later : List Log.Entry}
    (hbuild : (build disk entry).run log = .ok bundle later) :
    (∀ id name, bundle.Exposes id name → bundle.Followed disk id name →
      bundle.Denotes disk id name) ∧
    (bundle.ObjectsComplete disk ↔ ∀ id name, bundle.Exposes id name →
      ¬ bundle.Followed disk id name → bundle.Denotes disk id name) ∧
    (bundle.graph.AcyclicAliases → ∀ id indent exports draft,
      bundle.naming.Caches bundle.graph draft.naming →
        ∃ naming, (Assembly.getters bundle.graph id indent exports).run draft =
          .ok (exports.map fun entry =>
            s!"{indent}get {entry.1} () \x7b return {bundle.printed id entry.2.localName} \x7d")
            ⟨naming, draft.log⟩) := by
  have hbuilt := built_of_build hbuild
  refine ⟨fun id name => hbuilt.denotes_of_followed,
    ⟨fun hcomplete id name hexposes _ => hcomplete id name hexposes,
      fun hothers id name hexposes => ?_⟩, fun hacyclic id indent exports draft hcaches => ?_⟩
  · by_cases hfollowed : bundle.Followed disk id name
    · exact hbuilt.denotes_of_followed hexposes hfollowed
    · exact hothers id name hexposes hfollowed
  · obtain ⟨naming, -, hgetters⟩ :=
      Assembly.run_getters hacyclic id indent exports hcaches
    exact ⟨naming, hgetters⟩

/-- A module that is imported as a whole, and that passes on a name of another one beside a name of
its own. -/
def passedOnDisk : Disk where
  workingDirectory := []
  files := [(["main.js"], .text
      "import * as all from './mid';\nexport var r = [all.x, all.z];\n".toList),
    (["mid.js"], .text "export \x7b x \x7d from './end';\nexport var z = 2;\n".toList),
    (["end.js"], .text "export var x = 1;\n".toList)]
  directories := []

/-- The module's own name is followed, and has an accessor. -/
theorem denotes_passedOnDisk : ∃ bundle log module naming,
    (build passedOnDisk ⟨"main.js"⟩).run [] = .ok bundle log ∧
      bundle.Exposes 1 "z" ∧ bundle.Followed passedOnDisk 1 "z" ∧
      bundle.Denotes passedOnDisk 1 "z" ∧ bundle.graph.AcyclicAliases ∧
      bundle.graph.module? 1 = some module ∧
      (Assembly.getters bundle.graph 1 "\t" module.exports).run ⟨bundle.naming, []⟩ =
        .ok ["\tget x () \x7b return x \x7d", "\tget z () \x7b return z \x7d"] ⟨naming, []⟩ := by
  obtain ⟨bundle, log, hbuild, hcheck⟩ := exists_of_passes passedOnDisk ⟨"main.js"⟩
    (fun bundle => decide (bundle.graph.AcyclicAliases ∧ 1 ∈ bundle.graph.namespaces ∧
      ∃ module ∈ bundle.graph.module? 1, module.forwards "z" = false ∧
        (∃ entry ∈ module.exports.get? "z", entry.localName = "z") ∧
        module.exports.map (fun entry =>
          s!"\tget {entry.1} () \x7b return {bundle.printed 1 entry.2.localName} \x7d") =
            ["\tget x () \x7b return x \x7d", "\tget z () \x7b return z \x7d"]))
    (by decide +kernel)
  obtain ⟨hacyclic, hwhole, module, hmodule, hforwards, ⟨entry, hentry, hlocal⟩, htexts⟩ :=
    of_decide_eq_true hcheck
  have hexposes : bundle.Exposes 1 "z" := ⟨hwhole, module, hmodule, "z", entry, hentry, hlocal⟩
  have hfollowed : bundle.Followed passedOnDisk 1 "z" := by
    intro found hfound
    obtain rfl := Option.mem_unique hmodule hfound
    exact ⟨Or.inl (own_of_not_forwards hforwards), clear_of_not_forwards hforwards⟩
  obtain ⟨hdenotes, -, hgetters⟩ := objectsComplete_iff hbuild
  obtain ⟨naming, hrun⟩ :=
    hgetters hacyclic 1 "\t" module.exports ⟨bundle.naming, []⟩ (.refl _ _)
  exact ⟨bundle, log, module, naming, hbuild, hexposes, hfollowed,
    hdenotes 1 "z" hexposes hfollowed, hacyclic, hmodule, htexts ▸ hrun⟩

/-- The name that the module passes on is not followed, and the module that declares it is not even
read. -/
theorem not_objectsComplete_passedOnDisk : ∃ bundle log,
    (build passedOnDisk ⟨"main.js"⟩).run [] = .ok bundle log ∧
      ¬ bundle.ObjectsComplete passedOnDisk := by
  obtain ⟨bundle, log, hbuild, hcheck⟩ := exists_of_passes passedOnDisk ⟨"main.js"⟩
    (fun bundle => decide (1 ∈ bundle.graph.namespaces ∧
      bundle.graph.idOf? ⟨"/end.js"⟩ = none ∧
      ∃ module ∈ bundle.graph.module? 1, (∃ entry ∈ module.exports.get? "x",
        entry.localName = "x") ∧ bundle.graph.destination? passedOnDisk 2 module "x" =
          some (.declared ⟨"/end.js"⟩ "x")))
    (by decide +kernel)
  obtain ⟨hwhole, hunread, module, hmodule, ⟨entry, hentry, hlocal⟩, hchain⟩ :=
    of_decide_eq_true hcheck
  refine ⟨bundle, log, hbuild, fun hcomplete => ?_⟩
  obtain ⟨⟨id, hid, -⟩, -⟩ := hcomplete 1 "x" ⟨hwhole, module, hmodule, "x", entry, hentry, hlocal⟩
    module hmodule _ (Graph.endsAt_of_destination? hchain)
  rw [hunread] at hid
  exact Option.not_mem_none id hid

end Bundle
end ScriptBundler
