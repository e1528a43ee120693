import ScriptBundler.Proofs.Graph.Chains
import ScriptBundler.Proofs.Output.Built

/-!
# What printed names denote

The chain of a name, by the sources, ends at some binding.  The bundle holds that binding and prints
the name as it prints the binding, provided that it has looked after the name, and that no name on
the chain is blurred: a module may declare a name that it only passes on, or pass on a name that is
written `*`, and then the name is printed in one way for both.
-/

namespace ScriptBundler

open Files ScriptBundler.Module Script Assembly

namespace Module

/-- What leaves a text behind is neither an import nor an export list. -/
theorem plain_of_isVoid {form : ItemForm} (hvoid : isVoid form = false) :
    isImport form = false ∧ listedNames form = [] := by
  cases form with
  | importDecl | exportList => contradiction
  | _ => exact ⟨rfl, rfl⟩

end Module

namespace Assembly

variable {graph : Graph} {id : Nat} {module : Module} {statement : Statement}

/-- Only void statements leave no text behind when export syntax is taken away. -/
theorem isVoid_of_stripExport {draft after : Draft}
    (hrun : (stripExport graph id module statement).run draft = .ok none after) :
    isVoid statement.form = true := by
  have hsome : ∀ {computation : Assembly Text.Snippet} {draft after : Draft},
      (some <$> computation).run draft ≠ .ok none after := by
    intro computation draft after hrun
    rw [map_eq_pure_bind] at hrun
    obtain ⟨value, middle, -, hpure⟩ := run_bind_eq_ok hrun
    rw [run_pure] at hpure
    obtain ⟨hnone, -⟩ := EStateM.Result.ok.inj hpure
    contradiction
  have hdefault : ∀ {name : Option Ident} {snippet : Text.Snippet} {span : Span} {start : Nat}
      {draft after : Draft},
      (stripDefault graph id name snippet span start).run draft ≠ .ok none after := by
    intro name snippet span start draft after hrun
    cases name with
    | some name => exact hsome hrun
    | none =>
        obtain ⟨canonical, middle, -, hrest⟩ := run_bind_eq_ok hrun
        exact hsome hrest
  unfold stripExport at hrun
  cases hform : statement.form with
  | importDecl | exportList => rfl
  | statement =>
      rw [hform] at hrun
      obtain ⟨hnone, -⟩ := EStateM.Result.ok.inj hrun
      contradiction
  | exportAll =>
      rw [hform] at hrun
      contradiction
  | exportDecl =>
      rw [hform] at hrun
      exact absurd hrun hsome
  | exportDefaultFunction | exportDefaultClass =>
      rw [hform] at hrun
      exact absurd hrun hdefault
  | exportDefaultExpr value =>
      rw [hform] at hrun
      obtain ⟨canonical, middle, -, hrest⟩ := run_bind_eq_ok hrun
      cases value with
      | ident id => rfl
      | _ => exact absurd hrest hsome

theorem isVoid_of_renderStatement {draft after : Draft}
    (hrun : (renderStatement graph id module statement).run draft = .ok none after) :
    isVoid statement.form = true := by
  obtain ⟨stripped, middle, hstripped, hrest⟩ := run_bind_eq_ok hrun
  cases stripped with
  | none => exact isVoid_of_stripExport hstripped
  | some snippet =>
      obtain ⟨_, _, -, hrest⟩ := run_bind_eq_ok hrest
      obtain ⟨_, _, -, hrest⟩ := run_bind_eq_ok hrest
      obtain ⟨hnone, -⟩ := EStateM.Result.ok.inj hrest
      contradiction

end Assembly

namespace Bundle

variable {bundle : Bundle} {disk : Disk} {id : Nat} {module : Module} {name : String}

/-- The text that is printed for a name of a module. -/
def printed (bundle : Bundle) (id : Nat) (name : String) : String :=
  (bundle.naming.canonicalName bundle.graph id name).1

/-- Whether a bundle prints a statement, and does not drop it. -/
def Keeps (bundle : Bundle) (address : Address) : Prop :=
  address ∈ bundle.statements ∧
    ∀ module ∈ bundle.graph.module? address.module,
      ∀ statement ∈ bundle.graph.statement? address, ∀ draft after,
        (renderStatement bundle.graph address.module module statement).run draft ≠ .ok none after

/-- Whether a binding is there in the text of a bundle.  A name is bound by a statement that is
printed, and so is the default export of a module that has no name. -/
def Shows (bundle : Bundle) : Binding → Prop
  | .declared id name =>
      ∃ address, bundle.Keeps address ∧ address.module = id ∧
        ∃ statement ∈ bundle.graph.statement? address, name ∈ statement.defines
  | .anonymousDefault id =>
      ∃ address, bundle.Keeps address ∧ address.module = id ∧
        (∃ module ∈ bundle.graph.module? id, module.anonymousDefault? = some address.index) ∧
        ∃ statement ∈ bundle.graph.statement? address, isNameless statement.form = true
  | .namespaceObject id => bundle.Binds (.namespaceObject id)
  | .external id => bundle.Binds (.external id)
  | .interop id => bundle.Binds (.interop id)

/-- Whether a bundle holds what a chain ends at. -/
def Holds (bundle : Bundle) : Destination → Prop
  | .declared path name => ∃ id ∈ bundle.graph.idOf? path, bundle.Shows (.declared id name)
  | .anonymousDefault path => ∃ id ∈ bundle.graph.idOf? path, bundle.Shows (.anonymousDefault id)
  | .whole path => ∃ id ∈ bundle.graph.idOf? path, bundle.Shows (.namespaceObject id)
  | .external specifier exported => ∃ id ∈ bundle.graph.externalIdOf? specifier,
      ∃ external ∈ bundle.graph.external? id, external.Provides exported

/-- The text under which a bundle holds what a chain ends at. -/
def textOf (bundle : Bundle) : Destination → String
  | .declared path name =>
      ((bundle.graph.idOf? path).map fun id => bundle.nameOf (.declared id name)).getD ""
  | .anonymousDefault path =>
      ((bundle.graph.idOf? path).map fun id => bundle.nameOf (.anonymousDefault id)).getD ""
  | .whole path =>
      ((bundle.graph.idOf? path).map fun id => bundle.nameOf (.namespaceObject id)).getD ""
  | .external specifier exported =>
      (((bundle.graph.externalIdOf? specifier).bind bundle.graph.external?).map
        (·.canonicalName exported)).getD ""

theorem textOf_declared {path : Path} (hid : bundle.graph.idOf? path = some id) (name : String) :
    bundle.textOf (.declared path name) = bundle.printed id name := by
  simp [textOf, hid, nameOf, printed]

theorem textOf_anonymousDefault {path : Path} (hid : bundle.graph.idOf? path = some id) :
    bundle.textOf (.anonymousDefault path) = bundle.printed id "default" := by
  simp [textOf, hid, nameOf, printed]

theorem textOf_whole {path : Path} (hid : bundle.graph.idOf? path = some id) :
    bundle.textOf (.whole path) = bundle.printed id "*" := by
  simp [textOf, hid, nameOf, printed]

theorem textOf_external {specifier : String} {external : External}
    (hid : bundle.graph.externalIdOf? specifier = some id)
    (hexternal : bundle.graph.external? id = some external) (exported : String) :
    bundle.textOf (.external specifier exported) = external.canonicalName exported := by
  simp [textOf, hid, hexternal]

/-- Whether a name that a module only passes on is blurred: it is `*`, or else something in the
bundle claims its place. -/
def Blurred (bundle : Bundle) (id : Nat) (module : Module) (name : String) : Prop :=
  module.forwards name = true ∧
    (name = "*" ∨ ∃ claim ∈ bundle.claims, claim.place? = some (id, name))

/-- Whether no name on the chain of a name is blurred. -/
def Clear (bundle : Bundle) (disk : Disk) (place : Module × String) : Prop :=
  ∀ id module name, bundle.graph.module? id = some module →
    Relation.ReflTransGen (bundle.graph.PassesOn disk) place (module, name) →
    ¬ bundle.Blurred id module name

theorem own_of_not_forwards (hforwards : module.forwards name = false) :
    module.imports.get? name = none := by
  cases himport : module.imports.get? name with
  | none => rfl
  | some entry => simp [Module.forwards, himport] at hforwards

/-- The chain of a name that is not passed on has no other names. -/
theorem clear_of_not_forwards (hforwards : module.forwards name = false) :
    bundle.Clear disk (module, name) := by
  rintro id found other - hreach ⟨hforwards', -⟩
  rcases hreach.cases_head with heq | ⟨next, hpasses, -⟩
  · obtain ⟨rfl, rfl⟩ := Prod.mk.inj heq
    rw [hforwards] at hforwards'
    contradiction
  · rw [hpasses.forwards] at hforwards
    contradiction

/-- Whether a blurred name on the chain of a name accounts for a text: the name is `*`, or the text
is that of what claims its place. -/
def Blurs (bundle : Bundle) (disk : Disk) (place : Module × String) (text : String) : Prop :=
  ∃ id module name, bundle.graph.module? id = some module ∧
    Relation.ReflTransGen (bundle.graph.PassesOn disk) place (module, name) ∧
    module.forwards name = true ∧
    (name = "*" ∨
      ∃ claim ∈ bundle.claims, claim.place? = some (id, name) ∧ text = bundle.nameOf claim.binding)

theorem Blurs.not_clear {place : Module × String} {text : String}
    (hblurs : bundle.Blurs disk place text) : ¬ bundle.Clear disk place := by
  obtain ⟨id, module, name, hmodule, hreach, hforwards, hblurred⟩ := hblurs
  refine fun hclear => hclear id module name hmodule hreach ⟨hforwards, hblurred.imp_right ?_⟩
  rintro ⟨claim, hclaim, hplace, -⟩
  exact ⟨claim, hclaim, hplace⟩

theorem Blurs.head {place next : Module × String} {text : String}
    (hpasses : bundle.graph.PassesOn disk place next) (hblurs : bundle.Blurs disk next text) :
    bundle.Blurs disk place text := by
  obtain ⟨id, module, name, hmodule, hreach, hrest⟩ := hblurs
  exact ⟨id, module, name, hmodule, .head hpasses hreach, hrest⟩

/-- A name with a made-up place of its own, or which is printed as the next name of its chain. -/
theorem printed_of_elsewhere {other steps : Nat} {exported : String}
    (hget : bundle.naming.get? id name = none)
    (hmeaning : bundle.graph.meaning id name = .elsewhere other exported)
    (hends : bundle.graph.endsWithin steps other exported = true) :
    bundle.printed id name = bundle.printed other exported := by
  have hresolves := Naming.Resolves.elsewhere hget hmeaning
    (bundle.naming.resolves_canonicalName hends)
  exact hresolves.canonicalName_eq ((Graph.endsWithin_of_elsewhere hmeaning steps).trans hends)

namespace Built

variable (hbuilt : bundle.Built)

include hbuilt

/-- A statement that defines something is printed if it is included. -/
theorem keeps {address : Address} {statement : Statement}
    (hincludes : bundle.graph.Includes address)
    (hstatement : bundle.graph.statement? address = some statement)
    (hvoid : isVoid statement.form = false) : bundle.Keeps address := by
  refine ⟨(hbuilt.statements address).mpr ⟨hincludes, statement, hstatement, ?_⟩, ?_⟩
  · cases hform : statement.form with
    | exportList => rw [hform] at hvoid; contradiction
    | _ => rfl
  · intro module _ found hfound draft after hrun
    obtain rfl := Option.some.inj (hstatement.symm.trans hfound)
    rw [isVoid_of_renderStatement hrun] at hvoid
    contradiction

/-- A name that has been settled although it is passed on is blurred. -/
theorem blurs_of_settled (hmodule : bundle.graph.module? id = some module)
    (hforwards : module.forwards name = true) {canonical : String}
    (hget : bundle.naming.get? id name = some canonical) :
    bundle.Blurs disk (module, name) (bundle.printed id name) := by
  obtain ⟨claim, hclaim, hplace⟩ := hbuilt.settled id name canonical hget
  exact ⟨id, module, name, hmodule, .refl, hforwards,
    Or.inr ⟨claim, hclaim, hplace, (nameOf_of_place hplace).symm⟩⟩

/-- What a name that is looked after needs is printed, if it leaves a text behind. -/
theorem keeps_of_calls (hsupplied : bundle.graph.Supplied id name) {index : Nat}
    {statement : Statement}
    (hcalls : bundle.graph.Calls (.name id name) (.statement ⟨id, index⟩))
    (hstatement : bundle.graph.statement? ⟨id, index⟩ = some statement)
    (hvoid : isVoid statement.form = false) : bundle.Keeps ⟨id, index⟩ := by
  have hplain := plain_of_isVoid hvoid
  exact hbuilt.keeps
    (hsupplied.includes hbuilt.complete hcalls hstatement hplain.1 hplain.2) hstatement hvoid

/-- A name that is passed on comes to an end if it does so unless it is `*`, and it is printed as
it is if nothing claims its place, or else it is blurred. -/
theorem printed_of_forwards (disk : Disk) (hmodule : bundle.graph.module? id = some module)
    (hforwards : module.forwards name = true) {text : String}
    (hends : name ≠ "*" → ∃ steps, bundle.graph.endsWithin steps id name = true)
    (hprinted : name ≠ "*" → bundle.naming.get? id name = none → bundle.printed id name = text) :
    (∃ steps, bundle.graph.endsWithin steps id name = true) ∧
      (bundle.printed id name = text ∨
        bundle.Blurs disk (module, name) (bundle.printed id name)) := by
  by_cases hstar : name = "*"
  · subst hstar
    obtain ⟨here, hmeaning⟩ := bundle.graph.meaning_star id
    exact ⟨⟨1, Graph.endsWithin_of_here hmeaning 0⟩,
      Or.inr ⟨id, module, "*", hmodule, .refl, hforwards, Or.inl rfl⟩⟩
  refine ⟨hends hstar, ?_⟩
  cases hget : bundle.naming.get? id name with
  | some canonical => exact Or.inr (hbuilt.blurs_of_settled hmodule hforwards hget)
  | none => exact Or.inl (hprinted hstar hget)

/-- A name that is defined where its chain starts. -/
theorem denotes_declared {index : Nat} (hsupplied : bundle.graph.Supplied id name)
    (hmodule : bundle.graph.module? id = some module)
    (hunimported : module.imports.get? name = none) (hname : name ≠ "default")
    (hindex : module.definitions.get? name = some index) :
    bundle.Holds (.declared module.path name) ∧
      (∃ steps, bundle.graph.endsWithin steps id name = true) ∧
      bundle.printed id name = bundle.textOf (.declared module.path name) := by
  have hown := hbuilt.traced.own id module hmodule
  have hsourced := hbuilt.traced.sourced id module hmodule
  obtain ⟨statement, hget, hdefines⟩ := hsourced.definition hindex
  have hstatement : bundle.graph.statement? ⟨id, index⟩ = some statement :=
    Graph.statement?_eq_some_iff.mpr ⟨module, hmodule, hget⟩
  have hkeeps := hbuilt.keeps_of_calls hsupplied
    (.definition hmodule hunimported hname hindex) hstatement
    (hsourced.isVoid_of_mem_defines hget hdefines)
  refine ⟨⟨id, hown, ⟨id, index⟩, hkeeps, rfl, statement, hstatement, hdefines⟩, ?_,
    (textOf_declared hown name).symm⟩
  -- the name `*` is bound where it is, whatever the module says of it
  by_cases hstar : name = "*"
  · subst hstar
    obtain ⟨here, hmeaning⟩ := bundle.graph.meaning_star id
    exact ⟨1, Graph.endsWithin_of_here hmeaning 0⟩
  · exact ⟨1, Graph.endsWithin_of_here (Graph.meaning_own hmodule hstar hunimported hname) 0⟩

/-- A default export without a name. -/
theorem denotes_anonymousDefault {index : Nat} {statement : Statement}
    (hsupplied : bundle.graph.Supplied id "default")
    (hmodule : bundle.graph.module? id = some module)
    (hunimported : module.imports.get? "default" = none)
    (hanonymous : module.anonymousDefault? = some index)
    (hget : module.statement? index = some statement)
    (hnameless : isNameless statement.form = true) :
    bundle.Holds (.anonymousDefault module.path) ∧
      (∃ steps, bundle.graph.endsWithin steps id "default" = true) ∧
      bundle.printed id "default" = bundle.textOf (.anonymousDefault module.path) := by
  have hown := hbuilt.traced.own id module hmodule
  have hsourced := hbuilt.traced.sourced id module hmodule
  have hstatement : bundle.graph.statement? ⟨id, index⟩ = some statement :=
    Graph.statement?_eq_some_iff.mpr ⟨module, hmodule, hget⟩
  obtain ⟨entry, hentry, hindex, hdeclared⟩ := hsourced.nameless_default hanonymous hget hnameless
  have hkeeps := hbuilt.keeps_of_calls hsupplied
    (.defaultStatement hmodule hunimported hentry hdeclared hindex) hstatement
    (isVoid_of_isNameless hnameless)
  have hmeaning := Graph.meaning_anonymousDefault hmodule hunimported hanonymous
  exact ⟨⟨id, hown, ⟨id, index⟩, hkeeps, rfl, ⟨module, hmodule, hanonymous⟩, statement,
    hstatement, hnameless⟩, ⟨1, Graph.endsWithin_of_here hmeaning 0⟩,
    (textOf_anonymousDefault hown).symm⟩

/-- A name that stands for all of another module. -/
theorem denotes_whole {entry : Import} {path : Path} {target : Module}
    (hsupplied : bundle.graph.Supplied id name) (hmodule : bundle.graph.module? id = some module)
    (hentry : module.imports.get? name = some entry) (hwhole : entry.name = "*")
    (hresolve : resolveFrom (directoryOf module.path) entry.source = .file path)
    (htarget : bundle.graph.moduleAt? disk path = some target) :
    bundle.Holds (.whole target.path) ∧
      (∃ steps, bundle.graph.endsWithin steps id name = true) ∧
      (bundle.printed id name = bundle.textOf (.whole target.path) ∨
        bundle.Blurs disk (module, name) (bundle.printed id name)) := by
  have hforwards : module.forwards name = true := by simp [Module.forwards, hentry]
  obtain ⟨leads, hleads, hlinks⟩ := hbuilt.traced.links_of_requested
    (hsupplied.requested hmodule hentry) hmodule hentry
  cases leads with
  | external other =>
      obtain ⟨hexternal, -⟩ := hlinks
      rw [hresolve] at hexternal
      contradiction
  | internal other =>
      obtain ⟨path', hresolve', hid, hnamespace⟩ := hlinks
      obtain rfl := Resolution.file.inj (hresolve.symm.trans hresolve')
      rw [Graph.moduleAt?_of_idOf? hid] at htarget
      have hother := hbuilt.traced.own other target htarget
      have hmeaning : name ≠ "*" → bundle.graph.meaning id name = .elsewhere other "*" := by
        intro hstar
        simp [Graph.meaning, hmodule, hstar, hentry, Graph.importMeaning, hleads,
          Import.isNamespace, hwhole]
      obtain ⟨text, hhere⟩ := bundle.graph.meaning_star other
      have hends := Graph.endsWithin_of_here hhere 0
      refine ⟨⟨other, hother, hnamespace hwhole⟩,
        hbuilt.printed_of_forwards disk hmodule hforwards ?_ ?_⟩
      · intro hstar
        exact ⟨2, (Graph.endsWithin_of_elsewhere (hmeaning hstar) 1).trans hends⟩
      · intro hstar hget
        have hsame := printed_of_elsewhere hget (hmeaning hstar) hends
        exact hsame.trans (textOf_whole hother).symm

/-- A name of an external. -/
theorem denotes_external {entry : Import} (hsupplied : bundle.graph.Supplied id name)
    (hmodule : bundle.graph.module? id = some module)
    (hentry : module.imports.get? name = some entry)
    (hresolve : resolveFrom (directoryOf module.path) entry.source = .external) :
    bundle.Holds (.external entry.source entry.name) ∧
      (∃ steps, bundle.graph.endsWithin steps id name = true) ∧
      (bundle.printed id name = bundle.textOf (.external entry.source entry.name) ∨
        bundle.Blurs disk (module, name) (bundle.printed id name)) := by
  have hforwards : module.forwards name = true := by simp [Module.forwards, hentry]
  obtain ⟨leads, hleads, hlinks⟩ := hbuilt.traced.links_of_requested
    (hsupplied.requested hmodule hentry) hmodule hentry
  cases leads with
  | internal other =>
      obtain ⟨path, hfile, -⟩ := hlinks
      rw [hresolve] at hfile
      contradiction
  | external other =>
      obtain ⟨-, hid, external, hexternal, hprovides⟩ := hlinks
      have hmeaning : name ≠ "*" →
          bundle.graph.meaning id name = .here (external.canonicalName entry.name) := by
        intro hstar
        simp [Graph.meaning, hmodule, hstar, hentry, Graph.importMeaning, hleads, hexternal]
      refine ⟨⟨other, hid, external, hexternal, hprovides⟩,
        hbuilt.printed_of_forwards disk hmodule hforwards ?_ ?_⟩
      · intro hstar
        exact ⟨1, Graph.endsWithin_of_here (hmeaning hstar) 0⟩
      · intro hstar hget
        have hprinted := congrArg Prod.fst (Naming.canonicalName_of_here hget (hmeaning hstar))
        exact hprinted.trans (textOf_external hid hexternal entry.name).symm

/-- The last step of a chain whose first name is looked after. -/
theorem denotes_of_ends {destination : Destination} (hsupplied : bundle.graph.Supplied id name)
    (hmodule : bundle.graph.module? id = some module)
    (hends : bundle.graph.Ends disk (module, name) destination) :
    bundle.Holds destination ∧ (∃ steps, bundle.graph.endsWithin steps id name = true) ∧
      (bundle.printed id name = bundle.textOf destination ∨
        bundle.Blurs disk (module, name) (bundle.printed id name)) := by
  cases hends with
  | declared hunimported hname hindex =>
      obtain ⟨hholds, hsteps, hprinted⟩ :=
        hbuilt.denotes_declared hsupplied hmodule hunimported hname hindex
      exact ⟨hholds, hsteps, Or.inl hprinted⟩
  | anonymousDefault hunimported hanonymous hget hnameless =>
      obtain ⟨hholds, hsteps, hprinted⟩ :=
        hbuilt.denotes_anonymousDefault hsupplied hmodule hunimported hanonymous hget hnameless
      exact ⟨hholds, hsteps, Or.inl hprinted⟩
  | whole hentry hwhole hresolve htarget =>
      exact hbuilt.denotes_whole hsupplied hmodule hentry hwhole hresolve htarget
  | external hentry hresolve =>
      exact hbuilt.denotes_external hsupplied hmodule hentry hresolve

/-- The bundle holds what the chain of a name ends at, if it looks after the name, and prints the
name accordingly, if no name on the chain is blurred. -/
theorem denotes {destination : Destination} {place : Module × String}
    (hends : bundle.graph.EndsAt disk place destination)
    (hsupplied : bundle.graph.Supplied id place.2)
    (hmodule : bundle.graph.module? id = some place.1) :
    bundle.Holds destination ∧ (∃ steps, bundle.graph.endsWithin steps id place.2 = true) ∧
      (bundle.printed id place.2 = bundle.textOf destination ∨
        bundle.Blurs disk place (bundle.printed id place.2)) := by
  -- the bundle has followed each import on the chain, so the induction is on the chain
  induction hends generalizing id with
  | @here place destination hends => exact hbuilt.denotes_of_ends hsupplied hmodule hends
  | @next place next destination hpasses _ ih =>
      obtain ⟨module, name⟩ := place
      obtain ⟨target, exported⟩ := next
      obtain ⟨other, hother, hrequested, hmeaning⟩ :=
        hsupplied.passesOn hbuilt.complete hbuilt.traced hmodule hpasses
      obtain ⟨hholds, ⟨steps, hends⟩, hprinted⟩ := ih (Or.inl hrequested) hother
      obtain ⟨hsteps, hsame | hblurs⟩ := hbuilt.printed_of_forwards disk hmodule
        hpasses.forwards
        (fun hstar => ⟨steps + 1,
          (Graph.endsWithin_of_elsewhere (hmeaning hstar) steps).trans hends⟩)
        (fun hstar hget => printed_of_elsewhere hget (hmeaning hstar) hends)
      · refine ⟨hholds, hsteps, ?_⟩
        dsimp only at hprinted ⊢
        rw [hsame]
        exact hprinted.imp_right (.head hpasses)
      · exact ⟨hholds, hsteps, Or.inr hblurs⟩

/-- What a name that is looked after denotes is held by the bundle, and printed in the same way. -/
theorem denotes_of_clear {destination : Destination} (hsupplied : bundle.graph.Supplied id name)
    (hmodule : bundle.graph.module? id = some module) (hclear : bundle.Clear disk (module, name))
    (hends : bundle.graph.EndsAt disk (module, name) destination) :
    bundle.Holds destination ∧ bundle.printed id name = bundle.textOf destination := by
  obtain ⟨hholds, -, hprinted | hblurs⟩ := hbuilt.denotes hends hsupplied hmodule
  · exact ⟨hholds, hprinted⟩
  · exact absurd hclear hblurs.not_clear

end Built

end Bundle
end ScriptBundler
