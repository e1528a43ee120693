import ScriptBundler.Proofs.Module.Readings
import ScriptBundler.Proofs.Output.Occurrences

/-!
# What the names in a statement refer to

Two walks ask of every name in a statement whether it is one of the top level.  The second walk of
the analysis looks for it in the scope that it is in and in those around that, by their parents;
renaming takes it out of a frame when a scope is opened that declares it.  Both agree with each
other and with the syntax: a name is one of the top level if it is free.
-/

namespace ScriptBundler

open Script ScriptBundler.Module

/-- A name in a statement, with the answer to whether it is one of the top level. -/
structure Reference where
  id : Ident
  isShorthand : Bool
  isTopLevel : Bool
deriving Repr, DecidableEq

/-- The name that a node is, if it is one, with the answer to whether it is free there. -/
def Script.Place.reference? (place : Place) : Option Reference :=
  place.shape.name?.map fun name => ⟨name.1, name.2, decide (name.1.name ∉ place.bound)⟩

/-- The names in outlines. -/
def Script.Outline.references (bound : List String) (forest : List Outline) : List Reference :=
  (placesOf bound forest).filterMap (·.reference?)

/-- The answer of renaming. -/
def Occurrence.reference (tree : ScopeTree) (occurrence : Occurrence) : Reference :=
  ⟨occurrence.id, occurrence.isShorthand, decide (occurrence.Sees tree occurrence.id.name)⟩

/-- A name in a statement, with the scope in which the second walk meets it. -/
structure Resolution where
  id : Ident
  isShorthand : Bool
  scope : ScopeId
deriving Repr, DecidableEq

/-- The answer of the second walk. -/
def Resolution.reference (tree : ScopeTree) (resolution : Resolution) : Reference :=
  ⟨resolution.id, resolution.isShorthand,
    tree.isTopLevelReference resolution.scope resolution.id.name⟩

/-- The second walk, with a record of the names that it meets. -/
def watchedCollector (tree : ScopeTree) (opened : OpenedScopes) (defines : List String) :
    Visitor (Collecting × List Resolution) :=
  (dependencyCollector tree opened defines).watched
    (fun shape state seen => seen ++
      (shape.name?.map fun name => (⟨name.1, name.2, state.current⟩ : Resolution)).toList)
    fun _ seen => seen

/-- The names that the second walk meets in a statement. -/
def Module.Statement.resolutions (statement : Statement) (tree : ScopeTree) : List Resolution :=
  ((watchedCollector tree statement.scopes statement.defines).run statement.outline
    (⟨ScopeTree.root, [], []⟩, [])).2

variable {tree : ScopeTree} {opened : OpenedScopes} {defines bound : List String}

open Script.Outline (placesOf PlainAll references)

theorem references_cons (first : Outline) (rest : List Outline) :
    references bound (first :: rest) = references bound [first] ++ references bound rest := by
  simp [references, Outline.placesOf]

theorem references_node {shape : Node} (himport : shape.isImport = false) (parts : List Outline) :
    references bound [.node shape parts] = (Place.reference? ⟨shape, bound⟩).toList ++
      references (shape.declared parts ++ bound) parts := by
  simp only [references, Outline.placesOf, Outline.places, himport, List.append_nil,
    Bool.false_eq_true, if_false, List.filterMap_cons]
  cases Place.reference? ⟨shape, bound⟩ <;> rfl

/-! ## Renaming -/

mutual

theorem occurrences_reference : ∀ (outline : Outline) (low : Nat) (around : ScopeId)
    (ids : List ScopeId) (bound : List String), outline.Plain →
      Fits tree opened low around outline →
      (∀ name, (∀ scope ∈ ids, tree.declares scope name = false) ↔ name ∉ bound) →
      (outline.occurrences opened ids).map (·.reference tree) = references bound [outline]
  | .node shape parts, low, around, ids, bound, ⟨himport, _, hplain⟩, hfits, hsees => by
    have hparts := occurrencesOf_reference parts
    rw [references_node himport, Outline.occurrences, List.map_append]
    congr 1
    · cases hname : shape.name? with
      | none => simp [Place.reference?, hname]
      | some name =>
          have hfree := hsees name.1.name
          simp [Place.reference?, hname, Occurrence.reference, Occurrence.Sees, hfree]
    · unfold Fits at hfits
      cases hkey : shape.scopeKey? with
      | none =>
          simp only [hkey] at hfits
          have hopened : opened.of? shape = none := by simp [OpenedScopes.of?, hkey]
          rw [Node.declared_eq_nil hkey, hopened]
          exact hparts low around ids bound hplain hfits hsees
      | some key =>
          simp only [hkey] at hfits
          obtain ⟨id, -, -, hlookup, -, hnames, hall⟩ := hfits
          have hopened : opened.of? shape = some id := by simp [OpenedScopes.of?, hkey, hlookup]
          rw [hopened]
          refine hparts low id (id :: ids) _ hplain hall fun name => ?_
          rw [List.forall_mem_cons, hsees, List.mem_append, not_or, ← hnames, Bool.not_eq_true]

/-- For renaming the names of the top level are those that are free. -/
theorem occurrencesOf_reference : ∀ (forest : List Outline) (low : Nat) (around : ScopeId)
    (ids : List ScopeId) (bound : List String), PlainAll forest →
      FitsAll tree opened low around forest →
      (∀ name, (∀ scope ∈ ids, tree.declares scope name = false) ↔ name ∉ bound) →
      (Outline.occurrencesOf opened ids forest).map (·.reference tree) = references bound forest
  | [], _, _, _, _, _, _, _ => rfl
  | first :: rest, low, around, ids, bound, ⟨hplain, hplain'⟩, ⟨hfits, hfits'⟩, hsees => by
    rw [references_cons, Outline.occurrencesOf, List.map_append,
      occurrences_reference first low around ids bound hplain hfits hsees,
      occurrencesOf_reference rest low around ids bound hplain' hfits' hsees]

end

/-! ## The second walk -/

theorem watchedCollector_steady (tree : ScopeTree) (opened : OpenedScopes) (defines : List String)
    (shape : Node) (state : Collecting × List Resolution) :
    ((watchedCollector tree opened defines).enter shape state).1 ≠ .abort :=
  dependencyCollector_steady tree opened defines shape state.1

/-- Watching the second walk does not change it. -/
theorem run_watchedCollector (forest : List Outline) (state : Collecting × List Resolution) :
    ((watchedCollector tree opened defines).run forest state).1 =
      (dependencyCollector tree opened defines).run forest state.1 :=
  (Visitor.walkAll_watched _ _ _ forest state).1

/-- Whether a walk has met some names, one after the other. -/
def Meets (tree : ScopeTree) (found : List Reference) (before after : List Resolution) : Prop :=
  ∃ resolutions, after = before ++ resolutions ∧ resolutions.map (·.reference tree) = found

theorem Meets.append {found others : List Reference} {before middle after : List Resolution}
    (hfirst : Meets tree found before middle) (hsecond : Meets tree others middle after) :
    Meets tree (found ++ others) before after := by
  obtain ⟨resolutions, rfl, rfl⟩ := hfirst
  obtain ⟨later, rfl, rfl⟩ := hsecond
  exact ⟨resolutions ++ later, List.append_assoc .., List.map_append ..⟩

/-- A node is met before its parts. -/
theorem meets_node {state : Collecting} (hleaves : Leaves tree state.current bound) (shape : Node)
    (seen : List Resolution) : Meets tree (Place.reference? ⟨shape, bound⟩).toList seen
      (seen ++ (shape.name?.map fun name =>
        (⟨name.1, name.2, state.current⟩ : Resolution)).toList) := by
  refine ⟨_, rfl, ?_⟩
  cases hname : shape.name? with
  | none => simp [Place.reference?, hname]
  | some name =>
      have hfree := hleaves name.1.name
      rw [← decide_eq_true_iff (p := name.1.name ∉ bound), ← Bool.eq_iff_iff] at hfree
      simp [Place.reference?, hname, Resolution.reference, hfree]

mutual

theorem meets (defines : List String) (hsound : tree.Sound) : ∀ (outline : Outline) (low : Nat)
    (state : Collecting) (seen : List Resolution) (bound : List String),
      Fits tree opened low state.current outline →
      Leaves tree state.current bound → Meets tree (references bound [outline]) seen
        ((watchedCollector tree opened defines).run [outline] (state, seen)).2
  | .node shape parts, low, state, seen, bound, hfits, hleaves => by
    have hparts := meets_all defines hsound parts
    have hmeets := meets_node hleaves shape seen
    have hvisit := visit_collected hleaves defines shape
    have hleave : ∀ after, ((watchedCollector tree opened defines).leave shape after).2 = after.2 :=
      fun _ => rfl
    cases himport : shape.isImport with
    | true =>
        cases shape <;> first | contradiction | skip
        exact ⟨[], rfl, by simp [references, Outline.placesOf, Outline.places, himport]⟩
    | false =>
        rw [references_node himport]
        unfold Fits at hfits
        cases hkey : shape.scopeKey? with
        | none =>
            simp only [hkey] at hfits
            have henter : (watchedCollector tree opened defines).enter shape (state, seen) =
                (.proceed, state.visit tree defines shape, seen ++ (shape.name?.map fun name =>
                  (⟨name.1, name.2, state.current⟩ : Resolution)).toList) := by
              cases shape <;> first | contradiction | rfl
            rw [Visitor.run_node (watchedCollector_steady tree opened defines) henter, hleave,
              Node.declared_eq_nil hkey]
            refine hmeets.append (hparts low _ _ bound ?_ ?_)
            · rw [hvisit.current]
              exact hfits
            · rw [hvisit.current]
              exact hleaves
        | some key =>
            simp only [hkey] at hfits
            obtain ⟨id, -, hlt, hlookup, hparent, hnames, hall⟩ := hfits
            have hopened : opened.of? shape = some id := by simp [OpenedScopes.of?, hkey, hlookup]
            have henter : (watchedCollector tree opened defines).enter shape (state, seen) =
                (.proceed, { state with current := id }, seen ++ (shape.name?.map fun name =>
                  (⟨name.1, name.2, state.current⟩ : Resolution)).toList) := by
              cases shape <;> first | contradiction | simp [watchedCollector, Visitor.watched,
                dependencyCollector, hopened, Collecting.visit]
            rw [Visitor.run_node (watchedCollector_steady tree opened defines) henter, hleave]
            exact hmeets.append (hparts low { state with current := id } _ _ hall
              (hleaves.inner hsound hparent hlt hnames))

/-- For the second walk the names of the top level are those that are free. -/
theorem meets_all (defines : List String) (hsound : tree.Sound) : ∀ (forest : List Outline)
    (low : Nat) (state : Collecting) (seen : List Resolution) (bound : List String),
      FitsAll tree opened low state.current forest → Leaves tree state.current bound →
        Meets tree (references bound forest) seen
          ((watchedCollector tree opened defines).run forest (state, seen)).2
  | [], _, _, seen, _, _, _ => ⟨[], (List.append_nil seen).symm, rfl⟩
  | first :: rest, low, state, seen, bound, ⟨hfirst, hrest⟩, hleaves => by
    have hhead := collected hsound defines first low state bound hfirst hleaves
    have hmeets := meets defines hsound first low state seen bound hfirst hleaves
    have hcurrent : ((watchedCollector tree opened defines).run [first] (state, seen)).1.current =
        state.current := by
      rw [run_watchedCollector]
      exact hhead.current
    rw [references_cons, Visitor.run_cons (watchedCollector_steady tree opened defines)]
    generalize (watchedCollector tree opened defines).run [first] (state, seen) = middle
      at hmeets hcurrent ⊢
    rw [← hcurrent] at hrest hleaves
    exact hmeets.append (meets_all defines hsound rest low middle.1 middle.2 bound hrest hleaves)

end

/-! ## Statements -/

/-- Renaming and the second walk agree about every name in a statement. -/
theorem Module.Statement.Read.reference_eq {source : List Char} {item : Item}
    {statement : Statement} (hread : statement.Read source tree item)
    (himport : ∀ specifiers text, statement.form ≠ .importDecl specifiers text) :
    statement.occurrences.map (·.reference tree) = references [] item.outline ∧
      (statement.resolutions tree).map (·.reference tree) = references [] item.outline := by
  have hplain : PlainAll item.outline :=
    Item.plain fun specifiers text hform => himport specifiers text (hread.form.trans hform)
  have hleaves : Leaves tree ScopeTree.root [] := fun name => by
    simp [ScopeTree.isTopLevelReference_root hread.sound.depth_root]
  constructor
  · rw [Statement.occurrences, hread.names.outline]
    exact occurrencesOf_reference item.outline 1 ScopeTree.root [] [] hplain hread.fits (by simp)
  · obtain ⟨resolutions, hmet, hreferences⟩ := meets_all statement.defines hread.sound
      item.outline 1 ⟨ScopeTree.root, [], []⟩ [] [] hread.fits hleaves
    rw [Statement.resolutions, hread.names.outline, hmet]
    exact hreferences

/-- The statement depends on a name of the top level that it refers to, or defines it. -/
theorem Module.Statement.Read.mem_of_isTopLevel {source : List Char} {item : Item}
    {statement : Statement} (hread : statement.Read source tree item) {reference : Reference}
    (hreference : reference ∈ references [] item.outline) (htop : reference.isTopLevel = true) :
    reference.id.name ∈ statement.dependsOn ++ statement.defines := by
  obtain ⟨place, hplace, hname⟩ := List.mem_filterMap.mp hreference
  obtain ⟨⟨id, isShorthand⟩, hshape, rfl⟩ := Option.map_eq_some_iff.mp hname
  rw [List.mem_append, or_iff_not_imp_right]
  intro hdefines
  refine (hread.names.dependsOn id.name).mpr ⟨hdefines, place, hplace, ?_, of_decide_eq_true htop⟩
  generalize place.shape = shape at hshape
  cases shape <;> first | contradiction | cases hshape; exact List.mem_singleton_self _

/-- The name that a place is, if it is one. -/
def Script.Site.name? : Site → Option Ident
  | .name id => some id
  | .scope _ => none

mutual

theorem occurrences_ids : ∀ (outline : Outline) (ids : List ScopeId),
    (outline.occurrences opened ids).map (·.id) = outline.sites.filterMap Site.name?
  | .node shape parts, ids => by
    rw [Outline.occurrences, Outline.sites, List.map_append, List.filterMap_append,
      occurrencesOf_ids parts]
    cases shape <;> rfl

/-- The occurrences of names are the places that are names. -/
theorem occurrencesOf_ids : ∀ (forest : List Outline) (ids : List ScopeId),
    (Outline.occurrencesOf opened ids forest).map (·.id) =
      (Outline.sitesOf forest).filterMap Site.name?
  | [], _ => rfl
  | first :: rest, ids => by
    rw [Outline.occurrencesOf, Outline.sitesOf, List.map_append, List.filterMap_append,
      occurrences_ids first, occurrencesOf_ids rest]

end

end ScriptBundler
