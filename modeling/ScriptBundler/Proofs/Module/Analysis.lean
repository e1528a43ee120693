import Mathlib.Data.List.Forall2
import ScriptBundler.Graph.Expansion
import ScriptBundler.Proofs.Tables

/-!
# What analysis finds in a statement

Analysis keeps the statements of a module in their order and numbers them by it.  Each statement
keeps its form and its outline; what it defines is what the first walk over that outline collects,
and what it depends on and modifies is what the second walk collects.

An export list is the simplest statement of all: its outline consists of single names, so that it
defines and modifies nothing and depends on nothing but the names that it lists.
-/

namespace ScriptBundler
namespace Module

open Script Text

/-! ## Statements and items -/

theorem attachAfter_length (source : List Char) (before : Option Nat) (spans : List Span)
    (comments : List Comment) :
    (attachAfter source before spans comments).2.length = spans.length := by
  induction spans generalizing before comments with
  | nil => cases before <;> rfl
  | cons span rest ih => cases before <;> simp [attachAfter, ih]

theorem gaps_length (source : List Char) (before : Nat) (ranges : List Span) :
    (gaps source before ranges).length = ranges.length := by
  induction ranges generalizing before with
  | nil => rfl
  | cons range rest ih => simp [gaps, ih]

/-- Placing keeps the items and their order. -/
theorem place_items (source : List Char) (items : List Item) (comments : List Comment) :
    (place source items comments).map (·.item) = items := by
  have hattached : (attachComments source (items.map (·.span)) comments).length = items.length := by
    simp [attachComments, attachAfter_length]
  unfold place
  simp only [List.map_map]
  rw [show ((fun placed : Placed => placed.item) ∘ fun entry : (Item × Attached) × Nat × Nat =>
      (⟨entry.1.1, entry.1.2, entry.2.1, entry.2.2⟩ : Placed)) = (·.1) ∘ (·.1) from rfl,
    ← List.map_map, List.map_fst_zip, List.map_fst_zip]
  · omega
  · simp [gaps_length, hattached]
    omega

/-- A statement after the first walk over the outline of its item. -/
structure BuiltFrom (index : Nat) (item : Item) (statement : Statement) : Prop where
  index : statement.index = index
  form : statement.form = item.form
  outline : statement.outline = item.outline
  included : statement.included = false
  /-- The first walk starts at the top level of the tree that the statements before have built. -/
  defines : ∃ tree : ScopeTree, statement.defines = (scopeBuilder.run item.outline
    { tree, current := ScopeTree.root, scopes := [], defines := [] }).defines

/-- A statement after both walks over the outline of its item. -/
structure AnalysedFrom (scopes : ScopeTree) (index : Nat) (item : Item)
    (statement : Statement) : Prop extends BuiltFrom index item statement where
  dependsOn : statement.dependsOn =
    ((dependencyCollector scopes statement.scopes statement.defines).run item.outline
      { current := ScopeTree.root, dependsOn := [], modifies := [] }).dependsOn
  modifies : statement.modifies =
    ((dependencyCollector scopes statement.scopes statement.defines).run item.outline
      { current := ScopeTree.root, dependsOn := [], modifies := [] }).modifies

theorem buildScopes_builtFrom (source : List Char) (index : Nat) (placed : List Placed)
    (tree : ScopeTree) :
    List.Forall₂ (fun (entry : Placed × Nat) statement =>
        BuiltFrom entry.2 entry.1.item statement)
      (placed.zipIdx index) (buildScopes source index placed tree).1 := by
  induction placed generalizing index tree with
  | nil => exact .nil
  | cons first rest ih =>
      refine .cons ?_ (ih (index + 1) _)
      exact ⟨rfl, rfl, rfl, rfl, tree, rfl⟩

theorem collectDependencies_analysedFrom {scopes : ScopeTree} {index : Nat} {item : Item}
    {statement : Statement} (hbuilt : BuiltFrom index item statement) :
    AnalysedFrom scopes index item (collectDependencies scopes statement) where
  index := hbuilt.index
  form := hbuilt.form
  outline := hbuilt.outline
  included := hbuilt.included
  defines := hbuilt.defines
  dependsOn := by
    rw [← hbuilt.outline]
    rfl
  modifies := by
    rw [← hbuilt.outline]
    rfl

/-- The statements of a module are the items of its tree, one by one. -/
theorem ofTree_statements (path : Files.Path) (source : List Char) (tree : Tree) :
    List.Forall₂ (fun (entry : Item × Nat) statement =>
        AnalysedFrom (ofTree path source tree).scopes entry.2 entry.1 statement)
      tree.items.zipIdx (ofTree path source tree).statements := by
  have hbuilt := buildScopes_builtFrom source 0 (place source tree.items tree.comments) .empty
  have hzip : tree.items.zipIdx =
      ((place source tree.items tree.comments).zipIdx 0).map fun entry =>
        (entry.1.item, entry.2) := by
    conv_lhs => rw [← place_items source tree.items tree.comments]
    rw [List.zipIdx_map]
    rfl
  rw [hzip, List.forall₂_map_left_iff]
  show List.Forall₂ _ _ (List.map _ (buildScopes source 0 _ .empty).1)
  rw [List.forall₂_map_right_iff]
  exact hbuilt.imp fun _ _ h => collectDependencies_analysedFrom h

theorem exists_mem_of_forall₂ {α β : Type} {relates : α → β → Prop} {items : List α}
    {others : List β} (hall : List.Forall₂ relates items others) {other : β}
    (hother : other ∈ others) : ∃ item ∈ items, relates item other := by
  induction hall with
  | nil => contradiction
  | cons hfirst _ ih =>
      rcases List.mem_cons.mp hother with rfl | hmem
      · exact ⟨_, List.mem_cons_self, hfirst⟩
      · obtain ⟨item, hitem, hrelates⟩ := ih hmem
        exact ⟨item, List.mem_cons_of_mem _ hitem, hrelates⟩

theorem ofTree_statement? {path : Files.Path} {source : List Char} {tree : Tree} {index : Nat}
    {statement : Statement}
    (hstatement : (ofTree path source tree).statement? index = some statement) :
    ∃ item, AnalysedFrom (ofTree path source tree).scopes index item statement := by
  have hall := ofTree_statements path source tree
  obtain ⟨hindex, hget⟩ := List.getElem?_eq_some_iff.mp hstatement
  have hitem : index < tree.items.zipIdx.length := by
    rw [hall.length_eq]
    exact hindex
  have hfrom := List.forall₂_iff_get.mp hall |>.2 index hitem hindex
  refine ⟨tree.items.get ⟨index, by simpa using hitem⟩, ?_⟩
  simpa [hget] using hfrom

/-- The statements of a module have the forms of the items of its tree. -/
theorem ofTree_forms (path : Files.Path) (source : List Char) (tree : Tree) :
    (ofTree path source tree).statements.map (·.form) = tree.items.map (·.form) := by
  have hmap : (ofTree path source tree).statements.map (·.form) =
      tree.items.zipIdx.map fun entry => entry.1.form := by
    have hall := ofTree_statements path source tree
    generalize tree.items.zipIdx = entries at hall ⊢
    generalize (ofTree path source tree).statements = statements at hall ⊢
    induction hall with
    | nil => rfl
    | cons hfirst _ ih => rw [List.map_cons, List.map_cons, hfirst.form, ih]
  rw [hmap, show (fun entry : Item × Nat => entry.1.form) = (·.form) ∘ Prod.fst from rfl,
    ← List.map_map, List.zipIdx_map_fst]

/-! ## The tables of a module, by its statements -/

theorem ofSource_eq_ofTree {path : Files.Path} {source : List Char} {module : Module}
    (hsource : Module.ofSource path source = .ok module) :
    ∃ tree, parse source = .ok tree ∧ module = ofTree path source tree := by
  unfold Module.ofSource at hsource
  cases hparse : parse source with
  | error fault => simp [hparse, bind, Except.bind] at hsource
  | ok tree =>
      refine ⟨tree, rfl, ?_⟩
      simpa [hparse, bind, Except.bind, pure, Except.pure] using hsource.symm

/-- What a computed check says about the module of a source. -/
theorem exists_ofSource_of_check (path : Files.Path) (source : List Char)
    (check : Module → Bool)
    (hcheck : (Module.ofSource path source).toOption.any check = true) :
    ∃ module, Module.ofSource path source = .ok module ∧ check module = true := by
  cases hsource : Module.ofSource path source with
  | error fault => simp [hsource, Except.toOption] at hcheck
  | ok module => exact ⟨module, rfl, by simpa [hsource, Except.toOption] using hcheck⟩

theorem ofTree_imports (path : Files.Path) (source : List Char) (tree : Tree) :
    (ofTree path source tree).imports =
      Table.setAll [] ((ofTree path source tree).statements.flatMap fun statement =>
        importEntries statement.form) := by
  show importTable (tree.items.map (·.form)) = _
  rw [← ofTree_forms path source, importTable, List.flatMap_map]

theorem ofTree_exports (path : Files.Path) (source : List Char) (tree : Tree) :
    (ofTree path source tree).exports =
      Table.setAll [] ((ofTree path source tree).statements.flatMap fun statement =>
        exportEntries statement.index statement.form) := by
  show exportTable (tree.items.map (·.form)) = _
  have hall := ofTree_statements path source tree
  rw [exportTable, List.zipIdx_map, List.flatMap_map]
  congr 1
  generalize tree.items.zipIdx = entries at hall ⊢
  generalize (ofTree path source tree).statements = statements at hall ⊢
  induction hall with
  | nil => rfl
  | cons hfirst _ ih =>
      rw [List.flatMap_cons, List.flatMap_cons, ih, hfirst.form, hfirst.index]
      rfl

/-! ## Export lists -/

/-- The names that an export list lists; no other statement lists any. -/
def listedNames : ItemForm → List String
  | .exportList specifiers _ => specifiers.map ExportSpecifier.listed
  | _ => []

/-- Walks over single names. -/
theorem walkAll_names {σ : Type} (visitor : Visitor σ) (ids : List Ident) (step : σ → Ident → σ)
    (henter : ∀ id state, visitor.enter (.ident id) state = (.proceed, step state id))
    (hleave : ∀ id state, visitor.leave (.ident id) state = state) (state : σ) :
    visitor.walkAll (ids.map fun id => .leaf (.ident id)) state =
      (ids.foldl step state, false) := by
  induction ids generalizing state with
  | nil => rfl
  | cons id rest ih =>
      simp only [List.map_cons, Visitor.walkAll, Outline.leaf, Visitor.walk, henter, hleave]
      exact ih (step state id)

/-- The outline of an export list consists of single names, which the list lists. -/
theorem exportList_outline {specifiers : List ExportSpecifier} {source : Option String}
    {item : Item} (hform : item.form = .exportList specifiers source) :
    ∃ ids : List Ident, item.outline = ids.map (fun id => .leaf (.ident id)) ∧
      ∀ id ∈ ids, id.name ∈ specifiers.map ExportSpecifier.listed := by
  cases source with
  | some source =>
      refine ⟨[], ?_, by simp⟩
      simp [Item.outline, hform]
  | none =>
      have houtline : item.outline = specifiers.flatMap (·.outline) := by
        simp [Item.outline, hform]
      rw [houtline]
      clear hform houtline
      induction specifiers with
      | nil => exact ⟨[], rfl, by simp⟩
      | cons specifier rest ih =>
          obtain ⟨ids, hids, hlisted⟩ := ih
          rw [List.flatMap_cons, hids]
          rcases specifier with ⟨⟨id⟩ | ⟨text⟩, exported⟩ | ⟨exported⟩
          · refine ⟨id :: ids, rfl, ?_⟩
            intro other hother
            rcases List.mem_cons.mp hother with rfl | hrest
            · exact List.mem_cons_self
            · exact List.mem_cons_of_mem _ (hlisted other hrest)
          · exact ⟨ids, rfl, fun id hid => List.mem_cons_of_mem _ (hlisted id hid)⟩
          · exact ⟨ids, rfl, fun id hid => List.mem_cons_of_mem _ (hlisted id hid)⟩

theorem scopeBuilder_names (ids : List Ident) (state : Building) :
    scopeBuilder.run (ids.map fun id => .leaf (.ident id)) state = state := by
  unfold Visitor.run
  rw [walkAll_names scopeBuilder ids (fun state _ => state) (fun _ _ => rfl) (fun _ _ => rfl)]
  induction ids with
  | nil => rfl
  | cons _ _ ih => exact ih

theorem dependencyCollector_names (tree : ScopeTree) (scopes : OpenedScopes)
    (defines : List String) (ids : List Ident) (state : Collecting) :
    (dependencyCollector tree scopes defines).run (ids.map fun id => .leaf (.ident id)) state =
      ids.foldl (fun state id => state.reads tree defines id.name) state := by
  unfold Visitor.run
  rw [walkAll_names _ ids (fun state id => state.reads tree defines id.name)
    (fun _ _ => rfl) (fun _ _ => rfl)]

theorem reads_modifies (state : Collecting) (tree : ScopeTree) (defines : List String)
    (name : String) : (state.reads tree defines name).modifies = state.modifies := by
  unfold Collecting.reads
  split <;> rfl

theorem mem_reads_dependsOn {state : Collecting} {tree : ScopeTree} {defines : List String}
    {name other : String} (hmem : other ∈ (state.reads tree defines name).dependsOn) :
    other ∈ state.dependsOn ∨ other = name := by
  unfold Collecting.reads at hmem
  split at hmem
  · exact mem_insertName.mp hmem
  · exact Or.inl hmem

/-- Single names change nothing, and only they can be depended on. -/
theorem foldl_reads (tree : ScopeTree) (defines : List String) (ids : List Ident)
    (state : Collecting) :
    let final := ids.foldl (fun state id => state.reads tree defines id.name) state
    final.modifies = state.modifies ∧
      ∀ name ∈ final.dependsOn, name ∈ state.dependsOn ∨ ∃ id ∈ ids, id.name = name := by
  induction ids generalizing state with
  | nil => exact ⟨rfl, fun _ h => Or.inl h⟩
  | cons id rest ih =>
      obtain ⟨hmodifies, hdepends⟩ := ih (state.reads tree defines id.name)
      refine ⟨hmodifies.trans (reads_modifies ..), ?_⟩
      intro name hname
      rcases hdepends name hname with hstate | ⟨other, hother, rfl⟩
      · rcases mem_reads_dependsOn hstate with hold | rfl
        · exact Or.inl hold
        · exact Or.inr ⟨id, List.mem_cons_self, rfl⟩
      · exact Or.inr ⟨other, List.mem_cons_of_mem _ hother, rfl⟩

/-- An import declaration defines and modifies nothing. -/
theorem AnalysedFrom.importDecl {scopes : ScopeTree} {index : Nat} {item : Item}
    {statement : Statement} (hfrom : AnalysedFrom scopes index item statement)
    {specifiers : List ImportSpecifier} {source : String}
    (hform : statement.form = .importDecl specifiers source) :
    statement.defines = [] ∧ statement.modifies = [] := by
  -- the outline is one node, with the bound names as its parts
  have houtline : item.outline = [.node (.importDecl source item.span)
      ((specifiers.map ImportSpecifier.binding).map fun id => .leaf (.ident id))] := by
    rw [hfrom.form] at hform
    simp [Item.outline, hform]
  constructor
  · obtain ⟨tree, hdefines⟩ := hfrom.defines
    rw [hdefines, houtline]
    generalize specifiers.map ImportSpecifier.binding = ids
    have hnames := walkAll_names scopeBuilder ids (fun state _ => state) (fun _ _ => rfl)
      (fun _ _ => rfl) { tree, current := ScopeTree.root, scopes := [], defines := [] }
    rw [List.foldl_fixed] at hnames
    have henter : ∀ shape state, scopeBuilder.enter shape state = (.proceed, state.visit shape) :=
      fun _ _ => rfl
    simp only [Visitor.run, Visitor.walkAll, Visitor.walk, henter, Building.visit, hnames]
    rfl
  · rw [hfrom.modifies, houtline]
    rfl

/-- An export list defines and modifies nothing, and depends on names that it lists. -/
theorem AnalysedFrom.exportList {scopes : ScopeTree} {index : Nat} {item : Item}
    {statement : Statement} (hfrom : AnalysedFrom scopes index item statement)
    (hlisting : listedNames statement.form ≠ []) :
    statement.defines = [] ∧ statement.modifies = [] ∧
      ∀ name ∈ statement.dependsOn, name ∈ listedNames statement.form := by
  rw [hfrom.form] at hlisting ⊢
  cases hform : item.form with
  | exportList specifiers source =>
      obtain ⟨ids, hids, hlisted⟩ := exportList_outline hform
      obtain ⟨tree, hdefines⟩ := hfrom.defines
      obtain ⟨hmodifies, hdepends⟩ := foldl_reads scopes statement.defines ids
        { current := ScopeTree.root, dependsOn := [], modifies := [] }
      rw [hids, scopeBuilder_names] at hdefines
      refine ⟨hdefines, ?_, ?_⟩
      · rw [hfrom.modifies, hids, dependencyCollector_names]
        exact hmodifies
      · intro name hname
        rw [hfrom.dependsOn, hids, dependencyCollector_names] at hname
        rcases hdepends name hname with hnil | ⟨id, hid, rfl⟩
        · exact absurd hnil List.not_mem_nil
        · exact hlisted id hid
  | _ => exact absurd (by rw [hform]; rfl) hlisting

end Module
end ScriptBundler
