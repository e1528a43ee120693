import ScriptBundler.Proofs.Module.Scoping

/-!
# Free names

A name is free at a node if no function, block or catch clause around the node declares it.  This
says what the analysis of a statement finds, without its scopes: the statement depends on the names
that it mentions where they are free, apart from those that it defines, and may change the names at
the roots of what it writes to where they are free.
-/

namespace ScriptBundler

open Script Text

namespace Script

/-- A node of a statement, with the names that the functions, blocks and catch clauses around it
declare. -/
structure Place where
  shape : Node
  bound : List String

mutual

/-- The nodes in an outline, within some declared names.  Import declarations are left out. -/
def Outline.places (bound : List String) : Outline → List Place
  | .node shape parts =>
    if shape.isImport then []
    else ⟨shape, bound⟩ :: Outline.placesOf (shape.declared parts ++ bound) parts

/-- The nodes in outlines. -/
def Outline.placesOf (bound : List String) : List Outline → List Place
  | [] => []
  | first :: rest => first.places bound ++ Outline.placesOf bound rest

end

/-- The name that a node is an occurrence of. -/
def Node.mentions : Node → List String
  | .ident id | .shorthand id => [id.name]
  | _ => []

/-- The names at the roots of what a node may write to.  A call may write to its arguments. -/
def Node.writes : Node → List String
  | .assign _ target _ => target.root.toList
  | .update _ operand _ => operand.root.toList
  | .call arguments _ => arguments.filterMap (·.root)
  | _ => []

theorem Node.declared_eq_nil {shape : Node} (hkey : shape.scopeKey? = none) (parts : List Outline) :
    shape.declared parts = [] := by
  cases shape <;> first | rfl | contradiction

end Script

namespace Module

open Script.Outline (hoistedOf letsOf placesOf)

/-! ## The second walk -/

variable {tree : ScopeTree} {opened : OpenedScopes} {defines bound : List String}

/-- What the second walk finds at some nodes. -/
structure Collected (defines : List String) (places : List Place) (state after : Collecting) :
    Prop where
  current : after.current = state.current
  dependsOn : ∀ name, name ∈ after.dependsOn ↔ name ∈ state.dependsOn ∨
    name ∉ defines ∧ ∃ place ∈ places, name ∈ place.shape.mentions ∧ name ∉ place.bound
  modifies : ∀ name, name ∈ after.modifies ↔ name ∈ state.modifies ∨
    ∃ place ∈ places, name ∈ place.shape.writes ∧ name ∉ place.bound

namespace Collected

variable {state middle after : Collecting} {places others : List Place} {shape : Node}

theorem nil (defines : List String) (state : Collecting) : Collected defines [] state state :=
  ⟨rfl, by simp, by simp⟩

theorem append (hfirst : Collected defines places state middle)
    (hsecond : Collected defines others middle after) :
    Collected defines (places ++ others) state after where
  current := hsecond.current.trans hfirst.current
  dependsOn := fun name => by
    rw [hsecond.dependsOn, hfirst.dependsOn]
    simp only [List.mem_append, or_and_right, exists_or, and_or_left, or_assoc]
  modifies := fun name => by
    rw [hsecond.modifies, hfirst.modifies]
    simp only [List.mem_append, or_and_right, exists_or, or_assoc]

end Collected

/-- Whether the names of the top level, seen from a scope, are those that are not among some names. -/
def Leaves (tree : ScopeTree) (id : ScopeId) (bound : List String) : Prop :=
  ∀ name, tree.isTopLevelReference id name = true ↔ name ∉ bound

theorem mem_reads_dependsOn_iff {state : Collecting} (hleaves : Leaves tree state.current bound)
    (found name : String) : name ∈ (state.reads tree defines found).dependsOn ↔
      name ∈ state.dependsOn ∨ name ∉ defines ∧ name = found ∧ name ∉ bound := by
  have hcond : (!defines.contains found && tree.isTopLevelReference state.current found) = true ↔
      found ∉ defines ∧ found ∉ bound := by
    rw [Bool.and_eq_true_iff, hleaves, Bool.not_eq_true', List.contains_eq_mem,
      decide_eq_false_iff_not]
  unfold Collecting.reads
  split
  · rename_i hfree
    obtain ⟨hdefines, hbound⟩ := hcond.mp hfree
    rw [mem_insertName]
    refine or_congr_right ⟨?_, fun h => h.2.1⟩
    rintro rfl
    exact ⟨hdefines, rfl, hbound⟩
  · rename_i hnot
    refine (or_iff_left ?_).symm
    rintro ⟨hdefines, rfl, hbound⟩
    exact hnot (hcond.mpr ⟨hdefines, hbound⟩)

theorem mem_writes_modifies_iff {state : Collecting} (hleaves : Leaves tree state.current bound)
    (root : Option String) (name : String) : name ∈ (state.writes tree root).modifies ↔
      name ∈ state.modifies ∨ root = some name ∧ name ∉ bound := by
  cases root with
  | none => simp [Collecting.writes]
  | some found =>
      unfold Collecting.writes
      dsimp only
      split
      · rename_i hfree
        rw [mem_insertName, Option.some_inj]
        refine or_congr_right ⟨?_, fun h => h.1.symm⟩
        rintro rfl
        exact ⟨rfl, (hleaves _).mp hfree⟩
      · rename_i hnot
        refine (or_iff_left ?_).symm
        rintro ⟨hfound, hbound⟩
        obtain rfl := Option.some.inj hfound
        exact hnot ((hleaves _).mpr hbound)

theorem writes_current (state : Collecting) (tree : ScopeTree) (root : Option String) :
    (state.writes tree root).current = state.current ∧
      (state.writes tree root).dependsOn = state.dependsOn := by
  unfold Collecting.writes
  split
  · split <;> exact ⟨rfl, rfl⟩
  · exact ⟨rfl, rfl⟩

theorem reads_current (state : Collecting) (tree : ScopeTree) (defines : List String)
    (name : String) : (state.reads tree defines name).current = state.current := by
  unfold Collecting.reads
  split <;> rfl

/-- The roots of arguments, one after the other. -/
theorem foldl_writes {state : Collecting} (hleaves : Leaves tree state.current bound)
    (arguments : List Expr) :
    let after := arguments.foldl (fun state argument => state.writes tree argument.root) state
    after.current = state.current ∧ after.dependsOn = state.dependsOn ∧
      ∀ name, name ∈ after.modifies ↔
        name ∈ state.modifies ∨ name ∈ arguments.filterMap (·.root) ∧ name ∉ bound := by
  induction arguments generalizing state with
  | nil => simp
  | cons first rest ih =>
      obtain ⟨hcurrent, hdepends⟩ := writes_current state tree first.root
      have hleaves' : Leaves tree (state.writes tree first.root).current bound := by
        rw [hcurrent]
        exact hleaves
      obtain ⟨hcurrent', hdepends', hmodifies⟩ := ih hleaves'
      refine ⟨hcurrent'.trans hcurrent, hdepends'.trans hdepends, fun name => ?_⟩
      rw [List.foldl_cons, hmodifies, mem_writes_modifies_iff hleaves, List.filterMap_cons]
      cases first.root with
      | none => simp
      | some found => simp only [List.mem_cons, Option.some_inj, or_and_right, or_assoc, eq_comm]

theorem visit_collected {state : Collecting} (hleaves : Leaves tree state.current bound)
    (defines : List String) (shape : Node) :
    Collected defines [⟨shape, bound⟩] state (state.visit tree defines shape) := by
  cases shape with
  | ident id | shorthand id =>
      exact ⟨reads_current ..,
        by simp [Collecting.visit, mem_reads_dependsOn_iff hleaves, Node.mentions],
        by simp [Collecting.visit, reads_modifies, Node.writes]⟩
  | assign operator target span =>
      obtain ⟨hcurrent, hdepends⟩ := writes_current state tree target.root
      exact ⟨hcurrent, by simp [Collecting.visit, hdepends, Node.mentions],
        by simp [Collecting.visit, mem_writes_modifies_iff hleaves, Node.writes]⟩
  | update operator operand span =>
      obtain ⟨hcurrent, hdepends⟩ := writes_current state tree operand.root
      exact ⟨hcurrent, by simp [Collecting.visit, hdepends, Node.mentions],
        by simp [Collecting.visit, mem_writes_modifies_iff hleaves, Node.writes]⟩
  | call arguments span =>
      obtain ⟨hcurrent, hdepends, hmodifies⟩ := foldl_writes hleaves arguments
      exact ⟨hcurrent, by simp [Collecting.visit, hdepends, Node.mentions],
        by simp [Collecting.visit, hmodifies, Node.writes]⟩
  | _ => exact ⟨rfl, by simp [Collecting.visit, Node.mentions],
      by simp [Collecting.visit, Node.writes]⟩

theorem dependencyCollector_steady (tree : ScopeTree) (opened : OpenedScopes)
    (defines : List String) (shape : Node) (state : Collecting) :
    ((dependencyCollector tree opened defines).enter shape state).1 ≠ .abort := by
  cases shape <;> exact Control.noConfusion

/-- Within a scope its names are taken as well. -/
theorem Leaves.inner (hsound : tree.Sound) {id around : ScopeId}
    (hparent : tree.parent? id = some around) (hlt : id < tree.scopes.length)
    (hleaves : Leaves tree around bound) {names : List String}
    (hnames : ∀ name, tree.declares id name = true ↔ name ∈ names) :
    Leaves tree id (names ++ bound) := by
  intro name
  rw [ScopeTree.isTopLevelReference_inner hsound hparent hlt, hleaves, List.mem_append, not_or,
    ← hnames, Bool.not_eq_true]

/-- A node with a scope: when the scope is left, the walk is back where the node stands. -/
theorem Collected.scope {shape : Node} {key : ScopeKey} (hkey : shape.scopeKey? = some key)
    {id : ScopeId} (hopened : opened.of? shape = some id) {state last : Collecting}
    (hparent : tree.parent? id = some state.current) (bound : List String) {places : List Place}
    (hinner : Collected defines places { state with current := id } last) :
    Collected defines (⟨shape, bound⟩ :: places) state
      ((dependencyCollector tree opened defines).leave shape last) := by
  have hcurrent : last.current = id := hinner.current
  have hleave : (dependencyCollector tree opened defines).leave shape last =
      { last with current := state.current } := by
    simp [dependencyCollector, hopened, hcurrent, hparent]
  have hnames : shape.mentions = [] ∧ shape.writes = [] := by
    cases shape <;> first | contradiction | exact ⟨rfl, rfl⟩
  rw [hleave]
  refine ⟨rfl, fun name => ?_, fun name => ?_⟩
  · simp only [hinner.dependsOn, List.exists_mem_cons_iff, hnames.1, List.not_mem_nil, false_and,
      false_or]
  · simp only [hinner.modifies, List.exists_mem_cons_iff, hnames.2, List.not_mem_nil, false_and,
      false_or]

mutual

theorem collected (hsound : tree.Sound) (defines : List String) : ∀ (outline : Outline) (low : Nat)
    (state : Collecting) (bound : List String), Fits tree opened low state.current outline →
      Leaves tree state.current bound → Collected defines (outline.places bound) state
        ((dependencyCollector tree opened defines).run [outline] state)
  | .node shape parts, low, state, bound, hfits, hleaves => by
    have hparts := collected_all hsound defines parts
    have hvisit := visit_collected hleaves defines shape
    cases himport : shape.isImport with
    | true =>
        cases shape <;> first | contradiction | skip
        simp only [Outline.places, himport, if_true]
        exact .nil defines state
    | false =>
        rw [Outline.places, if_neg (by simp [himport])]
        unfold Fits at hfits
        cases hkey : shape.scopeKey? with
        | none =>
            simp only [hkey] at hfits
            have henter : (dependencyCollector tree opened defines).enter shape state =
                (.proceed, state.visit tree defines shape) := by
              cases shape <;> first | contradiction | rfl
            have hleave : ∀ after, (dependencyCollector tree opened defines).leave shape after =
                after := by
              simp [dependencyCollector, OpenedScopes.of?, hkey]
            rw [Visitor.run_node (dependencyCollector_steady tree opened defines) henter, hleave,
              Node.declared_eq_nil hkey]
            refine hvisit.append (hparts low _ bound ?_ ?_)
            · rw [hvisit.current]
              exact hfits
            · rw [hvisit.current]
              exact hleaves
        | some key =>
            simp only [hkey] at hfits
            obtain ⟨id, -, hlt, hlookup, hparent, hnames, hall⟩ := hfits
            have hopened : opened.of? shape = some id := by simp [OpenedScopes.of?, hkey, hlookup]
            have henter : (dependencyCollector tree opened defines).enter shape state =
                (.proceed, { state with current := id }) := by
              cases shape <;> first | contradiction | simp [dependencyCollector, hopened,
                Collecting.visit]
            rw [Visitor.run_node (dependencyCollector_steady tree opened defines) henter]
            exact .scope hkey hopened hparent bound (hparts low { state with current := id } _ hall
              (hleaves.inner hsound hparent hlt hnames))

theorem collected_all (hsound : tree.Sound) (defines : List String) : ∀ (forest : List Outline)
    (low : Nat) (state : Collecting) (bound : List String),
      FitsAll tree opened low state.current forest → Leaves tree state.current bound →
        Collected defines (placesOf bound forest) state
          ((dependencyCollector tree opened defines).run forest state)
  | [], _, state, _, _, _ => .nil defines state
  | first :: rest, low, state, bound, ⟨hfirst, hrest⟩, hleaves => by
    have hhead := collected hsound defines first low state bound hfirst hleaves
    rw [Visitor.run_cons (dependencyCollector_steady tree opened defines)]
    refine hhead.append (collected_all hsound defines rest low _ bound ?_ ?_)
    · rw [hhead.current]
      exact hrest
    · rw [hhead.current]
      exact hleaves

end

/-! ## The analysis of a module -/

/-- What the analysis finds in a statement, in terms of the names that are free in it. -/
structure FreeNames (item : Item) (statement : Statement) : Prop where
  outline : statement.outline = item.outline
  defines : ∀ name, name ∈ statement.defines ↔
    name ∈ hoistedOf item.outline ∨ name ∈ letsOf item.outline
  dependsOn : ∀ name, name ∈ statement.dependsOn ↔ name ∉ statement.defines ∧
    ∃ place ∈ placesOf [] item.outline, name ∈ place.shape.mentions ∧ name ∉ place.bound
  modifies : ∀ name, name ∈ statement.modifies ↔
    ∃ place ∈ placesOf [] item.outline, name ∈ place.shape.writes ∧ name ∉ place.bound

theorem AnalysedFrom.freeNames {scopes : ScopeTree} {index : Nat} {item : Item}
    {statement : Statement} (hfrom : AnalysedFrom scopes index item statement)
    (hsound : scopes.Sound) (hscoped : statement.Scoped scopes)
    (hfits : FitsAll scopes statement.scopes 1 ScopeTree.root statement.outline) :
    FreeNames item statement := by
  have houtline := hfrom.outline
  rw [houtline] at hfits
  have hleaves : Leaves scopes ScopeTree.root [] := fun name => by
    simp [ScopeTree.isTopLevelReference_root hsound.depth_root]
  have hcollected := collected_all hsound statement.defines item.outline 1
    ⟨ScopeTree.root, [], []⟩ [] hfits hleaves
  refine ⟨houtline, fun name => ?_, fun name => ?_, fun name => ?_⟩
  · rw [hscoped.defines, houtline]
  · rw [hfrom.dependsOn, hcollected.dependsOn]
    simp
  · rw [hfrom.modifies, hcollected.modifies]
    simp

/-- The analysis of a module finds, in each statement, the names that are free in it; and the top
level declares what the statements define. -/
theorem ofSource_freeNames {path : Files.Path} {source : List Char} {module : Module}
    (hsource : Module.ofSource path source = .ok module) :
    (∃ tree, parse source = .ok tree ∧ List.Forall₂ FreeNames tree.items module.statements) ∧
      ∀ name, module.scopes.declares ScopeTree.root name = true ↔
        ∃ statement ∈ module.statements, name ∈ statement.defines := by
  obtain ⟨hscoping, hfits⟩ := ofSource_scoping hsource
  refine ⟨?_, fun name => ?_⟩
  · obtain ⟨tree, hparse, rfl⟩ := ofSource_eq_ofTree hsource
    refine ⟨tree, hparse, ?_⟩
    have hitems : tree.items = tree.items.zipIdx.map Prod.fst := (List.zipIdx_map_fst ..).symm
    obtain ⟨hlength, hall⟩ := List.forall₂_iff_zip.mp (ofTree_statements path source tree)
    rw [hitems, List.forall₂_map_left_iff]
    refine List.forall₂_iff_zip.mpr ⟨hlength, fun hmem => ?_⟩
    have hstatement := (List.of_mem_zip hmem).2
    exact (hall hmem).freeNames hscoping.sound (hscoping.fits _ hstatement) (hfits _ hstatement)
  · rw [hscoping.root]
    simp [ScopeTree.empty, ScopeTree.declares, ScopeTree.get?, ScopeTree.root, Scope.declares]

/-- A function whose block has a name of its own, which is free behind the block. -/
def shadowingSource : List Char :=
  ("function f(a) \x7b var b = a + c; \x7b let d = b; \x7d c.e = g(h, d); return d; \x7d\n" ++
    "var c = 1;\n").toList

theorem freeNames_shadowingSource : ∃ module,
    Module.ofSource ⟨"main.js"⟩ shadowingSource = .ok module ∧
      module.statements.map (·.dependsOn) = [["c", "g", "h", "d"], []] ∧
      module.statements.map (·.modifies) = [["c", "h", "d"], []] ∧
      (∃ tree, parse shadowingSource = .ok tree ∧
        List.Forall₂ FreeNames tree.items module.statements) ∧
      ∀ name, module.scopes.declares ScopeTree.root name = true ↔
        ∃ statement ∈ module.statements, name ∈ statement.defines := by
  obtain ⟨module, hsource, hcheck⟩ := exists_ofSource_of_check ⟨"main.js"⟩ shadowingSource
    (fun module => decide (module.statements.map (·.dependsOn) = [["c", "g", "h", "d"], []] ∧
      module.statements.map (·.modifies) = [["c", "h", "d"], []])) (by decide +kernel)
  obtain ⟨hdepends, hmodifies⟩ := of_decide_eq_true hcheck
  exact ⟨module, hsource, hdepends, hmodifies, ofSource_freeNames hsource⟩

end Module
end ScriptBundler
