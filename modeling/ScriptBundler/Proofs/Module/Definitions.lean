import ScriptBundler.Proofs.Module.Sources
import ScriptBundler.Proofs.Scope.Trees
import ScriptBundler.Proofs.Script.ImportedNames

/-!
# What the statements of a module define

The names that an exported declaration exports are among those that its statement defines, and a
default export that is only a name depends on that name.  What leaves no text behind when export
syntax is taken away, which are imports, export lists and such default exports, defines nothing.
-/

namespace ScriptBundler

open Files Script Text

/-! ## The first walk at the top level -/

namespace Script.Visitor

variable {σ : Type} (visitor : Visitor σ) (holds : σ → Prop)

mutual

theorem walk_preserves (henter : ∀ shape state, holds state → holds (visitor.enter shape state).2)
    (hleave : ∀ shape state, holds state → holds (visitor.leave shape state)) :
    ∀ (outline : Outline) (state : σ), holds state → holds (visitor.walk outline state).1
  | .node shape parts, state, hstate => by
    have hparts := walkAll_preserves henter hleave parts
    have hentered := henter shape state hstate
    unfold walk
    generalize visitor.enter shape state = entered at hentered
    obtain ⟨control, next⟩ := entered
    cases control with
    | abort => exact hentered
    | skip => exact hleave shape next hentered
    | proceed =>
        have hall := hparts next hentered
        dsimp only
        generalize visitor.walkAll parts next = result at hall
        obtain ⟨last, ended⟩ := result
        cases ended with
        | true => exact hall
        | false => exact hleave shape last hall

/-- What entering and leaving a node preserve holds after a walk. -/
theorem walkAll_preserves
    (henter : ∀ shape state, holds state → holds (visitor.enter shape state).2)
    (hleave : ∀ shape state, holds state → holds (visitor.leave shape state)) :
    ∀ (forest : List Outline) (state : σ), holds state → holds (visitor.walkAll forest state).1
  | [], _, hstate => hstate
  | first :: rest, state, hstate => by
    have hrest := walkAll_preserves henter hleave rest
    have hfirst := walk_preserves henter hleave first state hstate
    unfold walkAll
    generalize visitor.walk first state = result at hfirst
    obtain ⟨next, ended⟩ := result
    cases ended with
    | true => exact hfirst
    | false => exact hrest next hfirst

end

end Script.Visitor

namespace ScopeTree

theorem depth_root_push {tree : ScopeTree} (hdepth : tree.depth root = 0) (parent : ScopeId)
    (isBlock : Bool) (names : List String) : (tree.push parent isBlock names).1.depth root = 0 := by
  obtain ⟨scopes⟩ := tree
  cases scopes with
  | nil => rfl
  | cons first rest => exact hdepth

theorem depth_root_add {tree : ScopeTree} (hdepth : tree.depth root = 0) (id : ScopeId)
    (name : String) (blockScoped : Bool) : (tree.add id name blockScoped).1.depth root = 0 := by
  unfold add depth get? at *
  dsimp only
  rw [List.getElem?_modify]
  cases hroot : tree.scopes[root]? with
  | none => rfl
  | some scope =>
      rw [hroot] at hdepth
      by_cases htarget : tree.landing id blockScoped = root <;> simpa [htarget] using hdepth

end ScopeTree

namespace Module

section Walk

variable {state : Building} {name : String}

theorem mem_defines_declare (hroot : state.current = ScopeTree.root) (blockScoped : Bool)
    (name : String) : name ∈ (state.declare blockScoped name).defines := by
  unfold Building.declare ScopeTree.add
  rw [hroot, ScopeTree.landing_root]
  exact mem_insertName.mpr (Or.inr rfl)

theorem mem_defines_declare_of_mem (hname : name ∈ state.defines) (blockScoped : Bool)
    (other : String) : name ∈ (state.declare blockScoped other).defines := by
  unfold Building.declare
  dsimp only
  split
  · exact mem_insertName.mpr (Or.inl hname)
  · exact hname

theorem mem_defines_foldl_declare_of_mem (hname : name ∈ state.defines) (blockScoped : Bool)
    (names : List String) :
    name ∈ (names.foldl (fun state name => state.declare blockScoped name) state).defines := by
  induction names generalizing state with
  | nil => exact hname
  | cons first rest ih => exact ih (mem_defines_declare_of_mem hname blockScoped first)

/-- Names that are declared at the top level are defined. -/
theorem mem_defines_foldl_declare (hroot : state.current = ScopeTree.root) (blockScoped : Bool)
    {names : List String} (hname : name ∈ names) :
    name ∈ (names.foldl (fun state name => state.declare blockScoped name) state).defines := by
  induction names generalizing state with
  | nil => contradiction
  | cons first rest ih =>
      rcases List.mem_cons.mp hname with rfl | hrest
      · exact mem_defines_foldl_declare_of_mem (mem_defines_declare hroot blockScoped name) _ rest
      · have hroot' : (state.declare blockScoped first).current = ScopeTree.root := hroot
        exact ih hroot' hrest

/-- The first walk takes back nothing that has been defined. -/
theorem mem_defines_visit_of_mem (hname : name ∈ state.defines) (shape : Node) :
    name ∈ (state.visit shape).defines := by
  unfold Building.visit
  split
  · dsimp only
    split
    · exact mem_defines_declare_of_mem hname false _
    · exact hname
    · exact hname
  · exact hname
  · exact hname
  · exact mem_defines_foldl_declare_of_mem hname _ _
  · exact mem_defines_declare_of_mem hname false _
  · exact hname

theorem mem_defines_walkAll (forest : List Outline) (hname : name ∈ state.defines) :
    name ∈ (scopeBuilder.walkAll forest state).1.defines := by
  refine Visitor.walkAll_preserves scopeBuilder (fun state => name ∈ state.defines)
    (fun shape state h => mem_defines_visit_of_mem h shape) (fun shape state h => ?_) forest state
    hname
  unfold scopeBuilder
  dsimp only
  split <;> exact h

/-- What is defined at the first node stays so. -/
theorem mem_defines_run_node {shape : Node} (hname : name ∈ (state.visit shape).defines)
    (parts : List Outline) : name ∈ (scopeBuilder.run [.node shape parts] state).defines := by
  have henter : scopeBuilder.enter shape state = (.proceed, state.visit shape) := rfl
  have hleave : ∀ after : Building, (scopeBuilder.leave shape after).defines = after.defines := by
    intro after
    unfold scopeBuilder
    dsimp only
    split <;> rfl
  have hparts := mem_defines_walkAll parts hname
  unfold Visitor.run Visitor.walkAll Visitor.walk
  rw [henter]
  dsimp only
  generalize scopeBuilder.walkAll parts (state.visit shape) = result at hparts
  obtain ⟨last, ended⟩ := result
  cases ended with
  | true => exact hparts
  | false =>
      show name ∈ (scopeBuilder.leave shape last).defines
      rw [hleave]
      exact hparts

/-- A function with a name that stands at the top level defines it. -/
theorem mem_defines_function (hroot : state.current = ScopeTree.root) (name : Ident)
    (body : Function) : name.name ∈
      (scopeBuilder.run [body.outline .declaration (some name)] state).defines := by
  cases body <;> exact mem_defines_run_node (mem_defines_declare hroot false name.name) _

end Walk

/-! ## The top level of a module's scopes -/

theorem depth_root_declare {state : Building} (hdepth : state.tree.depth ScopeTree.root = 0)
    (blockScoped : Bool) (name : String) :
    (state.declare blockScoped name).tree.depth ScopeTree.root = 0 :=
  ScopeTree.depth_root_add hdepth state.current name blockScoped

theorem depth_root_visit {state : Building} (hdepth : state.tree.depth ScopeTree.root = 0)
    (shape : Node) : (state.visit shape).tree.depth ScopeTree.root = 0 := by
  have hdeclare : ∀ (blockScoped : Bool) (names : List String) (state : Building),
      state.tree.depth ScopeTree.root = 0 →
      (names.foldl (fun state name => state.declare blockScoped name) state).tree.depth
        ScopeTree.root = 0 := by
    intro blockScoped names
    induction names with
    | nil => exact fun _ h => h
    | cons first rest ih => exact fun state h => ih _ (depth_root_declare h blockScoped first)
  unfold Building.visit
  split
  · dsimp only
    split
    · exact ScopeTree.depth_root_push (depth_root_declare hdepth false _) _ _ _
    · exact ScopeTree.depth_root_push hdepth _ _ _
    · exact ScopeTree.depth_root_push hdepth _ _ _
  · exact ScopeTree.depth_root_push hdepth _ _ _
  · exact ScopeTree.depth_root_push hdepth _ _ _
  · exact hdeclare _ _ state hdepth
  · exact depth_root_declare hdepth false _
  · exact hdepth

theorem depth_root_run {state : Building} (hdepth : state.tree.depth ScopeTree.root = 0)
    (forest : List Outline) : (scopeBuilder.run forest state).tree.depth ScopeTree.root = 0 := by
  refine Visitor.walkAll_preserves scopeBuilder
    (fun state => state.tree.depth ScopeTree.root = 0)
    (fun shape state h => depth_root_visit h shape) (fun shape state h => ?_) forest state hdepth
  unfold scopeBuilder
  dsimp only
  split <;> exact h

theorem depth_root_buildScopes (source : List Char) (index : Nat) (placed : List Placed)
    {tree : ScopeTree} (hdepth : tree.depth ScopeTree.root = 0) :
    (buildScopes source index placed tree).2.depth ScopeTree.root = 0 := by
  induction placed generalizing index tree with
  | nil => exact hdepth
  | cons first rest ih => exact ih (index + 1) (depth_root_run hdepth _)

theorem ofTree_depth_root (path : Path) (source : List Char) (tree : Tree) :
    (ofTree path source tree).scopes.depth ScopeTree.root = 0 :=
  depth_root_buildScopes source 0 _ rfl

/-! ## Statements and what is exported of them -/

/-- Whether a statement leaves no text behind when export syntax is taken away, or may leave
none. -/
def isVoid : ItemForm → Bool
  | .importDecl _ _ | .exportList _ _ | .exportDefaultExpr (.ident _) => true
  | _ => false

/-- A default export without a name leaves a text behind. -/
theorem isVoid_of_isNameless {form : ItemForm} (hnameless : isNameless form = true) :
    isVoid form = false := by
  cases form with
  | exportDefaultExpr value =>
      cases value with
      | ident id => contradiction
      | _ => rfl
  | importDecl | exportList => contradiction
  | _ => rfl

section Analysed

variable {scopes : ScopeTree} {index : Nat} {item : Item} {statement : Statement}
  (hfrom : AnalysedFrom scopes index item statement)

include hfrom

/-- A statement that may leave no text behind defines nothing. -/
theorem AnalysedFrom.defines_eq_nil (hvoid : isVoid statement.form = true) :
    statement.defines = [] := by
  -- all but imports are outlined by single names
  have hnames : ∀ ids : List Ident, item.outline = ids.map (fun id => .leaf (.ident id)) →
      statement.defines = [] := by
    intro ids hids
    obtain ⟨tree, hdefines⟩ := hfrom.defines
    rw [hdefines, hids, scopeBuilder_names]
  cases hform : statement.form with
  | importDecl specifiers source => exact (hfrom.importDecl hform).1
  | exportList specifiers source =>
      obtain ⟨ids, hids, -⟩ := exportList_outline (hfrom.form.symm.trans hform)
      exact hnames ids hids
  | exportDefaultExpr value =>
      cases value with
      | ident id =>
          refine hnames [id] ?_
          simp [Item.outline, hfrom.form.symm.trans hform, Expr.outline]
      | _ => simp [hform, isVoid] at hvoid
  | _ => simp [hform, isVoid] at hvoid

/-- A default export that is only a name depends on that name. -/
theorem AnalysedFrom.mem_dependsOn (hdepth : scopes.depth ScopeTree.root = 0) {id : Ident}
    (hform : statement.form = .exportDefaultExpr (.ident id)) : id.name ∈ statement.dependsOn := by
  have hdefines := hfrom.defines_eq_nil (by rw [hform]; rfl)
  have houtline : item.outline = [id].map fun id => .leaf (.ident id) := by
    simp [Item.outline, hfrom.form.symm.trans hform, Expr.outline]
  rw [hfrom.dependsOn, houtline, dependencyCollector_names, hdefines]
  simp [Collecting.reads, ScopeTree.isTopLevelReference_root hdepth, mem_insertName]

/-- A name within the module that a statement exports is listed or defined there, or else the
statement is a default export without a name of its own. -/
theorem AnalysedFrom.exports_cases {key : String} {entry : Export}
    (hexports : Exports statement.index statement.form key entry) :
    entry.localName ∈ listedNames statement.form ∨ entry.localName ∈ statement.defines ∨
      entry.localName = "default" ∧
        (isNameless statement.form = true ∨ entry.identifier.isSome = true) := by
  obtain ⟨tree, hdefines⟩ := hfrom.defines
  have hroot : ({ tree, current := ScopeTree.root, scopes := [], defines := [] } :
      Building).current = ScopeTree.root := rfl
  have hform := hfrom.form
  rw [hdefines]
  generalize ({ tree, current := ScopeTree.root, scopes := [], defines := [] } : Building) = state
    at hroot
  generalize statement.form = form at hexports hform
  unfold Item.outline
  rw [← hform]
  cases hexports with
  | listed hname => exact Or.inl hname
  | nameless hnameless => exact Or.inr (Or.inr ⟨rfl, Or.inl hnameless⟩)
  | mention => exact Or.inr (Or.inr ⟨rfl, Or.inr rfl⟩)
  | function => exact Or.inr (Or.inl (mem_defines_function hroot _ _))
  | classDecl =>
      exact Or.inr (Or.inl (mem_defines_run_node (mem_defines_declare hroot false _) _))
  | @declared declaration name hname =>
      refine Or.inr (Or.inl ?_)
      cases declaration with
      | variableDecl kind declarators span =>
          exact mem_defines_run_node (mem_defines_foldl_declare hroot _ hname) _
      | function declared body =>
          obtain rfl := List.mem_singleton.mp hname
          exact mem_defines_function hroot declared body
      | classDecl declared heritage members span =>
          obtain rfl := List.mem_singleton.mp hname
          exact mem_defines_run_node (mem_defines_declare hroot false declared.name) _
      | _ => exact absurd hname List.not_mem_nil

end Analysed

/-! ## Modules that stem from sources -/

section Sourced

variable {module : Module} {index : Nat} {name : String} {statement : Statement}
  (hsourced : module.Sourced)

include hsourced

/-- A statement is as it was when it was analysed. -/
theorem Sourced.statement? (hstatement : module.statement? index = some statement) :
    ∃ scopes item found, scopes.depth ScopeTree.root = 0 ∧
      AnalysedFrom scopes index item found ∧ statement.asRead = found.asRead := by
  obtain ⟨path, source, earlier, hsource, hrest⟩ := hsourced
  obtain ⟨tree, -, rfl⟩ := ofSource_eq_ofTree hsource
  obtain ⟨found, hfound, heq⟩ := statement?_of_asRead hrest.symm hstatement
  obtain ⟨item, hfrom⟩ := ofTree_statement? hfound
  exact ⟨_, item, found, ofTree_depth_root path source tree, hfrom, heq.symm⟩

/-- A statement that may leave no text behind defines nothing. -/
theorem Sourced.defines_eq_nil (hstatement : module.statement? index = some statement)
    (hvoid : isVoid statement.form = true) : statement.defines = [] := by
  obtain ⟨scopes, item, found, -, hfrom, hrest⟩ := hsourced.statement? hstatement
  rw [Statement.form_eq_of_asRead hrest] at hvoid
  rw [Statement.defines_eq_of_asRead hrest]
  exact hfrom.defines_eq_nil hvoid

/-- A statement that defines a name leaves a text behind. -/
theorem Sourced.isVoid_of_mem_defines (hstatement : module.statement? index = some statement)
    (hname : name ∈ statement.defines) : isVoid statement.form = false := by
  by_contra hvoid
  rw [hsourced.defines_eq_nil hstatement (by simpa using hvoid)] at hname
  contradiction

/-- A name is defined where the module says. -/
theorem Sourced.definition (hindex : module.definitions.get? name = some index) :
    ∃ statement, module.statement? index = some statement ∧ name ∈ statement.defines := by
  obtain ⟨path, source, earlier, hsource, hrest⟩ := hsourced
  obtain ⟨tree, -, rfl⟩ := ofSource_eq_ofTree hsource
  rw [definitions_eq_of_asRead hrest] at hindex
  obtain ⟨found, hmem, rfl, hname⟩ := mem_of_get?_definitionTable hindex
  obtain ⟨later, hlater, heq⟩ := statement?_of_asRead hrest (statement?_index_of_mem hmem)
  exact ⟨later, hlater, Statement.defines_eq_of_asRead heq ▸ hname⟩

/-- Every entry in the table of exports stems from a statement. -/
theorem Sourced.exports_statement {key : String} {entry : Export}
    (hentry : module.exports.get? key = some entry) :
    ∃ index statement, module.statement? index = some statement ∧
      Exports index statement.form key entry := by
  obtain ⟨path, source, earlier, hsource, hrest⟩ := hsourced
  obtain ⟨tree, -, rfl⟩ := ofSource_eq_ofTree hsource
  rw [exports_eq_of_asRead hrest, ofTree_exports] at hentry
  obtain ⟨found, hmem, hfound⟩ := List.mem_flatMap.mp (Table.mem_of_get?_setAll hentry)
  obtain ⟨later, hlater, heq⟩ := statement?_of_asRead hrest (statement?_index_of_mem hmem)
  refine ⟨found.index, later, hlater, ?_⟩
  rw [Statement.form_eq_of_asRead heq]
  exact exports_of_mem hfound

/-- The name within the module that stands behind an exported name is listed, or defined by the
statement that exports it, or else that statement is a default export without a name of its own. -/
theorem Sourced.export_cases {key : String} {entry : Export}
    (hentry : module.exports.get? key = some entry) :
    ∃ index statement, module.statement? index = some statement ∧
      Exports index statement.form key entry ∧
      (entry.localName ∈ listedNames statement.form ∨ entry.localName ∈ statement.defines ∨
        entry.localName = "default" ∧
          (isNameless statement.form = true ∨ entry.identifier.isSome = true)) := by
  obtain ⟨index, statement, hstatement, hexports⟩ := hsourced.exports_statement hentry
  obtain ⟨scopes, item, found, -, hfrom, hrest⟩ := hsourced.statement? hstatement
  refine ⟨index, statement, hstatement, hexports, ?_⟩
  rw [Statement.form_eq_of_asRead hrest, ← hfrom.index] at hexports
  rw [Statement.form_eq_of_asRead hrest, Statement.defines_eq_of_asRead hrest]
  exact hfrom.exports_cases hexports

/-- A default export without a name leaves a text behind, or is a declaration of `default`. -/
theorem Sourced.anonymousDefault (hanonymous : module.anonymousDefault? = some index) :
    ∃ statement, module.statement? index = some statement ∧
      (isNameless statement.form = true ∨ "default" ∈ statement.defines) := by
  obtain ⟨entry, hentry, hnameless⟩ := Option.bind_eq_some_iff.mp hanonymous
  obtain ⟨position, statement, hstatement, hexports, hcases⟩ := hsourced.export_cases hentry
  split at hnameless
  · rename_i hconditions
    obtain ⟨hlocal, hidentifier⟩ := Bool.and_eq_true_iff.mp hconditions
    rw [beq_iff_eq.mp hlocal] at hcases
    obtain ⟨rfl, hunlisted⟩ := hexports.of_statement hnameless
    refine ⟨statement, hstatement, ?_⟩
    rcases hcases with hlisted | hdefines | ⟨-, hform | hsome⟩
    · rw [hunlisted] at hlisted
      contradiction
    · exact Or.inr hdefines
    · exact Or.inl hform
    · rw [Option.isNone_iff_eq_none.mp hidentifier] at hsome
      contradiction
  · contradiction

/-- The entry of a default export without a name. -/
theorem Sourced.nameless_default (hanonymous : module.anonymousDefault? = some index)
    (hstatement : module.statement? index = some statement)
    (hnameless : isNameless statement.form = true) :
    ∃ entry, module.exports.get? "default" = some entry ∧ entry.statement = some index ∧
      entry.isDeclaration = false := by
  obtain ⟨entry, hentry, hindex⟩ := Option.bind_eq_some_iff.mp hanonymous
  split at hindex
  · obtain ⟨position, found, hfound, hexports⟩ := hsourced.exports_statement hentry
    obtain ⟨rfl, -⟩ := hexports.of_statement hindex
    obtain rfl := Option.some.inj (hstatement.symm.trans hfound)
    refine ⟨entry, hentry, hindex, ?_⟩
    generalize statement.form = form at hexports hnameless
    cases hexports with
    | function | classDecl => contradiction
    | _ => rfl
  · contradiction

/-- A default export that is only a name is a statement that depends on the name. -/
theorem Sourced.default_identifier {entry : Export}
    (hentry : module.exports.get? "default" = some entry)
    (hidentifier : entry.identifier = some name) :
    entry.localName = "default" ∧ entry.isDeclaration = false ∧
      ∃ index statement, entry.statement = some index ∧
        module.statement? index = some statement ∧
        (∃ id, statement.form = .exportDefaultExpr (.ident id)) ∧ name ∈ statement.dependsOn := by
  obtain ⟨index, statement, hstatement, hexports⟩ := hsourced.exports_statement hentry
  obtain ⟨scopes, item, found, hdepth, hfrom, hrest⟩ := hsourced.statement? hstatement
  have hform := Statement.form_eq_of_asRead hrest
  rw [hform] at hexports
  generalize hfound : found.form = form at hexports
  cases hexports with
  | @mention id =>
      obtain rfl := Option.some.inj hidentifier
      refine ⟨rfl, rfl, index, statement, rfl, hstatement, ⟨id, hform.trans hfound⟩, ?_⟩
      rw [Statement.dependsOn_eq_of_asRead hrest]
      exact hfrom.mem_dependsOn hdepth hfound
  | _ => contradiction

/-- Only an export list puts `default` into the table of imports. -/
theorem Sourced.imports_default {entry : Import}
    (hentry : module.imports.get? "default" = some entry) :
    ∃ index statement, module.statement? index = some statement ∧
      "default" ∈ listedNames statement.form := by
  obtain ⟨path, source, earlier, hsource, hrest⟩ := hsourced
  obtain ⟨tree, hparse, rfl⟩ := ofSource_eq_ofTree hsource
  obtain ⟨imported, himported, -, -⟩ := get?_imports_eq_some_of_asRead hrest.symm hentry
  rw [ofTree_imports] at himported
  obtain ⟨found, hmem, hfound⟩ := List.mem_flatMap.mp (Table.mem_of_get?_setAll himported)
  obtain ⟨later, hlater, heq⟩ := statement?_of_asRead hrest (statement?_index_of_mem hmem)
  refine ⟨found.index, later, hlater, ?_⟩
  rw [Statement.form_eq_of_asRead heq]
  rw [importEntries_eq_append, List.mem_append] at hfound
  cases hform : found.form with
  | importDecl specifiers origin =>
      exfalso
      have hspares : Script.Parser.SparesDefault found.form := by
        have hforms := ofTree_forms path source tree
        have hin : found.form ∈ (ofTree path source tree).statements.map (·.form) :=
          List.mem_map_of_mem hmem
        rw [hforms] at hin
        obtain ⟨item, hitem, heq⟩ := List.mem_map.mp hin
        exact heq ▸ parse_sparesDefault hparse item hitem
      rw [hform] at hfound
      rcases hfound with hdeclared | hreexported
      · obtain ⟨specifier, hspecifier, heq⟩ := List.mem_map.mp hdeclared
        refine hspares specifiers origin hform specifier hspecifier ?_
        rcases specifier with ⟨_ | _, _⟩ | _ | _ <;> exact congrArg Prod.fst heq
      · contradiction
  | exportList specifiers origin =>
      rw [hform] at hfound
      rcases hfound with hdeclared | hreexported
      · contradiction
      · cases origin with
        | none => contradiction
        | some origin =>
            obtain ⟨specifier, hspecifier, heq⟩ := List.mem_map.mp hreexported
            refine List.mem_map.mpr ⟨specifier, hspecifier, ?_⟩
            cases specifier <;> exact congrArg Prod.fst heq
  | _ =>
      rw [hform] at hfound
      rcases hfound with hdeclared | hreexported <;> contradiction

end Sourced

/-! ## The last statement that declares a name -/

/-- Whether no statement behind a position declares a name. -/
def LastDeclares (module : Module) (name : String) (position : Nat) : Prop :=
  ∀ later other, position < later → module.statement? later = some other → name ∉ other.defines

/-- What a statement contributes to the table of definitions. -/
theorem get?_definitions_of_statement (statement : Statement) (name : String) :
    (Table.setAll [] (statement.defines.map fun defined => (defined, statement.index))).get? name =
      if statement.defines.contains name then some statement.index else none := by
  cases hget : (Table.setAll []
      (statement.defines.map fun defined => (defined, statement.index))).get? name with
  | none =>
      rw [Table.get?_setAll_eq_none_iff] at hget
      rw [if_neg fun hdefines => hget statement.index
        (List.mem_map_of_mem (List.contains_iff_mem.mp hdefines))]
  | some index =>
      obtain ⟨defined, hdefined, heq⟩ := List.mem_map.mp (Table.mem_of_get?_setAll hget)
      obtain ⟨rfl, rfl⟩ := Prod.mk.inj heq
      rw [if_pos (List.contains_iff_mem.mpr hdefined)]

/-- A name is defined by the last statement that defines it. -/
theorem get?_definitionTable (statements : List Statement) (name : String) :
    (definitionTable statements).get? name =
      (statements.reverse.find? fun statement => statement.defines.contains name).map (·.index) := by
  rw [definitionTable_eq_setAll]
  induction statements with
  | nil => rfl
  | cons first rest ih =>
      rw [List.flatMap_cons, Table.get?_setAll_append, ih, get?_definitions_of_statement,
        List.reverse_cons, List.find?_append, Option.map_or, List.find?_singleton]
      congr 1
      split <;> rfl

section Sourced

variable {module : Module} {name : String} {position : Nat} {statement : Statement}

/-- The table of definitions is that of the statements as they are now. -/
theorem Sourced.definitions_eq (hsourced : module.Sourced) :
    module.definitions = definitionTable module.statements := by
  obtain ⟨path, source, earlier, hsource, hrest⟩ := hsourced
  obtain ⟨tree, -, rfl⟩ := ofSource_eq_ofTree hsource
  have hentries : ∀ statements : List Statement, definitionTable statements =
      Table.setAll [] ((statements.map Statement.asRead).flatMap fun statement =>
        statement.defines.map fun name => (name, statement.index)) := by
    intro statements
    rw [definitionTable_eq_setAll, List.flatMap_map]
    rfl
  have hstatements : module.statements.map Statement.asRead =
      (ofTree path source tree).statements.map Statement.asRead := congrArg Module.statements hrest
  rw [definitions_eq_of_asRead hrest, hentries, hstatements, ← hentries]
  rfl

theorem Sourced.last_of_get?_definitions (hsourced : module.Sourced) (hwf : module.WellFormed)
    (hget : module.definitions.get? name = some position) :
    module.LastDeclares name position := by
  rw [hsourced.definitions_eq, get?_definitionTable, Option.map_eq_some_iff] at hget
  obtain ⟨last, hfind, rfl⟩ := hget
  obtain ⟨-, behind, before, hreverse, hbehind⟩ := List.find?_eq_some_iff_append.mp hfind
  have hsplit : module.statements = before.reverse ++ last :: behind.reverse := by
    rw [← List.reverse_reverse module.statements, hreverse]
    simp
  have hindex : last.index = before.reverse.length := by
    refine hwf.index _ _ ?_
    show module.statements[before.reverse.length]? = some last
    simp [hsplit]
  intro later other hlater hother hdeclares
  have hmem : other ∈ behind := by
    obtain ⟨ahead, rfl⟩ : ∃ ahead, later = before.reverse.length + (ahead + 1) :=
      ⟨later - (before.reverse.length + 1), by omega⟩
    have hget : module.statements[before.reverse.length + (ahead + 1)]? = some other := hother
    rw [hsplit, List.getElem?_append_right (Nat.le_add_right _ _), Nat.add_sub_cancel_left,
      List.getElem?_cons_succ] at hget
    exact List.mem_reverse.mp (List.mem_of_getElem? hget)
  have hnot := hbehind other hmem
  rw [List.contains_iff_mem.mpr hdeclares] at hnot
  contradiction

/-- The index of definitions has the last statement that declares a name. -/
theorem Sourced.get?_definitions_iff (hsourced : module.Sourced) (hwf : module.WellFormed) :
    module.definitions.get? name = some position ↔
      (∃ statement, module.statement? position = some statement ∧ name ∈ statement.defines) ∧
        module.LastDeclares name position := by
  constructor
  · exact fun hget => ⟨hsourced.definition hget, hsourced.last_of_get?_definitions hwf hget⟩
  · rintro ⟨⟨statement, hstatement, hdefines⟩, hlast⟩
    cases hget : module.definitions.get? name with
    | none =>
        rw [hsourced.definitions_eq, definitionTable_eq_setAll,
          Table.get?_setAll_eq_none_iff] at hget
        exact absurd (List.mem_flatMap.mpr ⟨statement, List.mem_of_getElem? hstatement,
          List.mem_map_of_mem hdefines⟩) (hget statement.index)
    | some found =>
        obtain ⟨other, hother, hdeclares⟩ := hsourced.definition hget
        have hbehind := hsourced.last_of_get?_definitions hwf hget
        rcases Nat.lt_trichotomy found position with hlt | rfl | hlt
        · exact absurd hdefines (hbehind position statement hlt hstatement)
        · rfl
        · exact absurd hdeclares (hlast found other hlt hother)

end Sourced

end Module
end ScriptBundler
