import ScriptBundler.Proofs.Module.Analysis

/-!
# The indices in the tables of a module

A module refers to its statements by their positions: where a name is defined, what may modify it,
which statement is the default export.  Each of these indices is one of a statement that is there,
and that is no export list.
-/

namespace ScriptBundler
namespace Module

open Script Text

/-- Where a name is defined is what the last statement that defines it says. -/
theorem definitionTable_eq_setAll (statements : List Statement) :
    definitionTable statements = Table.setAll [] (statements.flatMap fun statement =>
      statement.defines.map fun name => (name, statement.index)) := by
  unfold definitionTable Table.setAll
  rw [List.foldl_flatMap]
  congr 1
  funext table statement
  rw [List.foldl_map]

theorem mem_of_get?_definitionTable {statements : List Statement} {name : String} {index : Nat}
    (hget : (definitionTable statements).get? name = some index) :
    ∃ statement ∈ statements, statement.index = index ∧ name ∈ statement.defines := by
  rw [definitionTable_eq_setAll] at hget
  obtain ⟨statement, hstatement, hentry⟩ :=
    List.mem_flatMap.mp (Table.mem_of_get?_setAll hget)
  obtain ⟨defined, hdefined, heq⟩ := List.mem_map.mp hentry
  obtain ⟨rfl, rfl⟩ := Prod.mk.inj heq
  exact ⟨statement, hstatement, rfl, hdefined⟩

/-- The modifiers that a table knows for a name. -/
def knownModifiers (table : Table (List Nat)) (name : String) : List Nat :=
  (table.get? name).getD []

theorem mem_knownModifiers_foldl {names : List String} {index : Nat} {table : Table (List Nat)}
    {name : String} {modifier : Nat} :
    modifier ∈ knownModifiers (names.foldl
      (fun table name => table.set name (knownModifiers table name ++ [index])) table) name ↔
    modifier ∈ knownModifiers table name ∨ modifier = index ∧ name ∈ names := by
  induction names generalizing table with
  | nil => simp
  | cons first rest ih =>
      have hset : modifier ∈ knownModifiers
          (table.set first (knownModifiers table first ++ [index])) name ↔
          modifier ∈ knownModifiers table name ∨ modifier = index ∧ name = first := by
        unfold knownModifiers
        rw [Table.get?_set]
        by_cases hname : first = name
        · subst hname
          simp
        · simp [hname, Ne.symm hname]
      rw [List.foldl_cons, ih, hset, List.mem_cons, or_assoc, ← and_or_left]

/-- The statements that may modify a name, as a module knows them. -/
theorem mem_modificationTable {statements : List Statement} {name : String} {index : Nat} :
    index ∈ knownModifiers (modificationTable statements) name ↔
      ∃ statement ∈ statements, statement.index = index ∧ name ∈ statement.modifies := by
  have hfold : ∀ (statements : List Statement) (table : Table (List Nat)),
      index ∈ knownModifiers (statements.foldl (fun table statement =>
        statement.modifies.foldl (fun table name =>
          table.set name (knownModifiers table name ++ [statement.index])) table) table) name ↔
      index ∈ knownModifiers table name ∨
        ∃ statement ∈ statements, statement.index = index ∧ name ∈ statement.modifies := by
    intro statements
    induction statements with
    | nil => simp
    | cons first rest ih =>
        intro table
        rw [List.foldl_cons, ih, mem_knownModifiers_foldl, List.exists_mem_cons_iff, or_assoc,
          eq_comm]
  exact (hfold statements []).trans (or_iff_right List.not_mem_nil)

/-- Whether a statement is a default export without a name, and not just of a name. -/
def isNameless : ItemForm → Bool
  | .exportDefaultFunction none _ | .exportDefaultClass none _ _ _ => true
  | .exportDefaultExpr (.ident _) => false
  | .exportDefaultExpr _ => true
  | _ => false

/-- The ways in which the statement at some position exports a name. -/
inductive Exports (index : Nat) : ItemForm → String → Export → Prop where
  | listed {specifiers : List ExportSpecifier} {source : Option String} {key name : String}
      (hname : name ∈ listedNames (.exportList specifiers source)) :
      Exports index (.exportList specifiers source) key (.ofName name)
  | declared {declaration : Stmt} {name : String} (hname : name ∈ declaredNames declaration) :
      Exports index (.exportDecl declaration) name
        { Export.ofName name with statement := some index }
  | function {name : Ident} {body : Function} :
      Exports index (.exportDefaultFunction (some name) body) "default"
        (defaultEntry index (some name)).2
  | classDecl {name : Ident} {heritage : Option Expr} {members : List Member} {extent : Span} :
      Exports index (.exportDefaultClass (some name) heritage members extent) "default"
        (defaultEntry index (some name)).2
  | nameless {form : ItemForm} (hform : isNameless form = true) :
      Exports index form "default" { Export.ofName "default" with statement := some index }
  | mention {id : Ident} :
      Exports index (.exportDefaultExpr (.ident id)) "default"
        { Export.ofName "default" with statement := some index, identifier := some id.name }

theorem exports_of_mem {index : Nat} {form : ItemForm} {key : String} {entry : Export}
    (hentry : (key, entry) ∈ exportEntries index form) : Exports index form key entry := by
  cases form with
  | exportDecl declaration =>
      obtain ⟨name, hname, heq⟩ := List.mem_map.mp hentry
      obtain ⟨rfl, rfl⟩ := Prod.mk.inj heq
      exact .declared hname
  | exportDefaultFunction name body =>
      obtain ⟨rfl, rfl⟩ := Prod.mk.inj (List.mem_singleton.mp hentry)
      cases name with
      | none => exact .nameless rfl
      | some name => exact .function
  | exportDefaultClass name heritage members extent =>
      obtain ⟨rfl, rfl⟩ := Prod.mk.inj (List.mem_singleton.mp hentry)
      cases name with
      | none => exact .nameless rfl
      | some name => exact .classDecl
  | exportDefaultExpr value =>
      obtain ⟨rfl, rfl⟩ := Prod.mk.inj (List.mem_singleton.mp hentry)
      cases value with
      | ident id => exact .mention
      | _ => exact .nameless rfl
  | exportList specifiers source =>
      obtain ⟨specifier, hspecifier, heq⟩ := List.mem_map.mp hentry
      have hlisted : ExportSpecifier.listed specifier ∈
          listedNames (.exportList specifiers source) := List.mem_map_of_mem hspecifier
      cases specifier <;>
        · obtain ⟨rfl, rfl⟩ := Prod.mk.inj heq
          exact .listed hlisted
  | _ => exact absurd hentry List.not_mem_nil

/-- Only declarations and default exports give an exported name a statement. -/
theorem Exports.of_statement {index position : Nat} {form : ItemForm} {key : String}
    {entry : Export} (hexports : Exports index form key entry)
    (hstatement : entry.statement = some position) :
    position = index ∧ listedNames form = [] := by
  cases hexports with
  | listed => contradiction
  | nameless hform =>
      refine ⟨(Option.some.inj hstatement).symm, ?_⟩
      unfold isNameless at hform
      split at hform <;> first | rfl | contradiction
  | _ => exact ⟨(Option.some.inj hstatement).symm, rfl⟩

/-- The tables of a module refer to statements that are there and that are no export lists; and an
export list defines nothing and depends on nothing but what it lists.  They do not refer to import
declarations either. -/
structure WellFormed (module : Module) : Prop where
  index : ∀ index statement, module.statement? index = some statement → statement.index = index
  definition : ∀ name index, module.definitions.get? name = some index →
    ∃ statement, module.statement? index = some statement ∧ listedNames statement.form = []
  modifier : ∀ name, ∀ index ∈ module.modifiersOf name,
    ∃ statement, module.statement? index = some statement ∧ listedNames statement.form = []
  defaultExport : ∀ entry index, module.exports.get? "default" = some entry →
    entry.statement = some index →
    ∃ statement, module.statement? index = some statement ∧ listedNames statement.form = []
  listing : ∀ index statement, module.statement? index = some statement →
    listedNames statement.form ≠ [] →
    statement.defines = [] ∧ ∀ name ∈ statement.dependsOn, name ∈ listedNames statement.form
  imported : ∀ index statement specifiers source, module.statement? index = some statement →
    statement.form = .importDecl specifiers source →
    (∀ name, module.definitions.get? name ≠ some index) ∧
      (∀ name, index ∉ module.modifiersOf name) ∧
      ∀ entry, module.exports.get? "default" = some entry → entry.statement ≠ some index

theorem statement?_index_of_mem {path : Files.Path} {source : List Char} {tree : Tree}
    {statement : Statement} (hmem : statement ∈ (ofTree path source tree).statements) :
    (ofTree path source tree).statement? statement.index = some statement := by
  obtain ⟨index, hget⟩ := List.getElem?_of_mem hmem
  obtain ⟨item, hfrom⟩ := ofTree_statement? hget
  rw [hfrom.index]
  exact hget

/-- Every module is well-formed when it is read. -/
theorem ofSource_wellFormed {path : Files.Path} {source : List Char} {module : Module}
    (hsource : Module.ofSource path source = .ok module) : module.WellFormed := by
  obtain ⟨tree, -, rfl⟩ := ofSource_eq_ofTree hsource
  -- a statement that defines or modifies something is no export list
  have hplain : ∀ statement ∈ (ofTree path source tree).statements,
      statement.defines ≠ [] ∨ statement.modifies ≠ [] → listedNames statement.form = [] := by
    intro statement hmem hsome
    by_contra hlisting
    obtain ⟨item, hfrom⟩ := ofTree_statement? (statement?_index_of_mem hmem)
    obtain ⟨hdefines, hmodifies, -⟩ := hfrom.exportList hlisting
    exact hsome.elim (fun h => h hdefines) (fun h => h hmodifies)
  constructor
  case index =>
    intro index statement hstatement
    obtain ⟨item, hfrom⟩ := ofTree_statement? hstatement
    exact hfrom.index
  case definition =>
    intro name index hget
    obtain ⟨statement, hmem, rfl, hname⟩ := mem_of_get?_definitionTable hget
    exact ⟨statement, statement?_index_of_mem hmem,
      hplain statement hmem (Or.inl (List.ne_nil_of_mem hname))⟩
  case modifier =>
    intro name index hmodifier
    obtain ⟨statement, hmem, rfl, hname⟩ := mem_modificationTable.mp hmodifier
    exact ⟨statement, statement?_index_of_mem hmem,
      hplain statement hmem (Or.inr (List.ne_nil_of_mem hname))⟩
  case defaultExport =>
    intro entry index hget hstatement
    rw [ofTree_exports] at hget
    obtain ⟨statement, hmem, hentry⟩ := List.mem_flatMap.mp (Table.mem_of_get?_setAll hget)
    obtain ⟨rfl, hform⟩ := (exports_of_mem hentry).of_statement hstatement
    exact ⟨statement, statement?_index_of_mem hmem, hform⟩
  case listing =>
    intro index statement hstatement hlisting
    obtain ⟨item, hfrom⟩ := ofTree_statement? hstatement
    obtain ⟨hdefines, -, hdepends⟩ := hfrom.exportList hlisting
    exact ⟨hdefines, hdepends⟩
  case imported =>
    intro index statement specifiers origin hstatement hform
    obtain ⟨item, hfrom⟩ := ofTree_statement? hstatement
    obtain ⟨hdefines, hmodifies⟩ := hfrom.importDecl hform
    -- the statement with the index is this one
    have hsame : ∀ found ∈ (ofTree path source tree).statements, found.index = index →
        found = statement := by
      rintro found hfound rfl
      exact Option.some.inj ((statement?_index_of_mem hfound).symm.trans hstatement)
    refine ⟨fun name hget => ?_, fun name hmodifier => ?_, fun entry hget hindex => ?_⟩
    · obtain ⟨found, hfound, hindex, hname⟩ := mem_of_get?_definitionTable hget
      rw [hsame found hfound hindex, hdefines] at hname
      contradiction
    · obtain ⟨found, hfound, hindex, hname⟩ := mem_modificationTable.mp hmodifier
      rw [hsame found hfound hindex, hmodifies] at hname
      contradiction
    · rw [ofTree_exports] at hget
      obtain ⟨found, hfound, hentry⟩ := List.mem_flatMap.mp (Table.mem_of_get?_setAll hget)
      obtain ⟨hposition, -⟩ := (exports_of_mem hentry).of_statement hindex
      rw [hsame found hfound hposition.symm, hform] at hentry
      contradiction

end Module
end ScriptBundler
