import ScriptBundler.Proofs.Module.Definitions
import ScriptBundler.Proofs.Script.PatternNames

/-!
# Exports and definitions of a module

The table of exports is made from the declarations behind `export`, the names that a statement
defines from the first walk over its outline, and the table of definitions from the latter.  Here
the three agree: what is exported of a declaration is defined by its statement, a variable
declaration exports the names that its patterns bind and nothing else, in source order, and the
last statement that defines a name is the one that the table of definitions knows.

The default export without a name has no entry under `default` among the definitions, unless a
statement declares a variable of that name: the word is reserved, but the parser lets it pass in
front of a first value, as in `{ default = 1 }`.
-/

namespace ScriptBundler

open Files Script

namespace Script

/-- Whether a statement exports what it declares: variables, a function or a class behind `export`,
or a function or class with a name as the default export. -/
def ItemForm.declaresExport : ItemForm → Bool
  | .exportDecl _ => true
  | .exportDefaultFunction name _ | .exportDefaultClass name _ _ _ => name.isSome
  | _ => false

end Script

namespace Module

/-- The entry of a variable that is exported where it is declared. -/
def variableEntry (index : Nat) (id : Ident) : String × Export :=
  (id.name, { Export.ofName id.name with statement := some index })

/-- Whether the table of exports, the table of definitions and the statements of a module tell the
same. -/
structure TablesAgree (module : Module) : Prop where
  /-- What is exported of a declaration is defined by its statement. -/
  declared : ∀ key entry index, (key, entry) ∈ module.exports → entry.statement = some index →
    ∃ statement, module.statement? index = some statement ∧
      (statement.form.declaresExport = true → entry.localName ∈ statement.defines ∧
        ∃ last, module.definitions.get? entry.localName = some last)
  /-- A variable declaration exports the names that its patterns bind, each under its own name. -/
  bound : ∀ index statement kind declarators extent,
    module.statement? index = some statement →
    statement.form = .exportDecl (.variableDecl kind declarators extent) →
    ∃ ids : List Ident, (∀ id, id ∈ ids ↔ ∃ pattern ∈ declarators, pattern.Binds id) ∧
      (∃ start stop, InOrder start stop ids) ∧
      module.exports.filter (fun entry => entry.2.statement == some index) =
        ids.map (variableEntry index) ∧
      ∀ id ∈ ids, id.name ∈ statement.defines
  definition : ∀ name index, module.definitions.get? name = some index ↔
    (∃ statement, module.statement? index = some statement ∧ name ∈ statement.defines) ∧
      module.LastDeclares name index
  anonymous : ∀ index, module.anonymousDefault? = some index →
    ∃ statement, module.statement? index = some statement ∧
      ("default" ∉ statement.defines → isNameless statement.form = true)

variable {path : Path} {source : List Char} {module : Module}

/-- Without duplicate export names every entry of the table stays, in source order. -/
theorem exports_eq_flatMap (hsource : Module.ofSource path source = .ok module)
    (hnodup : module.exportKeys.Nodup) :
    module.exports = module.statements.flatMap fun statement =>
      exportEntries statement.index statement.form := by
  obtain ⟨tree, -, rfl⟩ := ofSource_eq_ofTree hsource
  rw [ofTree_exports]
  refine Table.setAll_eq_append ?_
  rw [List.nil_append, List.map_flatMap]
  exact hnodup

/-- The entries that a statement contributes to the table of exports. -/
theorem filter_exports (hsource : Module.ofSource path source = .ok module)
    (hnodup : module.exportKeys.Nodup) {index : Nat} {statement : Statement}
    (hstatement : module.statement? index = some statement) :
    module.exports.filter (fun entry => entry.2.statement == some index) =
      (exportEntries index statement.form).filter fun entry =>
        entry.2.statement == some index := by
  have hwf := ofSource_wellFormed hsource
  have hindices : module.statements.Pairwise fun first later => first.index ≠ later.index := by
    refine List.pairwise_iff_getElem.mpr fun before behind hbefore hbehind hlt => ?_
    rw [hwf.index before _ (List.getElem?_eq_getElem hbefore),
      hwf.index behind _ (List.getElem?_eq_getElem hbehind)]
    omega
  -- an entry of another statement has another index or none
  have hothers : ∀ others : List Statement, (∀ other ∈ others, other.index ≠ index) →
      (others.flatMap fun other => exportEntries other.index other.form).filter
        (fun entry => entry.2.statement == some index) = [] := by
    intro others hother
    rw [List.filter_eq_nil_iff]
    rintro ⟨key, entry⟩ hentry hindex
    obtain ⟨other, hmem, hexport⟩ := List.mem_flatMap.mp hentry
    obtain ⟨heq, -⟩ := (exports_of_mem hexport).of_statement (beq_iff_eq.mp hindex)
    exact hother other hmem heq.symm
  have hposition : statement.index = index := hwf.index index statement hstatement
  obtain ⟨hlength, hget⟩ := List.getElem?_eq_some_iff.mp hstatement
  have hsplit : module.statements =
      module.statements.take index ++ statement :: module.statements.drop (index + 1) := by
    rw [← hget, List.cons_getElem_drop_succ, List.take_append_drop]
  rw [exports_eq_flatMap hsource hnodup]
  rw [hsplit] at hindices ⊢
  obtain ⟨-, hbehind, hbefore⟩ := List.pairwise_append.mp hindices
  rw [List.flatMap_append, List.flatMap_cons, List.filter_append, List.filter_append,
    hothers _ fun other hmem => hposition ▸ hbefore other hmem statement List.mem_cons_self,
    hothers _ fun other hmem heq =>
      (List.pairwise_cons.mp hbehind).1 other hmem (hposition.trans heq.symm),
    hposition, List.nil_append, List.append_nil]

/-- What a statement exports of a variable declaration. -/
theorem exportEntries_variableDecl (index : Nat) (kind : VariableKind) (declarators : List Pattern)
    (extent : Span) : exportEntries index (.exportDecl (.variableDecl kind declarators extent)) =
      (Pattern.identsOf declarators).map (variableEntry index) := by
  show (Pattern.bindingsOf declarators).map _ = _
  rw [Pattern.bindingsOf_eq, List.map_map]
  rfl

/-- What a statement exports of a declaration, it defines. -/
theorem AnalysedFrom.mem_defines_of_declaresExport {scopes : ScopeTree} {item : Item}
    {statement : Statement} {key : String} {entry : Export}
    (hfrom : AnalysedFrom scopes statement.index item statement)
    (hdeclares : statement.form.declaresExport = true)
    (hexports : Exports statement.index statement.form key entry) :
    entry.localName ∈ statement.defines := by
  rcases hfrom.exports_cases hexports with hlisted | hdefines | ⟨-, hnameless | hidentifier⟩
  · generalize statement.form = form at hdeclares hlisted
    cases form with
    | exportList => contradiction
    | _ => exact absurd hlisted List.not_mem_nil
  · exact hdefines
  · generalize statement.form = form at hdeclares hnameless
    unfold isNameless at hnameless
    split at hnameless <;> contradiction
  · generalize statement.form = form at hdeclares hexports
    cases hexports with
    | mention | listed => contradiction
    | _ => simp [Export.ofName, defaultEntry] at hidentifier

theorem WellFormed.statement?_index (hwf : module.WellFormed) {statement : Statement}
    (hmem : statement ∈ module.statements) :
    module.statement? statement.index = some statement := by
  obtain ⟨position, hget⟩ := List.getElem?_of_mem hmem
  rw [hwf.index position statement hget]
  exact hget

theorem mem_defines_of_declaresExport (hsource : Module.ofSource path source = .ok module)
    {statement : Statement} (hmem : statement ∈ module.statements)
    (hdeclares : statement.form.declaresExport = true) {key : String} {entry : Export}
    (hexports : Exports statement.index statement.form key entry) :
    entry.localName ∈ statement.defines := by
  obtain ⟨tree, -, rfl⟩ := ofSource_eq_ofTree hsource
  obtain ⟨item, hfrom⟩ := ofTree_statement? (statement?_index_of_mem hmem)
  exact hfrom.mem_defines_of_declaresExport hdeclares hexports

/-- The variables that a statement exports stand in it one after the other. -/
theorem exportedIdents_inOrder (hsource : Module.ofSource path source = .ok module)
    {statement : Statement} (hmem : statement ∈ module.statements) :
    ∃ span : Span, InOrder span.start span.stop statement.form.exportedIdents := by
  obtain ⟨tree, hparse, rfl⟩ := ofSource_eq_ofTree hsource
  have hform : statement.form ∈ tree.items.map (·.form) :=
    ofTree_forms path source tree ▸ List.mem_map_of_mem hmem
  obtain ⟨item, hitem, heq⟩ := List.mem_map.mp hform
  exact ⟨item.span, heq ▸ parse_inOrder hparse item hitem⟩

theorem exists_definition_of_mem_defines (hsource : Module.ofSource path source = .ok module)
    {statement : Statement} (hstatement : statement ∈ module.statements) {name : String}
    (hname : name ∈ statement.defines) : ∃ last, module.definitions.get? name = some last := by
  cases hget : module.definitions.get? name with
  | some last => exact ⟨last, rfl⟩
  | none =>
      rw [(Sourced.of_ofSource hsource).definitions_eq, definitionTable_eq_setAll,
        Table.get?_setAll_eq_none_iff] at hget
      exact absurd (List.mem_flatMap.mpr ⟨statement, hstatement, List.mem_map_of_mem hname⟩)
        (hget statement.index)

/-- In a module without duplicate export names, what is exported of a declaration is defined by
its statement and known to the table of definitions.  A variable declaration exports the names
that its patterns bind, in source order, and its statement defines them.  The table of definitions
knows the last statement that defines a name.  The default export without a name is such a
statement, unless its statement declares a variable with the name `default`. -/
theorem tablesAgree (hsource : Module.ofSource path source = .ok module)
    (hnodup : module.exportKeys.Nodup) : module.TablesAgree := by
  have hsourced := Sourced.of_ofSource hsource
  have hwf := ofSource_wellFormed hsource
  constructor
  case declared =>
    intro key entry index hentry hindex
    rw [exports_eq_flatMap hsource hnodup] at hentry
    obtain ⟨statement, hmem, hentry⟩ := List.mem_flatMap.mp hentry
    have hexports := exports_of_mem hentry
    obtain ⟨rfl, -⟩ := hexports.of_statement hindex
    refine ⟨statement, hwf.statement?_index hmem, fun hdeclares => ?_⟩
    have hname := mem_defines_of_declaresExport hsource hmem hdeclares hexports
    exact ⟨hname, exists_definition_of_mem_defines hsource hmem hname⟩
  case bound =>
    intro index statement kind declarators extent hstatement hform
    have hmem := List.mem_of_getElem? hstatement
    have hentries := exportEntries_variableDecl index kind declarators extent
    refine ⟨Pattern.identsOf declarators, fun id => Pattern.mem_identsOf declarators, ?_, ?_, ?_⟩
    · obtain ⟨span, horder⟩ := exportedIdents_inOrder hsource hmem
      rw [hform] at horder
      exact ⟨_, _, horder⟩
    · rw [filter_exports hsource hnodup hstatement, hform, hentries, List.filter_eq_self]
      intro entry hentry
      obtain ⟨id, -, rfl⟩ := List.mem_map.mp hentry
      exact beq_self_eq_true _
    · intro id hid
      have hentry : variableEntry index id ∈ exportEntries statement.index statement.form := by
        rw [hwf.index index statement hstatement, hform, hentries]
        exact List.mem_map_of_mem hid
      exact mem_defines_of_declaresExport hsource hmem (by rw [hform]; rfl) (exports_of_mem hentry)
  case definition => exact fun name index => hsourced.get?_definitions_iff hwf
  case anonymous =>
    intro index hanonymous
    obtain ⟨statement, hstatement, hcases⟩ := hsourced.anonymousDefault hanonymous
    exact ⟨statement, hstatement, fun habsent => hcases.resolve_right habsent⟩

/-- Patterns in patterns, with keys, first values and a rest, and a default export with a name. -/
def nestedPatterns : List Char :=
  ("export var \x7b a, b: [c = 1, ...d], [a]: \x7b e \x7d = \x7b\x7d \x7d = \x7b\x7d, f;\n" ++
    "export default function g() \x7b\x7d\n").toList

theorem tablesAgree_nestedPatterns : ∃ module,
    Module.ofSource ⟨"main.js"⟩ nestedPatterns = .ok module ∧ module.exportKeys.Nodup ∧
      module.exports.map (·.1) = ["a", "c", "d", "e", "f", "default"] ∧ module.TablesAgree := by
  obtain ⟨module, hsource, hcheck⟩ := exists_ofSource_of_check ⟨"main.js"⟩ nestedPatterns
    (fun module => decide (module.exportKeys.Nodup ∧
      module.exports.map (·.1) = ["a", "c", "d", "e", "f", "default"])) (by decide +kernel)
  obtain ⟨hnodup, hkeys⟩ := of_decide_eq_true hcheck
  exact ⟨module, hsource, hnodup, hkeys, tablesAgree hsource hnodup⟩

/-- A variable with the name `default`, which the parser lets pass in front of a first value. -/
def reservedVariable : List Char :=
  "export var \x7b default = 1 \x7d = \x7b\x7d;\n".toList

/-- A declaration of `default` is taken for a default export without a name. -/
theorem not_nameless_reservedVariable : ∃ module,
    Module.ofSource ⟨"main.js"⟩ reservedVariable = .ok module ∧ module.exportKeys.Nodup ∧
      ∃ index statement, module.anonymousDefault? = some index ∧
        module.statement? index = some statement ∧ isNameless statement.form = false ∧
        statement.form.declaresExport = true ∧ "default" ∈ statement.defines := by
  obtain ⟨module, hsource, hcheck⟩ := exists_ofSource_of_check ⟨"main.js"⟩ reservedVariable
    (fun module => decide (module.exportKeys.Nodup ∧ module.anonymousDefault? = some 0 ∧
      ∃ statement ∈ module.statement? 0, isNameless statement.form = false ∧
        statement.form.declaresExport = true ∧ "default" ∈ statement.defines))
    (by decide +kernel)
  obtain ⟨hnodup, hanonymous, statement, hstatement, hrest⟩ := of_decide_eq_true hcheck
  exact ⟨module, hsource, hnodup, 0, statement, hanonymous, hstatement, hrest⟩

end Module
end ScriptBundler
