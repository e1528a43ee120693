import ScriptBundler.Proofs.Module.Analysis

/-!
# Re-exports in the table of imports

A re-export adds an entry to the table of imports, under the name that it passes on.  That name is
none that the module binds, and yet it shares the table with the names that the module declares or
imports.  The last entry of a name counts, so that a re-export denotes its own source, and leaves
the names of the module alone, only under a condition: what is passed on under one name comes from
one place, and if the module binds that name itself, then by an import from the same place.

Main statement: `reexportsDenote_iff_reexportsApart`, which says that the condition is exact.
-/

namespace ScriptBundler
namespace Module

open Script Text

/-- The name under which an export specifier exports. -/
def exportedName : ExportSpecifier → String
  | .named name exported => (exported.getD name).text
  | .everything exported => exported.text

/-- What a re-export passes on of its source: a name, or `*` for the whole module. -/
def passedOn : ExportSpecifier → String
  | .named name _ => name.text
  | .everything _ => "*"

/-- The entries that an import declaration adds to the table of imports. -/
def declaredEntries : ItemForm → Table Import
  | .importDecl specifiers source => specifiers.map (importEntry source)
  | _ => []

/-- The entries that a re-export adds to the table of imports. -/
def reexportEntries : ItemForm → Table Import
  | .exportList specifiers (some source) => specifiers.map (reexportEntry source)
  | _ => []

/-- The names under which a module exports, in source order. -/
def exportKeys (module : Module) : List String :=
  module.statements.flatMap fun statement =>
    (exportEntries statement.index statement.form).map (·.1)

/-- The entries of all re-exports of a module. -/
def reexports (module : Module) : Table Import :=
  module.statements.flatMap fun statement => reexportEntries statement.form

/-- The table of imports that a module would have without its re-exports. -/
def declaredImports (module : Module) : Table Import :=
  Table.setAll [] (module.statements.flatMap fun statement => declaredEntries statement.form)

/-- Whether a module declares a name at its top level or imports it with an import declaration. -/
def Binds (module : Module) (name : String) : Prop :=
  (∃ statement ∈ module.statements, name ∈ statement.defines) ∨
    module.declaredImports.has name = true

instance (module : Module) (name : String) : Decidable (module.Binds name) :=
  inferInstanceAs (Decidable (_ ∨ _))

/-- Every re-export leads, from its exported name over the table of imports, to what it passes on
of its own source; and what a module binds itself means what it means without the re-exports. -/
def ReexportsDenote (module : Module) : Prop :=
  (∀ statement ∈ module.statements, ∀ specifiers source,
    statement.form = .exportList specifiers (some source) → ∀ specifier ∈ specifiers,
      ∃ exported imported, module.exports.get? (exportedName specifier) = some exported ∧
        module.imports.get? exported.localName = some imported ∧
        imported.source = source ∧ imported.name = passedOn specifier) ∧
  ∀ name, module.Binds name → module.imports.get? name = module.declaredImports.get? name

/-- All re-exports of one name pass on the same, and if the module binds that name itself, then by
an import of the same. -/
def ReexportsApart (module : Module) : Prop :=
  ∀ entry ∈ module.reexports,
    (∀ other ∈ module.reexports, other.1 = entry.1 → other.2 = entry.2) ∧
    (module.Binds entry.1 → module.declaredImports.get? entry.1 = some entry.2)

instance (module : Module) : Decidable module.ReexportsApart :=
  inferInstanceAs (Decidable (∀ entry ∈ module.reexports, _ ∧ _))

theorem importEntries_eq_append (form : ItemForm) :
    importEntries form = declaredEntries form ++ reexportEntries form := by
  rcases form with _ | _ | _ | _ | _ | _ | ⟨specifiers, _ | source⟩ | _ <;>
    simp [importEntries, declaredEntries, reexportEntries]

/-! ## Looking up names of re-exports -/

/-- Without any entry for a name, there is none by an import declaration or a re-export. -/
theorem get?_importEntries_eq_none {statements : List Statement} {name : String}
    (hnone : (Table.setAll [] (statements.flatMap fun s => importEntries s.form)).get? name =
      none) :
    (Table.setAll [] (statements.flatMap fun s => declaredEntries s.form)).get? name = none ∧
      (Table.setAll [] (statements.flatMap fun s => reexportEntries s.form)).get? name = none := by
  rw [Table.get?_setAll_eq_none_iff] at hnone
  constructor <;> rw [Table.get?_setAll_eq_none_iff] <;> intro value hvalue
  all_goals
    obtain ⟨statement, hstatement, hentry⟩ := List.mem_flatMap.mp hvalue
    refine hnone value (List.mem_flatMap.mpr ⟨statement, hstatement, ?_⟩)
    rw [importEntries_eq_append]
    simp [hentry]

/-- What a name means is what the last import declaration of it says, or the last re-export. -/
theorem get?_importEntries (statements : List Statement) (name : String) :
    let imports := (Table.setAll [] (statements.flatMap fun s => importEntries s.form)).get? name
    imports =
        (Table.setAll [] (statements.flatMap fun s => declaredEntries s.form)).get? name ∨
      imports =
        (Table.setAll [] (statements.flatMap fun s => reexportEntries s.form)).get? name := by
  -- a statement is an import or a re-export but not both, and the last one with the name counts
  induction statements with
  | nil => exact Or.inl rfl
  | cons first rest ih =>
      simp only [List.flatMap_cons, Table.get?_setAll_append]
      cases hrest : (Table.setAll [] (rest.flatMap fun s => importEntries s.form)).get? name with
      | some entry =>
          rw [hrest] at ih
          rcases ih with hdeclared | hreexported
          · exact Or.inl (by rw [← hdeclared]; rfl)
          · exact Or.inr (by rw [← hreexported]; rfl)
      | none =>
          obtain ⟨hdeclared, hreexported⟩ := get?_importEntries_eq_none hrest
          rw [hdeclared, hreexported, Option.none_or, Option.none_or, Option.none_or]
          rcases hform : first.form with _ | _ | _ | _ | _ | _ | ⟨specifiers, _ | source⟩ | _ <;>
            simp [importEntries, declaredEntries, reexportEntries]

variable {path : Files.Path} {source : List Char} {module : Module}

theorem get?_imports_cases (hsource : Module.ofSource path source = .ok module) (name : String) :
    module.imports.get? name = module.declaredImports.get? name ∨
      module.imports.get? name = (Table.setAll [] module.reexports).get? name := by
  obtain ⟨tree, -, rfl⟩ := ofSource_eq_ofTree hsource
  rw [ofTree_imports]
  exact get?_importEntries _ name

theorem get?_imports_of_not_reexported (hsource : Module.ofSource path source = .ok module)
    {name : String} (habsent : ∀ entry, (name, entry) ∉ module.reexports) :
    module.imports.get? name = module.declaredImports.get? name := by
  rcases get?_imports_cases hsource name with hdeclared | hreexported
  · exact hdeclared
  · rw [Table.get?_setAll_eq_none_iff.mpr habsent] at hreexported
    obtain ⟨tree, -, rfl⟩ := ofSource_eq_ofTree hsource
    rw [ofTree_imports] at hreexported
    rw [ofTree_imports, hreexported]
    exact (get?_importEntries_eq_none hreexported).1.symm

/-- A name that is passed on is in the table of imports. -/
theorem get?_imports_ne_none (hsource : Module.ofSource path source = .ok module)
    {name : String} {entry : Import} (hentry : (name, entry) ∈ module.reexports) :
    module.imports.get? name ≠ none := by
  intro hnone
  obtain ⟨tree, -, rfl⟩ := ofSource_eq_ofTree hsource
  rw [ofTree_imports] at hnone
  exact Table.get?_setAll_eq_none_iff.mp (get?_importEntries_eq_none hnone).2 entry hentry

/-- Where re-exports are kept apart, each of them is what the table of imports says. -/
theorem ReexportsApart.get?_imports (hsource : Module.ofSource path source = .ok module)
    (hapart : module.ReexportsApart) {name : String} {entry : Import}
    (hentry : (name, entry) ∈ module.reexports) :
    module.imports.get? name = some entry := by
  obtain ⟨hsame, hbound⟩ := hapart (name, entry) hentry
  cases himport : module.imports.get? name with
  | none => exact absurd himport (get?_imports_ne_none hsource hentry)
  | some found =>
      rcases get?_imports_cases hsource name with hdeclared | hreexported
      -- an import declaration comes last, but it imports the same
      · rw [himport] at hdeclared
        have hbinds : module.Binds name := Or.inr (by simp [Table.has, ← hdeclared])
        rw [hdeclared]
        exact hbound hbinds
      · rw [himport] at hreexported
        exact congrArg some (hsame _ (Table.mem_of_get?_setAll hreexported.symm) rfl)

/-! ## From exported names to the table of imports -/

/-- The entries that a specifier adds to the tables: under the name that is passed on, what is
passed on of the source. -/
theorem reexportEntry_eq (origin : String) (specifier : ExportSpecifier) :
    reexportEntry origin specifier =
      ((exportEntry specifier).2.localName, .ofName origin (passedOn specifier)) := by
  cases specifier <;> rfl

theorem exportEntry_fst (specifier : ExportSpecifier) :
    (exportEntry specifier).1 = exportedName specifier := by
  cases specifier <;> rfl

theorem mem_reexports {name : String} {entry : Import} :
    (name, entry) ∈ module.reexports ↔
      ∃ statement ∈ module.statements, ∃ specifiers origin,
        statement.form = .exportList specifiers (some origin) ∧
          ∃ specifier ∈ specifiers, reexportEntry origin specifier = (name, entry) := by
  unfold reexports
  rw [List.mem_flatMap]
  constructor
  · rintro ⟨statement, hstatement, hentry⟩
    refine ⟨statement, hstatement, ?_⟩
    rcases hform : statement.form with _ | _ | _ | _ | _ | _ | ⟨specifiers, _ | origin⟩ | _ <;>
      rw [hform] at hentry <;> try exact absurd hentry List.not_mem_nil
    obtain ⟨specifier, hspecifier, heq⟩ := List.mem_map.mp hentry
    exact ⟨specifiers, origin, rfl, specifier, hspecifier, heq⟩
  · rintro ⟨statement, hstatement, specifiers, origin, hform, specifier, hspecifier, heq⟩
    refine ⟨statement, hstatement, ?_⟩
    rw [hform, ← heq]
    exact List.mem_map_of_mem hspecifier

/-- No import of a module that has just been read has been followed. -/
theorem imports_target (hsource : Module.ofSource path source = .ok module) {name : String}
    {entry : Import} (hget : module.imports.get? name = some entry) : entry.target = none := by
  obtain ⟨tree, -, rfl⟩ := ofSource_eq_ofTree hsource
  rw [ofTree_imports] at hget
  obtain ⟨statement, -, hentry⟩ := List.mem_flatMap.mp (Table.mem_of_get?_setAll hget)
  rw [importEntries_eq_append, List.mem_append] at hentry
  rcases hentry with hdeclared | hreexported
  · rcases hform : statement.form with _ | ⟨specifiers, origin⟩ | _ | _ | _ | _ | _ | _ <;>
      rw [hform] at hdeclared <;> try exact absurd hdeclared List.not_mem_nil
    obtain ⟨specifier, -, heq⟩ := List.mem_map.mp hdeclared
    rcases specifier with ⟨_ | _, _⟩ | _ | _ <;> exact (congrArg (·.2.target) heq).symm
  · rcases hform : statement.form with _ | _ | _ | _ | _ | _ | ⟨specifiers, _ | origin⟩ | _ <;>
      rw [hform] at hreexported <;> try exact absurd hreexported List.not_mem_nil
    obtain ⟨specifier, -, heq⟩ := List.mem_map.mp hreexported
    rw [reexportEntry_eq] at heq
    exact (congrArg (·.2.target) heq).symm

/-- Without duplicate export names, a specifier's exported name leads to the name that it passes
on. -/
theorem get?_exports_of_specifier (hsource : Module.ofSource path source = .ok module)
    (hnodup : module.exportKeys.Nodup) {statement : Statement}
    (hstatement : statement ∈ module.statements) {specifiers : List ExportSpecifier}
    {origin : Option String} (hform : statement.form = .exportList specifiers origin)
    {specifier : ExportSpecifier} (hspecifier : specifier ∈ specifiers) :
    module.exports.get? (exportedName specifier) = some (exportEntry specifier).2 := by
  obtain ⟨tree, -, rfl⟩ := ofSource_eq_ofTree hsource
  rw [ofTree_exports]
  refine Table.get?_setAll_of_mem ?_ (List.mem_flatMap.mpr ⟨statement, hstatement, ?_⟩)
  · rw [List.map_flatMap]
    exact hnodup
  · rw [hform, ← exportEntry_fst]
    exact List.mem_map_of_mem hspecifier

/-- Re-exports that denote their sources are kept apart. -/
theorem ReexportsDenote.apart (hsource : Module.ofSource path source = .ok module)
    (hnodup : module.exportKeys.Nodup) (hdenote : module.ReexportsDenote) :
    module.ReexportsApart := by
  obtain ⟨hleads, hown⟩ := hdenote
  -- every re-export is what the table says under the name that it passes on
  have hget : ∀ entry ∈ module.reexports, module.imports.get? entry.1 = some entry.2 := by
    rintro ⟨name, entry⟩ hentry
    obtain ⟨statement, hstatement, specifiers, origin, hform, specifier, hspecifier, heq⟩ :=
      mem_reexports.mp hentry
    obtain ⟨exported, imported, hexported, himported, hfrom, hname⟩ :=
      hleads statement hstatement specifiers origin hform specifier hspecifier
    rw [get?_exports_of_specifier hsource hnodup hstatement hform hspecifier] at hexported
    obtain rfl := Option.some.inj hexported
    rw [reexportEntry_eq] at heq
    obtain ⟨rfl, rfl⟩ := Prod.mk.inj heq
    have htarget : imported.target = none := imports_target hsource himported
    rw [himported, ← hfrom, ← hname]
    cases imported
    exact congrArg some (congrArg _ htarget)
  intro entry hentry
  refine ⟨fun other hother hname => ?_, fun hbinds => ?_⟩
  · have hboth := hget other hother
    rw [hname, hget entry hentry] at hboth
    exact (Option.some.inj hboth).symm
  · rw [← hown entry.1 hbinds]
    exact hget entry hentry

/-- Re-exports that are kept apart denote their sources. -/
theorem ReexportsApart.denote (hsource : Module.ofSource path source = .ok module)
    (hnodup : module.exportKeys.Nodup) (hapart : module.ReexportsApart) :
    module.ReexportsDenote := by
  constructor
  · intro statement hstatement specifiers origin hform specifier hspecifier
    refine ⟨(exportEntry specifier).2, .ofName origin (passedOn specifier),
      get?_exports_of_specifier hsource hnodup hstatement hform hspecifier, ?_, rfl, rfl⟩
    exact hapart.get?_imports hsource (mem_reexports.mpr
      ⟨statement, hstatement, specifiers, origin, hform, specifier, hspecifier,
        reexportEntry_eq origin specifier⟩)
  · intro name hbinds
    by_cases hre : ∃ entry, (name, entry) ∈ module.reexports
    · obtain ⟨entry, hentry⟩ := hre
      rw [hapart.get?_imports hsource hentry]
      exact ((hapart (name, entry) hentry).2 hbinds).symm
    · exact get?_imports_of_not_reexported hsource (not_exists.mp hre)

/-- A module without duplicate export names has re-exports that denote their sources, and that
leave the names which it binds alone, exactly if they are kept apart: all re-exports of one name
pass on the same, and the module does not bind that name itself otherwise. -/
theorem reexportsDenote_iff_reexportsApart (hsource : Module.ofSource path source = .ok module)
    (hnodup : module.exportKeys.Nodup) : module.ReexportsDenote ↔ module.ReexportsApart :=
  ⟨fun hdenote => hdenote.apart hsource hnodup, fun hapart => hapart.denote hsource hnodup⟩

/-- A re-export of a name that is imported from the same source, one under another name, and one
of a whole module. -/
def mixedReexports : List Char :=
  ("import \x7b a \x7d from './x';\nexport \x7b a, b as c \x7d from './x';\n" ++
    "export * as d from './y';\nvar e = a;\n").toList

theorem reexportsDenote_mixedReexports : ∃ module,
    Module.ofSource ⟨"main.js"⟩ mixedReexports = .ok module ∧
      module.exportKeys.Nodup ∧ module.ReexportsDenote := by
  obtain ⟨module, hsource, hcheck⟩ := exists_ofSource_of_check ⟨"main.js"⟩ mixedReexports
    (fun module => decide (module.exportKeys.Nodup ∧ module.ReexportsApart)) (by decide +kernel)
  obtain ⟨hnodup, hapart⟩ := of_decide_eq_true hcheck
  exact ⟨module, hsource, hnodup,
    (reexportsDenote_iff_reexportsApart hsource hnodup).mpr hapart⟩

/-- Two re-exports of the same name from different sources. -/
def rivalReexports : List Char :=
  "export \x7b a \x7d from './x';\nexport \x7b a as b \x7d from './y';\n".toList

/-- The second one of two rivals takes the place of the first. -/
theorem not_reexportsDenote_rivalReexports : ∃ module,
    Module.ofSource ⟨"main.js"⟩ rivalReexports = .ok module ∧
      module.exportKeys.Nodup ∧ ¬ module.ReexportsDenote := by
  obtain ⟨module, hsource, hcheck⟩ := exists_ofSource_of_check ⟨"main.js"⟩ rivalReexports
    (fun module => decide (module.exportKeys.Nodup ∧ ¬ module.ReexportsApart)) (by decide +kernel)
  obtain ⟨hnodup, hapart⟩ := of_decide_eq_true hcheck
  exact ⟨module, hsource, hnodup, fun hdenote => hapart (hdenote.apart hsource hnodup)⟩

end Module
end ScriptBundler
