import ScriptBundler.Script.Names
import ScriptBundler.Table

/-!
# Import and export tables

What a module imports, by local name, and what it exports, by exported name.  The export lists
with a source and `export * as` import what they pass on, under the name they pass on.
-/

namespace ScriptBundler
namespace Module

open Script

/-- The number of a project module or of an external module, which an import leads to. -/
inductive Target where
  | internal (id : Nat)
  | external (id : Nat)
deriving Repr, DecidableEq

/-- A name that a module imports. -/
structure Import where
  /-- The specifier as it is written. -/
  source : String
  /-- The name in the source: a plain name, `default`, or `*` for the whole module. -/
  name : String
  /-- Where the import leads, once it has been followed. -/
  target : Option Target
deriving Repr, DecidableEq

/-- Whether an import is of a whole module. -/
def Import.isNamespace (entry : Import) : Bool :=
  entry.name == "*"

/-- Whether an import is of the default export. -/
def Import.isDefault (entry : Import) : Bool :=
  entry.name == "default"

/-- A name that a module exports. -/
structure Export where
  /-- The name within the module; `default` for a default export without a name. -/
  localName : String
  /-- The statement that declares it, or that is the default export. -/
  statement : Option Nat
  /-- Whether it is a default export of a declaration with a name. -/
  isDeclaration : Bool
  /-- The name that `export default` is followed by, if it is only a name. -/
  identifier : Option String
deriving Repr, DecidableEq

/-- An export of a name by itself. -/
def Export.ofName (localName : String) : Export :=
  { localName, statement := none, isDeclaration := false, identifier := none }

/-- An import that has not been followed. -/
def Import.ofName (source name : String) : Import :=
  { source, name, target := none }

/-- The entry of an import specifier. -/
def importEntry (source : String) : ImportSpecifier → String × Import
  | .named (some imported) id => (id.name, .ofName source imported.text)
  | .named none id => (id.name, .ofName source id.name)
  | .byDefault id => (id.name, .ofName source "default")
  | .everything id => (id.name, .ofName source "*")

/-- The import entry of an export specifier with a source. -/
def reexportEntry (source : String) : ExportSpecifier → String × Import
  | .named name _ => (name.text, .ofName source name.text)
  | .everything exported => (exported.text, .ofName source "*")

/-- The export entry of an export specifier. -/
def exportEntry : ExportSpecifier → String × Export
  | .named name exported => ((exported.getD name).text, .ofName name.text)
  | .everything exported => (exported.text, .ofName exported.text)

/-- The names that an exported declaration declares, in source order. -/
def declaredNames : Stmt → List String
  | .variableDecl _ declarators _ => Pattern.bindingsOf declarators
  | .function name _ => [name.name]
  | .classDecl name _ _ _ => [name.name]
  | _ => []

/-- The import entries of a top-level statement. -/
def importEntries : ItemForm → Table Import
  | .importDecl specifiers source => specifiers.map (importEntry source)
  | .exportList specifiers (some source) => specifiers.map (reexportEntry source)
  | _ => []

/-- The export entry of a default export of a function or class. -/
def defaultEntry (index : Nat) (name : Option Ident) : String × Export :=
  ("default",
    { localName := (name.map (·.name)).getD "default", statement := some index
      isDeclaration := name.isSome, identifier := none })

/-- The export entries of the top-level statement at some position. -/
def exportEntries (index : Nat) : ItemForm → Table Export
  | .exportDecl declaration =>
    (declaredNames declaration).map fun name =>
      (name, { Export.ofName name with statement := some index })
  | .exportDefaultFunction name _ => [defaultEntry index name]
  | .exportDefaultClass name _ _ _ => [defaultEntry index name]
  | .exportDefaultExpr value =>
    let identifier :=
      match value with
      | .ident id => some id.name
      | _ => none
    [("default", { Export.ofName "default" with statement := some index, identifier })]
  | .exportList specifiers _ => specifiers.map exportEntry
  | _ => []

/-- The table of imports of a module. -/
def importTable (forms : List ItemForm) : Table Import :=
  Table.setAll [] (forms.flatMap importEntries)

/-- The table of exports of a module. -/
def exportTable (forms : List ItemForm) : Table Export :=
  Table.setAll [] (forms.zipIdx.flatMap fun entry => exportEntries entry.2 entry.1)

end Module
end ScriptBundler
