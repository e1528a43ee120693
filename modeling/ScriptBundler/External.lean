import ScriptBundler.Table
import ScriptBundler.Text.MadeName

/-!
# External modules

A module outside the project is not read: the bundle requires it under a name, and reaches its
exports through that name.  The name is what the importers call the whole module, else what they
call its default export, else one made from the specifier.
-/

namespace ScriptBundler

/-- A module outside the project. -/
structure External where
  /-- The specifier as it is written. -/
  specifier : String
  /-- The name that the bundle requires the module under. -/
  name : String
  /-- Whether some module imports its default export. -/
  needsDefault : Bool
  /-- Whether some module imports something else of it by name. -/
  needsNamed : Bool
  /-- Names that importers suggest for the default export and for the whole module. -/
  suggestedNames : Table String
deriving Repr, DecidableEq

namespace External

/-- The external module of a specifier, before anything is imported from it. -/
def ofSpecifier (specifier : String) : External :=
  { specifier, name := Text.madeName specifier, needsDefault := false, needsNamed := false
    suggestedNames := [] }

/-- Suggests a name.  The first suggestion counts. -/
def suggest (external : External) (exported suggestion : String) : External :=
  { external with suggestedNames := external.suggestedNames.setNew exported suggestion }

/-- Notes that an export is imported by its name. -/
def request (external : External) (exported : String) : External :=
  if exported == "default" then { external with needsDefault := true }
  else { external with needsNamed := true }

/-- The name that the bundle uses if nothing else has it. -/
def preferredName (external : External) : String :=
  match external.suggestedNames.get? "*" with
  | some name => name
  | none =>
    match external.suggestedNames.get? "default" with
    | some name => name
    | none => Text.madeName external.specifier

/-- Gives the module another name. -/
def rename (external : External) (name : String) : External :=
  { external with name }

/-- The name of the default export, if other exports are used beside it. -/
def defaultName (external : External) : String :=
  external.name ++ "__default"

/-- What stands in the bundle for an export of the module.  The module itself stands for its
default export, unless other exports are used as well. -/
def canonicalName (external : External) (exported : String) : String :=
  if exported == "*" then external.name
  else if exported == "default" then
    if external.needsNamed then external.defaultName else external.name
  else external.name ++ "." ++ exported

end External

end ScriptBundler
