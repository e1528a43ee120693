import ScriptBundler.Files.Disk
import ScriptBundler.Output.ExportMode
import ScriptBundler.Text.Snippet

/-!
# Faults

Why a build fails.  Every fault ends the build; what it reports is in `Fault.message` and, for
faults of the disk, in the cause.
-/

namespace ScriptBundler

open Files

/-- A reason for which a build fails. -/
inductive Fault where
  /-- The text of a module is not a module. -/
  | syntaxError (path : Path) (position : Text.Position)
  /-- A module imports a name that another module does not export. -/
  | missingExport (module : Path) (name : String) (importer : Path)
  | unreadableModule (path : Path) (cause : DiskFault)
  | refusedMode (refused : RefusedMode)
  /-- A bundle cannot hold `export *`. -/
  | exportEverything (path : Path)
  | refusedEdit (refused : Text.RefusedEdit)
  /-- The modules lead to ever new paths of the same files. -/
  | endlessProject
  | directoryNotMade (path : Path) (cause : DiskFault)
  | bundleNotWritten (path : Path) (cause : DiskFault)
  | unreadableSettings (path : Path) (cause : DiskFault)
  | invalidSettings (path : Path)
  /-- A variable of the environment has a value that is none of its choices. -/
  | invalidVariable (name value : String)
  | noEntry
deriving Repr, DecidableEq

namespace Fault

/-- The fault in words. -/
def message : Fault → String
  | syntaxError path position => s!"{path.text}:{position.line}:{position.column}: syntax error"
  | missingExport module name importer =>
    s!"Module {module.text} does not export {name} (imported by {importer.text})"
  | unreadableModule path _ => s!"Could not read module {path.text}"
  | refusedMode refused => refused.message
  | exportEverything path => s!"Unhandled export shape in {path.text}: export *"
  | refusedEdit refused => refused.message
  | endlessProject => "The modules import each other under ever new paths"
  | directoryNotMade path _ => s!"Failed to create directory {path.text}"
  | bundleNotWritten path _ => s!"Failed to write bundle to {path.text}"
  | unreadableSettings path _ => s!"Failed to read config file {path.text}"
  | invalidSettings path => s!"Invalid config file {path.text}"
  | invalidVariable name value => s!"Invalid value for {name}: invalid variant: {value}"
  | noEntry => "No entry module given; pass --entry or set \x60entry\x60 in esroll.toml"

/-- The fault of the disk behind a fault. -/
def cause? : Fault → Option DiskFault
  | unreadableModule _ cause | directoryNotMade _ cause | bundleNotWritten _ cause
  | unreadableSettings _ cause => some cause
  | _ => none

/-- The file that a build needs and does not find. -/
def missingFile? : Fault → Option Path
  | unreadableModule path .notFound | unreadableSettings path .notFound => some path
  | _ => none

/-- The fault in words, with what is behind it. -/
def report (fault : Fault) : String :=
  match fault.cause? with
  | some cause => s!"{fault.message}: {cause.message}"
  | none => fault.message

end Fault

end ScriptBundler
