import ScriptBundler.Bundle
import ScriptBundler.Settings.Layer

/-!
# Loading settings

The settings of a run come from the settings file of the user, the one in the working directory, the
one that is named explicitly, and the environment, in this order.  The first two need not exist.
-/

namespace ScriptBundler

open Files

/-- The variables of the environment. -/
abbrev Environment := Table String

namespace Settings

/-- The settings in the notation of the log. -/
def description (settings : Settings) : String :=
  let path (value : Option Path) : String :=
    match value with
    | none => "None"
    | some path => "Some(" ++ Log.quotePath path.text ++ ")"
  let mode :=
    match settings.exports with
    | .auto => "Auto"
    | .default => "Default"
    | .named => "Named"
    | .none => "None"
  let format :=
    match settings.format with
    | .commonJs => "Cjs"
  "Config \x7b entry: " ++ path settings.entry ++ ", output: " ++ path settings.output ++
    ", exports: " ++ mode ++ ", format: " ++ format ++ " \x7d"

/-- The name of a settings file. -/
def fileName : Path :=
  ⟨"esroll.toml"⟩

/-- The directory for settings that the environment chooses.  One that is not absolute does not
count. -/
def chosenDirectory? (environment : Environment) : Option Path :=
  match environment.get? "XDG_CONFIG_HOME" with
  | none => none
  | some chosen => if Path.isAbsolute ⟨chosen⟩ then some ⟨chosen⟩ else none

/-- The directory for settings below the home directory. -/
def homeDirectory? (environment : Environment) : Option Path :=
  match environment.get? "HOME" with
  | none | some "" => none
  | some home => some (Path.join ⟨home⟩ ⟨".config/"⟩)

/-- The settings file of the user. -/
def userFile? (environment : Environment) : Option Path :=
  ((chosenDirectory? environment).or (homeDirectory? environment)).map fun directory =>
    (directory.join ⟨"esroll"⟩).join fileName

/-- The settings file of the working directory. -/
def projectFile (disk : Disk) : Path :=
  disk.workingPath.join fileName

/-- The settings files that need not exist. -/
def optionalFiles (disk : Disk) (environment : Environment) : List Path :=
  (userFile? environment).toList ++ [projectFile disk]

/-- The settings files of a run, in the order in which they are put over each other.  Those that
need not exist are left out where there is no file. -/
def files (disk : Disk) (environment : Environment) (explicit : Option Path) : List Path :=
  (optionalFiles disk environment).filter disk.hasFile ++ explicit.toList

/-- The layer that a settings file is. -/
def layerOf (disk : Disk) (path : Path) : Except Fault Layer :=
  match disk.read path with
  | .error cause => .error (.unreadableSettings path cause)
  | .ok text =>
    match Layer.ofText? text with
    | none => .error (.invalidSettings path)
    | some layer => .ok layer

/-- The choice that a variable of the environment makes, by its name in any case.  A blank value
makes none. -/
def variableChoice {α : Type} (environment : Environment) (name : String) (choices : List α)
    (label : α → String) : Except Fault (Option α) :=
  match environment.get? name with
  | none => .ok none
  | some value =>
    let chars := Text.trim value.toList
    let trimmed := String.ofList chars
    if trimmed.isEmpty then .ok none
    else
      match choice? choices label (String.ofList (chars.map Char.toLower)) with
      | some choice => .ok (some choice)
      | none => .error (.invalidVariable name trimmed)

/-- The layer of the environment. -/
def environmentLayer (environment : Environment) : Except Fault Layer :=
  match variableChoice environment "ESROLL_EXPORTS" ExportMode.all ExportMode.text with
  | .error fault => .error fault
  | .ok exports =>
    match variableChoice environment "ESROLL_FORMAT" OutputFormat.all OutputFormat.text with
    | .error fault => .error fault
    | .ok format => .ok { Layer.empty with exports, format }

/-- Work on settings that are changed in place.  What has been done to them stays done when the work
ends with a fault. -/
abbrev Editing := EStateM Fault (Settings × List Log.Entry)

namespace Editing

/-- Gives the value of a result. -/
def ofExcept {α : Type} (result : Except Fault α) : Editing α :=
  match result with
  | .ok value => pure value
  | .error fault => throw fault

/-- Adds an entry to the log. -/
def report (entry : Log.Entry) : Editing Unit :=
  modify fun state => (state.1, state.2 ++ [entry])

/-- Puts a layer over the settings. -/
def put (layer : Layer) : Editing Unit :=
  modify fun state => (state.1.apply layer, state.2)

/-- Puts a settings file over the settings. -/
def merge (disk : Disk) (path : Path) : Editing Unit := do
  let layer ← ofExcept (layerOf disk path)
  report ⟨.debug, .settings, s!"Loaded configuration from {path.text}"⟩
  put layer

/-- Puts the layer of the environment over the settings. -/
def mergeEnvironment (environment : Environment) : Editing Unit := do
  let layer ← ofExcept (environmentLayer environment)
  put layer

/-- Does work on given settings. -/
def on (work : Editing Unit) (settings : Settings) : Reporting Settings := fun log =>
  match work (settings, log) with
  | .ok _ after => .ok after.1 after.2
  | .error fault after => .error fault after.2

end Editing

/-- Settings with a settings file over them. -/
def mergeFile (disk : Disk) (settings : Settings) (path : Path) : Reporting Settings :=
  (Editing.merge disk path).on settings

/-- Loads the settings, with a file that is named explicitly. -/
def load (disk : Disk) (environment : Environment) (explicit : Option Path) :
    Reporting Settings :=
  let work : Editing Unit := do
    (files disk environment explicit).forM (Editing.merge disk)
    Editing.mergeEnvironment environment
    let (settings, _) ← get
    Editing.report ⟨.debug, .settings, s!"Effective configuration: {settings.description}"⟩
  work.on .default

end Settings

end ScriptBundler
