import ScriptBundler.Files.Path
import ScriptBundler.Output.ExportMode
import ScriptBundler.Output.Format
import ScriptBundler.Toml.Document

/-!
# Layers of settings

A layer sets some of the settings and leaves the others as they are.  A settings file and the
environment are layers; a later layer wins over an earlier one, for each setting by itself.
-/

namespace ScriptBundler

open Files

/-- What a build is asked to do. -/
structure Settings where
  entry : Option Path
  /-- The file that the bundle is written to; without one it is printed. -/
  output : Option Path
  exports : ExportMode
  format : OutputFormat
deriving Repr, DecidableEq

/-- The settings that nothing sets. -/
def Settings.default : Settings :=
  { entry := none, output := none, exports := .auto, format := .commonJs }

namespace Settings

/-- Values for some of the settings. -/
structure Layer where
  entry : Option Path
  output : Option Path
  exports : Option ExportMode
  format : Option OutputFormat
deriving Repr, DecidableEq

/-- The layer that sets nothing. -/
def Layer.empty : Layer :=
  ⟨none, none, none, none⟩

/-- Settings with a layer over them. -/
def apply (settings : Settings) (layer : Layer) : Settings :=
  { entry := layer.entry.or settings.entry
    output := layer.output.or settings.output
    exports := layer.exports.getD settings.exports
    format := layer.format.getD settings.format }

/-- The choice with a name. -/
def choice? {α : Type} (choices : List α) (label : α → String) (name : String) : Option α :=
  choices.find? fun choice => label choice == name

/-- The choice that a value is: its name, or a table or list in which nothing stands under its
name. -/
def choiceOf? {α : Type} (choices : List α) (label : α → String) : Toml.Value → Option α
  | .text name => choice? choices label name
  | .table _ [(name, .table _ [])] | .table _ [(name, .list [])] => choice? choices label name
  | _ => none

/-- The path that a value is. -/
def pathOf? : Toml.Value → Option Path
  | .text text => some ⟨text⟩
  | _ => none

/-- A layer with one more entry of a settings file.  Other keys than the settings are refused. -/
def Layer.add (layer : Layer) (key : String) (value : Toml.Value) : Option Layer :=
  match key with
  | "entry" => (pathOf? value).map fun path => { layer with entry := some path }
  | "output" => (pathOf? value).map fun path => { layer with output := some path }
  | "exports" =>
    (choiceOf? ExportMode.all ExportMode.text value).map fun mode =>
      { layer with exports := some mode }
  | "format" =>
    (choiceOf? OutputFormat.all OutputFormat.text value).map fun format =>
      { layer with format := some format }
  | _ => none

/-- A layer with some more entries. -/
def Layer.addAll : List (String × Toml.Value) → Layer → Option Layer
  | [], layer => some layer
  | (key, value) :: rest, layer =>
    match layer.add key value with
    | some layer => Layer.addAll rest layer
    | none => none

/-- The layer that the text of a settings file is. -/
def Layer.ofText? (text : List Char) : Option Layer :=
  (Toml.readDocument text).bind fun members => Layer.addAll members .empty

end Settings

end ScriptBundler
