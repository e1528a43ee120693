/-!
# Export modes

How a bundle hands on the exports of its entry module.  The mode `auto` chooses by the exports;
every other mode is used as it is, if it fits them.
-/

namespace ScriptBundler

/-- How the exports of the entry module are handed on. -/
inductive ExportMode where
  | auto
  /-- The default export is the whole module. -/
  | default
  /-- Every export is a property. -/
  | named
  /-- Nothing is exported. -/
  | none
deriving Repr, DecidableEq

/-- A mode that does not fit the exports. -/
structure RefusedMode where
  mode : ExportMode
  exports : List String
deriving Repr, DecidableEq

namespace ExportMode

/-- The mode as it is written by users. -/
def text : ExportMode → String
  | auto => "auto"
  | default => "default"
  | named => "named"
  | none => "none"

/-- All modes. -/
def all : List ExportMode :=
  [auto, default, named, none]

/-- The mode that a text is. -/
def ofText? (text : String) : Option ExportMode :=
  all.find? fun mode => mode.text == text

/-- The mode that suits some exports best. -/
def suited (exports : List String) : ExportMode :=
  match exports with
  | [] => none
  | ["default"] => default
  | _ => named

/-- Whether a mode fits some exports. -/
def fits (mode : ExportMode) (exports : List String) : Bool :=
  match mode with
  | auto | named => true
  | default | none => suited exports == mode

/-- The mode that is used for some exports. -/
def resolve (mode : ExportMode) (exports : List String) : Except RefusedMode ExportMode :=
  if !mode.fits exports then .error ⟨mode, exports⟩
  else if mode == auto then .ok (suited exports)
  else .ok mode

end ExportMode

/-- The refusal in words. -/
def RefusedMode.message (refused : RefusedMode) : String :=
  let mode := refused.mode.text
  let exports := ", ".intercalate refused.exports
  s!"'{mode}' was specified for the exports option, but the entry module has the following " ++
    s!"exports: {exports}"

end ScriptBundler
