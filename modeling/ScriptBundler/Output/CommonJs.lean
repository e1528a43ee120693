import ScriptBundler.Output.Assembly

/-!
# CommonJS bundles

A CommonJS bundle requires the external modules first and hands on the exports of its entry module
at its end.  An external module whose default export is used gets a line that takes that export out
of the module, if there is one.
-/

namespace ScriptBundler

open ScriptBundler.Module Text

/-- The statements that require an external module. -/
def External.require (external : External) : String :=
  let name := external.name
  let first := s!"var {name} = require('{external.specifier}')"
  if !external.needsDefault then first
  else
    let binding :=
      if external.needsNamed then s!"var {external.defaultName} = " else s!"{name} = "
    first ++ "\n" ++ binding ++ s!"'default' in {name} ? {name}['default'] : {name}"

namespace Assembly

/-- What comes before the body. -/
def opening (externals : List External) : String :=
  let directive := "'use strict'\n\n"
  match externals with
  | [] => directive
  | _ => directive ++ "\n".intercalate (externals.map External.require) ++ "\n\n"

/-- The lines that hand on exports by name. -/
def namedExports (graph : Graph) (id : Nat) : Table Export → Assembly (List String)
  | [] => pure []
  | (key, entry) :: rest => do
    let canonical ← canonicalName graph id entry.localName
    let others ← namedExports graph id rest
    pure (s!"exports.{key} = {canonical}" :: others)

/-- The lines that hand on the exports of the entry module. -/
def closing (graph : Graph) (entry : Nat) (mode : ExportMode) : Assembly String :=
  match graph.module? entry with
  | none => pure ""
  | some module =>
    match mode with
    | .default => do
      if module.exports.has "default" then
        let canonical ← canonicalName graph entry "default"
        pure s!"module.exports = {canonical}"
      else pure ""
    | .named => "\n".intercalate <$> namedExports graph entry module.exports
    | .auto | .none => pure ""

/-- The body of a bundle with what makes it a CommonJS module. -/
def commonJs (graph : Graph) (entry : Nat) (mode : ExportMode) (body : Composition) :
    Assembly Composition := do
  let opened := body.prepend (opening graph.externals).toList
  let exports ← closing graph entry mode
  report ⟨.debug, .wrapper,
    s!"CommonJS wrapper: {graph.externals.length} requires, {mode.text} exports"⟩
  pure (if exports.isEmpty then opened else opened.append ("\n\n" ++ exports).toList)

end Assembly

end ScriptBundler
