import ScriptBundler.Proofs.Script.Statements

/-!
# Progress: modules
-/

namespace ScriptBundler
namespace Script
namespace Parser

open Std.Do Mark

set_option mvcgen.warning false

variable (s : State)

/-- An async function starts with a word. -/
@[spec] theorem atAsyncFunction_reads :
    ⦃fun _ state => ⌜state = s⌝⦄ atAsyncFunction
    ⦃⇓? value _ state => ⌜(value = true → s.current.token.isProper = true) ∧ state = s⌝⦄ := by
  mvcgen [atAsyncFunction] <;> grind -ring -linarith

@[spec] theorem sourceText_advances : Advances s sourceText := by
  refine triple_of fun holds hholds => ?_
  mvcgen [sourceText] <;> grind -ring -linarith

@[spec] theorem moduleName_advances : Advances s moduleName := by
  refine triple_of fun holds hholds => ?_
  mvcgen [moduleName] <;> grind -ring -linarith

@[spec] theorem importName_advances : Advances s importName := by
  refine triple_of fun holds hholds => ?_
  mvcgen [importName] <;> grind -ring -linarith

@[spec] theorem importNames_leads : Proceeds s importNames := by
  refine triple_of fun holds hholds => ?_
  mvcgen [importNames] <;> grind -ring -linarith

@[spec] theorem importDeclaration_advances (hproper : s.current.token.isProper = true) :
    Advances s importDeclaration := by
  refine triple_of fun holds hholds => ?_
  mvcgen [importDeclaration] <;> grind -ring -linarith

@[spec] theorem exportName_advances : Advances s exportName := by
  refine triple_of fun holds hholds => ?_
  mvcgen [exportName] <;> grind -ring -linarith

@[spec] theorem checkOwnExport_remarks (start : Nat) (specifier : ExportSpecifier) :
    Remarks s (checkOwnExport start specifier) := by
  refine triple_of fun holds hholds => ?_
  mvcgen [checkOwnExport] <;> grind -ring -linarith

@[spec] theorem exportList_advances : Advances s exportList := by
  refine triple_of fun holds hholds => ?_
  mvcgen [exportList] <;> grind -ring -linarith

@[spec] theorem exportEverything_advances : Advances s exportEverything := by
  refine triple_of fun holds hholds => ?_
  mvcgen [exportEverything] <;> grind -ring -linarith

variable {g : Grammar} (hg : g.Advancing)

include hg

@[spec] theorem exportDefault_advances : Advances s (exportDefault g) := by
  refine triple_of fun holds hholds => ?_
  mvcgen [exportDefault] <;> grind -ring -linarith

@[spec] theorem exportDeclaration_advances (hproper : s.current.token.isProper = true) :
    Advances s (exportDeclaration g) := by
  refine triple_of fun holds hholds => ?_
  mvcgen [exportDeclaration] <;> grind -ring -linarith

/-- A top-level statement reads something, and its extent is what it has read. -/
@[spec] theorem moduleItem_advances :
    ⦃fun _ state => ⌜state = s⌝⦄ moduleItem g
    ⦃⇓? item _ state => ⌜Moves s.mark state.mark ∧
      item.span = ⟨s.current.span.start, state.previous.stop⟩⌝⦄ := by
  mvcgen [moduleItem] <;> grind -ring -linarith

end Parser
end Script
end ScriptBundler
