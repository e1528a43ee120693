import ScriptBundler.Proofs.Script.Progress

/-!
# Progress: patterns, functions and blocks

Each part of the grammar reads something, given that the parts that it calls in turn do.
-/

namespace ScriptBundler
namespace Script
namespace Parser

open Std.Do Mark

set_option mvcgen.warning false

/-- Whether each part that a grammar is tied together from reads something. -/
structure Grammar.Advancing (g : Grammar) : Prop where
  assignment : ∀ s, Advances s g.assignment
  unary : ∀ s, Advances s g.unary
  statement : ∀ declarations s, Advances s (g.statement declarations)
  bindingTarget : ∀ s, Advances s g.bindingTarget

variable (s : State)

/-! ## Names and patterns -/

@[spec] theorem identifier_advances : Advances s identifier := by
  mvcgen [identifier] <;> grind -ring -linarith

@[spec] theorem bindingIdentifier_advances : Advances s bindingIdentifier := by
  refine triple_of fun holds hholds => ?_
  mvcgen [bindingIdentifier] <;> grind -ring -linarith

@[spec] theorem identifierName_advances : Advances s identifierName := by
  mvcgen [identifierName] <;> grind -ring -linarith

@[spec] theorem privateName_advances : Advances s privateName := by
  mvcgen [privateName] <;> grind -ring -linarith

@[spec] theorem check_reads {α : Type} (result : Except Nat α) :
    ⦃fun _ state => ⌜state = s⌝⦄ check result
    ⦃⇓? value _ state => ⌜result = .ok value ∧ state = s⌝⦄ := by
  mvcgen [check]
  grind -ring -linarith

@[spec] theorem asPattern_remarks (role : Role) (value : Expr) :
    Remarks s (asPattern role value) := by
  mvcgen [asPattern]
  grind -ring -linarith

@[spec] theorem asParameters_remarks (items : List Expr) (comma : Option Nat) :
    Remarks s (asParameters items comma) := by
  mvcgen [asParameters]
  grind -ring -linarith

@[spec] theorem checkSimpleTarget_remarks (value : Expr) :
    Remarks s (checkSimpleTarget value) := by
  refine triple_of fun holds hholds => ?_
  mvcgen [checkSimpleTarget] <;> grind -ring -linarith

@[spec] theorem optionalName_leads : Proceeds s optionalName := by
  mvcgen [optionalName] <;> grind -ring -linarith

/-! ## Parts of a grammar -/

variable {g : Grammar} (hg : g.Advancing)

include hg

@[spec] theorem Grammar.assignment_advances : Advances s g.assignment :=
  hg.assignment s

@[spec] theorem Grammar.unary_advances : Advances s g.unary :=
  hg.unary s

@[spec] theorem Grammar.statement_advances (declarations : Bool) :
    Advances s (g.statement declarations) :=
  hg.statement declarations s

@[spec] theorem Grammar.bindingTarget_advances : Advances s g.bindingTarget :=
  hg.bindingTarget s

@[spec] theorem Grammar.value_advances : Advances s g.value := by
  refine triple_of fun holds hholds => ?_
  mvcgen [Grammar.value, withIn]
  grind -ring -linarith

@[spec] theorem Grammar.expression_advances : Advances s g.expression := by
  refine triple_of fun holds hholds => ?_
  mvcgen [Grammar.expression] <;> grind -ring -linarith

@[spec] theorem Grammar.fullExpression_advances : Advances s g.fullExpression := by
  refine triple_of fun holds hholds => ?_
  mvcgen [Grammar.fullExpression, withIn]
  grind -ring -linarith

@[spec] theorem propertyKey_advances (inClass : Bool) : Advances s (propertyKey g inClass) := by
  refine triple_of fun holds hholds => ?_
  mvcgen [propertyKey] <;> grind -ring -linarith

@[spec] theorem bindingElement_advances : Advances s (bindingElement g) := by
  refine triple_of fun holds hholds => ?_
  mvcgen [bindingElement] <;> grind -ring -linarith

omit hg in
@[spec] theorem checkRests_remarks (elements : List Pattern) : Remarks s (checkRests elements) := by
  refine triple_of fun holds hholds => ?_
  mvcgen [checkRests] <;> grind -ring -linarith

@[spec] theorem arrayPatternElement_advances : Advances s (arrayPatternElement g) := by
  refine triple_of fun holds hholds => ?_
  mvcgen [arrayPatternElement] <;> grind -ring -linarith

@[spec] theorem objectPatternMember_advances : Advances s (objectPatternMember g) := by
  refine triple_of fun holds hholds => ?_
  mvcgen [objectPatternMember] <;> grind -ring -linarith

@[spec] theorem bindingTarget_advances : Advances s (bindingTarget g) := by
  refine triple_of fun holds hholds => ?_
  mvcgen [bindingTarget] <;> grind -ring -linarith

/-! ## Blocks and functions -/

@[spec] theorem functionStatements_leads (simple : Bool) (rounds : Nat) (directives : Bool) :
    Proceeds s (functionStatements g simple rounds directives) := by
  induction rounds generalizing s directives with
  | zero =>
      mvcgen [functionStatements]
      grind -ring -linarith
  | succ rounds ih =>
      refine triple_of fun holds hholds => ?_
      mvcgen [functionStatements, ih] <;> grind -ring -linarith

@[spec] theorem block_advances : Advances s (block g) := by
  refine triple_of fun holds hholds => ?_
  mvcgen [block, withIn] <;> grind -ring -linarith

@[spec] theorem functionBlock_advances (simple : Bool) : Advances s (functionBlock g simple) := by
  refine triple_of fun holds hholds => ?_
  mvcgen [functionBlock, withIn]
  grind -ring -linarith

@[spec] theorem formalParameter_advances : Advances s (formalParameter g) := by
  refine triple_of fun holds hholds => ?_
  mvcgen [formalParameter] <;> grind -ring -linarith

omit hg in
@[spec] theorem checkAccessor_remarks (accessor : Accessor) (params : List Pattern) :
    Remarks s (checkAccessor accessor params) := by
  refine triple_of fun holds hholds => ?_
  mvcgen [checkAccessor] <;> grind -ring -linarith

@[spec] theorem functionRest_advances (start : Nat) (isAsync isGenerator isMethod : Bool)
    (accessor : Accessor) :
    Advances s (functionRest g start isAsync isGenerator isMethod accessor) := by
  refine triple_of fun holds hholds => ?_
  mvcgen [functionRest, apart] <;> grind -ring -linarith

@[spec] theorem arrowRest_advances (start : Nat) (isAsync : Bool) (params : List Pattern) :
    Advances s (arrowRest g start isAsync params) := by
  refine triple_of fun holds hholds => ?_
  mvcgen [arrowRest, apart] <;> grind -ring -linarith

@[spec] theorem functionHead_advances {α : Type} (start : Nat) (isAsync : Bool) {name : Parser α}
    (hname : ∀ s, Proceeds s name) : Advances s (functionHead g start isAsync name) := by
  refine triple_of fun holds hholds => ?_
  mvcgen [functionHead, hname]
  grind -ring -linarith

end Parser
end Script
end ScriptBundler
