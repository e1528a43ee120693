import ScriptBundler.Proofs.Script.Expressions

/-!
# Progress: statements

Every statement reads something, and so does the whole grammar for any depth of nesting.
-/

namespace ScriptBundler
namespace Script
namespace Parser

open Std.Do Mark

set_option mvcgen.warning false

variable (s : State)

@[spec] theorem atInOrOf_reads :
    ⦃fun _ state => ⌜state = s⌝⦄ atInOrOf ⦃⇓? _ _ state => ⌜state = s⌝⦄ := by
  mvcgen [atInOrOf]
  grind -ring -linarith

/-- A declaration starts with its keyword. -/
@[spec] theorem declarationKind_reads :
    ⦃fun _ state => ⌜state = s⌝⦄ declarationKind
    ⦃⇓? value _ state => ⌜(value ≠ none → s.current.token.isProper = true) ∧ state = s⌝⦄ := by
  mvcgen [declarationKind] <;> grind -ring -linarith

@[spec] theorem checkLoopDeclaration_remarks (head : Stmt) :
    Remarks s (checkLoopDeclaration head) := by
  refine triple_of fun holds hholds => ?_
  mvcgen [checkLoopDeclaration] <;> grind -ring -linarith

@[spec] theorem jumpStatement_advances (isBreak : Bool)
    (hproper : s.current.token.isProper = true) : Advances s (jumpStatement isBreak) := by
  refine triple_of fun holds hholds => ?_
  mvcgen [jumpStatement, unlessAt] <;> grind -ring -linarith

variable {g : Grammar} (hg : g.Advancing)

include hg

@[spec] theorem loopBody_advances : Advances s (loopBody g) := by
  refine triple_of fun holds hholds => ?_
  mvcgen [loopBody]
  grind -ring -linarith

@[spec] theorem declarator_advances (kind : VariableKind) (inHead : Bool) :
    Advances s (declarator g kind inHead) := by
  refine triple_of fun holds hholds => ?_
  mvcgen [declarator] <;> grind -ring -linarith

@[spec] theorem moreDeclarators_leads (kind : VariableKind) (inHead : Bool) (rounds : Nat) :
    Proceeds s (moreDeclarators g kind inHead rounds) := by
  induction rounds generalizing s with
  | zero =>
      mvcgen [moreDeclarators]
      grind -ring -linarith
  | succ rounds ih =>
      refine triple_of fun holds hholds => ?_
      mvcgen [moreDeclarators, ih] <;> grind -ring -linarith

@[spec] theorem variableDeclaration_advances (kind : VariableKind) (inHead : Bool)
    (hproper : s.current.token.isProper = true) :
    Advances s (variableDeclaration g kind inHead) := by
  refine triple_of fun holds hholds => ?_
  mvcgen [variableDeclaration] <;> grind -ring -linarith

/-! ## Loops -/

@[spec] theorem forRest_advances (start : Nat) (head : Option Stmt) :
    Advances s (forRest g start head) := by
  refine triple_of fun holds hholds => ?_
  mvcgen [forRest, unlessAt] <;> grind -ring -linarith

@[spec] theorem forEachSubject_advances : Advances s (forEachSubject g) := by
  refine triple_of fun holds hholds => ?_
  mvcgen [forEachSubject] <;> grind -ring -linarith

@[spec] theorem forStatement_advances (hproper : s.current.token.isProper = true) :
    Advances s (forStatement g) := by
  refine triple_of fun holds hholds => ?_
  mvcgen [forStatement] <;> grind -ring -linarith

@[spec] theorem condition_advances : Advances s (condition g) := by
  refine triple_of fun holds hholds => ?_
  mvcgen [condition]
  grind -ring -linarith

@[spec] theorem doStatement_advances (hproper : s.current.token.isProper = true) :
    Advances s (doStatement g) := by
  refine triple_of fun holds hholds => ?_
  mvcgen [doStatement] <;> grind -ring -linarith

/-! ## Branches and jumps -/

@[spec] theorem ifStatement_advances (hproper : s.current.token.isProper = true) :
    Advances s (ifStatement g) := by
  refine triple_of fun holds hholds => ?_
  mvcgen [ifStatement, unlessAt] <;> grind -ring -linarith

@[spec] theorem switchCase_advances (hasDefault : Bool) : Advances s (switchCase g hasDefault) := by
  refine triple_of fun holds hholds => ?_
  mvcgen [switchCase] <;> grind -ring -linarith

@[spec] theorem switchCases_leads (rounds : Nat) (hasDefault : Bool) :
    Proceeds s (switchCases g rounds hasDefault) := by
  induction rounds generalizing s hasDefault with
  | zero =>
      mvcgen [switchCases]
      grind -ring -linarith
  | succ rounds ih =>
      refine triple_of fun holds hholds => ?_
      mvcgen [switchCases, ih] <;> grind -ring -linarith

@[spec] theorem switchStatement_advances (hproper : s.current.token.isProper = true) :
    Advances s (switchStatement g) := by
  refine triple_of fun holds hholds => ?_
  mvcgen [switchStatement] <;> grind -ring -linarith

@[spec] theorem catchClause_leads : Proceeds s (catchClause g) := by
  refine triple_of fun holds hholds => ?_
  mvcgen [catchClause, unlessAt] <;> grind -ring -linarith

@[spec] theorem finallyClause_leads : Proceeds s (finallyClause g) := by
  refine triple_of fun holds hholds => ?_
  mvcgen [finallyClause] <;> grind -ring -linarith

@[spec] theorem tryStatement_advances (hproper : s.current.token.isProper = true) :
    Advances s (tryStatement g) := by
  refine triple_of fun holds hholds => ?_
  mvcgen [tryStatement] <;> grind -ring -linarith

@[spec] theorem returnStatement_advances (hproper : s.current.token.isProper = true) :
    Advances s (returnStatement g) := by
  refine triple_of fun holds hholds => ?_
  mvcgen [returnStatement, unlessAt] <;> grind -ring -linarith

@[spec] theorem throwStatement_advances (hproper : s.current.token.isProper = true) :
    Advances s (throwStatement g) := by
  refine triple_of fun holds hholds => ?_
  mvcgen [throwStatement] <;> grind -ring -linarith

/-! ## Declarations and expression statements -/

@[spec] theorem functionDeclaration_advances (start : Nat) (isAsync : Bool) :
    Advances s (functionDeclaration g start isAsync) := by
  refine triple_of fun holds hholds => ?_
  mvcgen [functionDeclaration] <;> grind -ring -linarith

@[spec] theorem classRest_advances : Advances s (classRest g) := by
  refine triple_of fun holds hholds => ?_
  mvcgen [classRest, unlessAt] <;> grind -ring -linarith

@[spec] theorem classDeclaration_advances (hproper : s.current.token.isProper = true) :
    Advances s (classDeclaration g) := by
  refine triple_of fun holds hholds => ?_
  mvcgen [classDeclaration] <;> grind -ring -linarith

@[spec] theorem labelledStatement_advances (label : Ident) :
    Advances s (labelledStatement g label) := by
  refine triple_of fun holds hholds => ?_
  mvcgen [labelledStatement] <;> grind -ring -linarith

@[spec] theorem expressionStatement_advances : Advances s (expressionStatement g) := by
  refine triple_of fun holds hholds => ?_
  mvcgen [expressionStatement] <;> grind -ring -linarith

@[spec] theorem importExpressionStatement_advances : Advances s (importExpressionStatement g) := by
  refine triple_of fun holds hholds => ?_
  mvcgen [importExpressionStatement] <;> grind -ring -linarith

@[spec] theorem wordStatement_advances (declarations : Bool) (name : String)
    (hproper : s.current.token.isProper = true) :
    Advances s (wordStatement g declarations name) := by
  refine triple_of fun holds hholds => ?_
  mvcgen [wordStatement] <;> grind -ring -linarith

@[spec] theorem statement_advances (declarations : Bool) :
    Advances s (statement g declarations) := by
  refine triple_of fun holds hholds => ?_
  mvcgen [statement] <;> grind -ring -linarith

omit hg in
/-- Every part of the grammar reads something, at any depth of nesting. -/
theorem grammarOfDepth_advancing (depth : Nat) : (grammarOfDepth depth).Advancing := by
  induction depth with
  | zero =>
      -- a grammar of depth zero refuses everything
      have hrefused : ∀ {α : Type} (s : State), Advances s (unexpected : Parser α) := by
        intro α s
        mvcgen
        grind -ring -linarith
      exact ⟨hrefused, hrefused, fun _ => hrefused, hrefused⟩
  | succ depth ih =>
      exact ⟨fun s => assignment_advances s ih, fun s => unary_advances s ih,
        fun declarations s => statement_advances s ih declarations,
        fun s => bindingTarget_advances s ih⟩

end Parser
end Script
end ScriptBundler
