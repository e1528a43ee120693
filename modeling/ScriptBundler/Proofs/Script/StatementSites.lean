import ScriptBundler.Proofs.Script.ExpressionSites

/-!
# Places: statements

Every statement lies in what is read of it, and so does what the whole grammar gives, for any depth
of nesting.
-/

namespace ScriptBundler
namespace Script
namespace Parser

open Std.Do Mark Text
open Outline (sitesOf)

set_option mvcgen.warning false

attribute [grind =] Stmt.span

variable (s : State) {g : Grammar} (hg : g.Arranging)

include hg

@[spec high] theorem loopBody_arranges :
    Arranges s (loopBody g) fun body => sitesOf body.outline := by
  refine triple_of fun holds hholds => ?_
  mvcgen [loopBody, -loopBody_advances]
  grind -ring -linarith

/-! ## Variables -/

@[spec high] theorem declarator_arranges (kind : VariableKind) (inHead : Bool) :
    Arranges s (declarator g kind inHead) fun target => sitesOf target.outline := by
  refine triple_of fun holds hholds => ?_
  mvcgen [declarator, -declarator_advances] <;> grind -ring -linarith

@[spec high] theorem moreDeclarators_follows (kind : VariableKind) (inHead : Bool) (rounds : Nat) :
    Follows s (moreDeclarators g kind inHead rounds) fun targets =>
      sitesOf (Pattern.outlines targets) := by
  induction rounds generalizing s with
  | zero =>
      mvcgen [moreDeclarators, -moreDeclarators_leads]
      grind -ring -linarith
  | succ rounds ih =>
      refine triple_of fun holds hholds => ?_
      mvcgen [moreDeclarators, ih, -moreDeclarators_leads] <;> grind -ring -linarith

/-- Whether a step of the parser gives a statement that starts where the step does, and the names
and scopes of the statement lie in what it has read. -/
abbrev Declares (s : State) (start : Nat) (step : Parser Stmt) : Prop :=
  ⦃fun _ state => ⌜state = s⌝⦄ step
  ⦃⇓? body _ state => ⌜Moves s.mark state.mark ∧ body.span.start = start ∧
    ∀ source, s.mark.Right source → start ≤ s.current.span.start →
      Arranged source start state.previous.stop (sitesOf body.outline)⌝⦄

@[spec high] theorem variableDeclaration_arranges (kind : VariableKind) (inHead : Bool)
    (hproper : s.current.token.isProper = true) :
    Declares s s.current.span.start (variableDeclaration g kind inHead) := by
  refine triple_of fun holds hholds => ?_
  mvcgen [variableDeclaration, -variableDeclaration_advances] <;> grind -ring -linarith

/-! ## Loops -/

/-- A `for` is read on from the first part of its head. -/
@[spec high] theorem forRest_arranges (start : Nat) (head : Option Stmt) :
    ⦃fun _ state => ⌜state = s⌝⦄ forRest g start head
    ⦃⇓? body _ state => ⌜Moves s.mark state.mark ∧ ∀ source first, s.mark.Right source →
      first ≤ s.current.span.start →
      Arranged source first s.previous.stop (sitesOf (Stmt.optionOutline head)) →
      Arranged source first state.previous.stop (sitesOf body.outline)⌝⦄ := by
  refine triple_of fun holds hholds => ?_
  mvcgen [forRest, unlessAt, -forRest_advances] <;> grind -ring -linarith

@[spec high] theorem forEachSubject_arranges :
    Arranges s (forEachSubject g) fun value => sitesOf value.outline := by
  refine triple_of fun holds hholds => ?_
  mvcgen [forEachSubject, -forEachSubject_advances] <;> grind -ring -linarith

@[spec high] theorem forStatement_arranges (hproper : s.current.token.isProper = true) :
    Arranges s (forStatement g) fun body => sitesOf body.outline := by
  refine triple_of fun holds hholds => ?_
  mvcgen [forStatement, eatWord_leads, -forStatement_advances, -eatWord_moves]
  all_goals first
    | grind -ring -linarith
    | exact hholds _ _ (by grind -ring -linarith) fun source hright => by
        simp only [Stmt.outline, Outline.sitesOf_append]
        grind -ring -linarith

@[spec high] theorem condition_arranges :
    Arranges s (condition g) fun value => sitesOf value.outline := by
  refine triple_of fun holds hholds => ?_
  mvcgen [condition, -condition_advances]
  grind -ring -linarith

@[spec high] theorem doStatement_arranges (hproper : s.current.token.isProper = true) :
    Arranges s (doStatement g) fun body => sitesOf body.outline := by
  refine triple_of fun holds hholds => ?_
  mvcgen [doStatement, -doStatement_advances] <;> grind -ring -linarith

/-! ## Branches and jumps -/

@[spec high] theorem ifStatement_arranges (hproper : s.current.token.isProper = true) :
    Arranges s (ifStatement g) fun body => sitesOf body.outline := by
  refine triple_of fun holds hholds => ?_
  mvcgen [ifStatement, unlessAt, -ifStatement_advances] <;> grind -ring -linarith

@[spec high] theorem switchCase_arranges (hasDefault : Bool) :
    Arranges s (switchCase g hasDefault) fun result => sitesOf result.1.outline := by
  have hlist := fun s stop step =>
    repeatUntil_follows s stop step fun body : Stmt => sitesOf body.outline
  refine triple_of fun holds hholds => ?_
  mvcgen [switchCase, hlist, -switchCase_advances, -repeatUntil_leads] <;> grind -ring -linarith

@[spec high] theorem switchCases_follows (rounds : Nat) (hasDefault : Bool) :
    Follows s (switchCases g rounds hasDefault) fun cases => sitesOf (Stmt.outlines cases) := by
  induction rounds generalizing s hasDefault with
  | zero =>
      mvcgen [switchCases, -switchCases_leads]
      grind -ring -linarith
  | succ rounds ih =>
      refine triple_of fun holds hholds => ?_
      mvcgen [switchCases, ih, -switchCases_leads] <;> grind -ring -linarith

@[spec high] theorem switchStatement_arranges (hproper : s.current.token.isProper = true) :
    Arranges s (switchStatement g) fun body => sitesOf body.outline := by
  refine triple_of fun holds hholds => ?_
  mvcgen [switchStatement, -switchStatement_advances] <;> grind -ring -linarith

@[spec high] theorem catchClause_follows :
    Follows s (catchClause g) fun clauses => sitesOf (Stmt.outlines clauses) := by
  refine triple_of fun holds hholds => ?_
  mvcgen [catchClause, unlessAt, -catchClause_leads] <;> grind -ring -linarith

@[spec high] theorem finallyClause_follows :
    Follows s (finallyClause g) fun clauses => sitesOf (Stmt.outlines clauses) := by
  refine triple_of fun holds hholds => ?_
  mvcgen [finallyClause, -finallyClause_leads] <;> grind -ring -linarith

@[spec high] theorem tryStatement_arranges (hproper : s.current.token.isProper = true) :
    Arranges s (tryStatement g) fun body => sitesOf body.outline := by
  refine triple_of fun holds hholds => ?_
  mvcgen [tryStatement, -tryStatement_advances] <;> grind -ring -linarith

omit hg in
@[spec high] theorem jumpStatement_arranges (isBreak : Bool)
    (hproper : s.current.token.isProper = true) :
    Arranges s (jumpStatement isBreak) fun body => sitesOf body.outline := by
  refine triple_of fun holds hholds => ?_
  mvcgen [jumpStatement, unlessAt, -jumpStatement_advances] <;> grind -ring -linarith

@[spec high] theorem returnStatement_arranges (hproper : s.current.token.isProper = true) :
    Arranges s (returnStatement g) fun body => sitesOf body.outline := by
  refine triple_of fun holds hholds => ?_
  mvcgen [returnStatement, unlessAt, -returnStatement_advances] <;> grind -ring -linarith

@[spec high] theorem throwStatement_arranges (hproper : s.current.token.isProper = true) :
    Arranges s (throwStatement g) fun body => sitesOf body.outline := by
  refine triple_of fun holds hholds => ?_
  mvcgen [throwStatement, -throwStatement_advances] <;> grind -ring -linarith

/-! ## Declarations and expression statements -/

@[spec high] theorem functionDeclaration_arranges (start : Nat) (isAsync : Bool) :
    Declares s start (functionDeclaration g start isAsync) := by
  have hhead := fun s start isAsync =>
    functionHead_arranges s hg start isAsync bindingIdentifier _ fun s =>
      follows_of_arranges s (bindingIdentifier_arranges s)
  refine triple_of fun holds hholds => ?_
  mvcgen [functionDeclaration, hhead, -functionDeclaration_advances, -functionHead_advances]
  grind -ring -linarith

@[spec high] theorem classRest_arranges :
    Arranges s (classRest g) fun result =>
      sitesOf (Member.outlines result.2) ++ sitesOf (Expr.optionOutline result.1) := by
  refine triple_of fun holds hholds => ?_
  mvcgen [classRest, unlessAt, -classRest_advances] <;> grind -ring -linarith

@[spec high] theorem classDeclaration_arranges (hproper : s.current.token.isProper = true) :
    Declares s s.current.span.start (classDeclaration g) := by
  refine triple_of fun holds hholds => ?_
  mvcgen [classDeclaration, -classDeclaration_advances] <;> grind -ring -linarith

@[spec high] theorem labelledStatement_arranges (label : Ident) :
    Arranges s (labelledStatement g label) fun body => sitesOf body.outline := by
  refine triple_of fun holds hholds => ?_
  mvcgen [labelledStatement, -labelledStatement_advances] <;> grind -ring -linarith

@[spec high] theorem expressionStatement_arranges :
    Arranges s (expressionStatement g) fun body => sitesOf body.outline := by
  refine triple_of fun holds hholds => ?_
  mvcgen [expressionStatement, -expressionStatement_advances] <;> grind -ring -linarith

@[spec high] theorem importExpressionStatement_arranges :
    Arranges s (importExpressionStatement g) fun body => sitesOf body.outline := by
  refine triple_of fun holds hholds => ?_
  mvcgen [importExpressionStatement, -importExpressionStatement_advances] <;> grind -ring -linarith

@[spec high] theorem wordStatement_arranges (declarations : Bool) (name : String)
    (hproper : s.current.token.isProper = true) :
    Arranges s (wordStatement g declarations name) fun body => sitesOf body.outline := by
  refine triple_of fun holds hholds => ?_
  mvcgen [wordStatement, -wordStatement_advances] <;> grind -ring -linarith

theorem statement_arranges (declarations : Bool) :
    Arranges s (statement g declarations) fun body => sitesOf body.outline := by
  refine triple_of fun holds hholds => ?_
  mvcgen [statement, -statement_advances] <;> grind -ring -linarith

omit hg in
/-- What the grammar gives lies in what it reads, for any depth of nesting. -/
theorem grammarOfDepth_arranging (depth : Nat) : (grammarOfDepth depth).Arranging := by
  induction depth with
  | zero =>
      constructor <;> intros <;> unfold grammarOfDepth <;> mvcgen <;> grind -ring -linarith
  | succ depth ih =>
      exact ⟨fun s => assignment_begins s ih, fun s => unary_begins s ih,
        fun declarations s => statement_arranges s ih declarations,
        fun s => bindingTarget_arranges s ih⟩

end Parser
end Script
end ScriptBundler
