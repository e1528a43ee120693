import ScriptBundler.Proofs.Script.Patterns

/-!
# Progress: expressions

Every level of expressions reads something, with the parts that follow it or without.
-/

namespace ScriptBundler
namespace Script
namespace Parser

open Std.Do Mark

set_option mvcgen.warning false

variable (s : State)

@[spec] theorem atom_advances (hproper : s.current.token.isProper = true) : Advances s atom := by
  refine triple_of fun holds hholds => ?_
  mvcgen [atom] <;> grind -ring -linarith

@[spec] theorem regularExpression_advances (hslash : s.current.token = .punctuator "/" ∨
      s.current.token = .punctuator "/=") : Advances s regularExpression := by
  refine triple_of fun holds hholds => ?_
  mvcgen [regularExpression, -Spec.throw_ReaderT, -Spec.throw_MonadExcept] <;> grind -ring -linarith

@[spec] theorem atFieldEnd_reads :
    ⦃fun _ state => ⌜state = s⌝⦄ atFieldEnd ⦃⇓? _ _ state => ⌜state = s⌝⦄ := by
  mvcgen [atFieldEnd]
  grind -ring -linarith

@[spec] theorem refuseSuspension_reads (start : Nat) :
    ⦃fun _ state => ⌜state = s⌝⦄ refuseSuspension start ⦃⇓? _ _ state => ⌜state = s⌝⦄ := by
  mvcgen [refuseSuspension]
  grind -ring -linarith

@[spec] theorem binaryOperator_reads :
    ⦃fun _ state => ⌜state = s⌝⦄ binaryOperator
    ⦃⇓? value _ state => ⌜(value ≠ none → s.current.token.isProper = true) ∧ state = s⌝⦄ := by
  mvcgen [binaryOperator]
  grind -ring -linarith

@[spec] theorem checkOperand_remarks (operator : String) (left : Bool) (operand : Expr) :
    Remarks s (checkOperand operator left operand) := by
  refine triple_of fun holds hholds => ?_
  mvcgen [checkOperand] <;> grind -ring -linarith

@[spec] theorem superReference_advances (hproper : s.current.token.isProper = true) :
    Advances s superReference := by
  refine triple_of fun holds hholds => ?_
  mvcgen [superReference] <;> grind -ring -linarith

@[spec] theorem importReference_advances (calls : Bool)
    (hproper : s.current.token.isProper = true) : Advances s (importReference calls) := by
  refine triple_of fun holds hholds => ?_
  mvcgen [importReference] <;> grind -ring -linarith

variable {g : Grammar} (hg : g.Advancing)

include hg

@[spec] theorem item_advances : Advances s (item g) := by
  refine triple_of fun holds hholds => ?_
  mvcgen [item] <;> grind -ring -linarith

@[spec] theorem arguments_advances : Advances s (arguments g) := by
  refine triple_of fun holds hholds => ?_
  mvcgen [arguments] <;> grind -ring -linarith

@[spec] theorem arrayLiteral_advances (hproper : s.current.token.isProper = true) :
    Advances s (arrayLiteral g) := by
  refine triple_of fun holds hholds => ?_
  mvcgen [arrayLiteral] <;> grind -ring -linarith

@[spec] theorem method_advances (start : Nat) (key : KeyText) (isAsync isGenerator : Bool)
    (accessor : Accessor) : Advances s (method g start key isAsync isGenerator accessor) := by
  refine triple_of fun holds hholds => ?_
  mvcgen [method]
  grind -ring -linarith

@[spec] theorem objectMember_advances : Advances s (objectMember g) := by
  refine triple_of fun holds hholds => ?_
  mvcgen [objectMember] <;> grind -ring -linarith

@[spec] theorem objectLiteral_advances (hproper : s.current.token.isProper = true) :
    Advances s (objectLiteral g) := by
  refine triple_of fun holds hholds => ?_
  mvcgen [objectLiteral] <;> grind -ring -linarith

@[spec] theorem templateParts_advances (opening : Nat) (tagged : Bool) (rounds : Nat)
    (hquote : s.current.token = .punctuator "\x60" ∨ s.current.token = .punctuator "\x7d") :
    Advances s (templateParts g opening tagged rounds ⟨s.current.rest, s.current.span.stop⟩) := by
  induction rounds generalizing s with
  | zero =>
      mvcgen [templateParts]
      grind -ring -linarith
  | succ rounds ih =>
      refine triple_of fun holds hholds => ?_
      mvcgen [templateParts, ih, -Spec.throw_ReaderT, -Spec.throw_MonadExcept] <;>
        grind -ring -linarith

@[spec] theorem template_advances (tagged : Bool)
    (hquote : s.current.token = .punctuator "\x60" ∨ s.current.token = .punctuator "\x7d") :
    Advances s (template g tagged) := by
  refine triple_of fun holds hholds => ?_
  mvcgen [template] <;> grind -ring -linarith

@[spec] theorem fieldRest_leads (key : KeyText) : Proceeds s (fieldRest g key) := by
  refine triple_of fun holds hholds => ?_
  mvcgen [fieldRest, apart] <;> grind -ring -linarith

@[spec] theorem staticBlock_advances : Advances s (staticBlock g) := by
  refine triple_of fun holds hholds => ?_
  mvcgen [staticBlock, apart]
  grind -ring -linarith

@[spec] theorem classMemberRest_advances (start : Nat) (isStatic : Bool) :
    Advances s (classMemberRest g start isStatic) := by
  refine triple_of fun holds hholds => ?_
  mvcgen [classMemberRest] <;> grind -ring -linarith

@[spec] theorem classMember_advances : Advances s (classMember g) := by
  refine triple_of fun holds hholds => ?_
  mvcgen [classMember] <;> grind -ring -linarith

@[spec] theorem classBody_advances : Advances s (classBody g) := by
  refine triple_of fun holds hholds => ?_
  mvcgen [classBody] <;> grind -ring -linarith

@[spec] theorem parenthesised_advances (start : Nat) (mayBeArrow : Bool)
    (asyncName : Option Ident) : Advances s (parenthesised g start mayBeArrow asyncName) := by
  refine triple_of fun holds hholds => ?_
  mvcgen [parenthesised, withIn] <;> grind -ring -linarith

@[spec] theorem identifierOrArrow_advances (start : Nat) (mayBeArrow : Bool) :
    Advances s (identifierOrArrow g start mayBeArrow) := by
  refine triple_of fun holds hholds => ?_
  mvcgen [identifierOrArrow] <;> grind -ring -linarith

@[spec] theorem asyncOrIdentifier_advances (start : Nat) (mayBeArrow : Bool)
    (hproper : s.current.token.isProper = true) :
    Advances s (asyncOrIdentifier g start mayBeArrow) := by
  refine triple_of fun holds hholds => ?_
  mvcgen [asyncOrIdentifier] <;> grind -ring -linarith

@[spec] theorem subscripts_leads (start : Nat) (calls : Bool) (rounds : Nat) (chain : Bool)
    (base : Expr) : Proceeds s (subscripts g start calls rounds chain base) := by
  induction rounds generalizing s chain base with
  | zero =>
      mvcgen [subscripts]
      grind -ring -linarith
  | succ rounds ih =>
      refine triple_of fun holds hholds => ?_
      mvcgen [subscripts, ih] <;> grind -ring -linarith

@[spec] theorem withSubscripts_leads (start : Nat) (calls : Bool) (base : Expr) :
    Proceeds s (withSubscripts g start calls base) := by
  refine triple_of fun holds hholds => ?_
  mvcgen [withSubscripts]
  grind -ring -linarith

@[spec] theorem classExpression_advances {lhs : Parser Expr} (hlhs : ∀ s, Advances s lhs) :
    Advances s (classExpression g lhs) := by
  refine triple_of fun holds hholds => ?_
  mvcgen [classExpression, hlhs] <;> grind -ring -linarith

@[spec] theorem primary_advances {lhs : Parser Expr} (hlhs : ∀ s, Advances s lhs) :
    Advances s (primary g lhs) := by
  refine triple_of fun holds hholds => ?_
  mvcgen [primary, hlhs] <;> grind -ring -linarith

@[spec] theorem newExpression_advances {lhs : Parser Expr} (hlhs : ∀ s, Advances s lhs)
    (rounds : Nat) (hproper : s.current.token.isProper = true) :
    Advances s (newExpression g lhs rounds) := by
  induction rounds generalizing s with
  | zero =>
      mvcgen [newExpression]
      grind -ring -linarith
  | succ rounds ih =>
      refine triple_of fun holds hholds => ?_
      mvcgen [newExpression, hlhs, ih] <;> grind -ring -linarith

@[spec] theorem leftHandSide_advances (depth : Nat) : Advances s (leftHandSide g depth) := by
  induction depth generalizing s with
  | zero =>
      mvcgen [leftHandSide]
      grind -ring -linarith
  | succ depth ih =>
      refine triple_of fun holds hholds => ?_
      mvcgen [leftHandSide, ih] <;> grind -ring -linarith

@[spec] theorem unary_advances : Advances s (unary g) := by
  refine triple_of fun holds hholds => ?_
  mvcgen [unary] <;> grind -ring -linarith

@[spec] theorem binaryRest_leads (start rounds level : Nat) (left : Expr) :
    Proceeds s (binaryRest g start rounds level left) := by
  induction rounds generalizing s start level left with
  | zero =>
      mvcgen [binaryRest]
      grind -ring -linarith
  | succ rounds ih =>
      refine triple_of fun holds hholds => ?_
      mvcgen [binaryRest, ih] <;> grind -ring -linarith

@[spec] theorem binary_advances : Advances s (binary g) := by
  refine triple_of fun holds hholds => ?_
  mvcgen [binary] <;> grind -ring -linarith

@[spec] theorem conditional_advances : Advances s (conditional g) := by
  refine triple_of fun holds hholds => ?_
  mvcgen [conditional] <;> grind -ring -linarith

@[spec] theorem yieldExpression_advances (hproper : s.current.token.isProper = true) :
    Advances s (yieldExpression g) := by
  refine triple_of fun holds hholds => ?_
  mvcgen [yieldExpression] <;> grind -ring -linarith

@[spec] theorem assignment_advances : Advances s (assignment g) := by
  refine triple_of fun holds hholds => ?_
  mvcgen [assignment] <;> grind -ring -linarith

end Parser
end Script
end ScriptBundler
