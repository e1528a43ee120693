import ScriptBundler.Proofs.Script.PatternSites

/-!
# Places: expressions

An expression lies in what is read of it, and starts where its first token does.  What reads on
after a part of an expression is told where that part starts, and that it is arranged.
-/

namespace ScriptBundler
namespace Script
namespace Parser

open Std.Do Mark Text
open Outline (sitesOf)

set_option mvcgen.warning false

attribute [grind =] Expr.span

variable (s : State)

/-- Whether a step of the parser gives an expression without names and scopes. -/
abbrev BeginsBare (s : State) (step : Parser Expr) : Prop :=
  ⦃fun _ state => ⌜state = s⌝⦄ step
  ⦃⇓? value _ state => ⌜Moves s.mark state.mark ∧ value.span.start = s.current.span.start ∧
    value.outline = []⌝⦄

@[spec high] theorem atom_begins (hproper : s.current.token.isProper = true) :
    BeginsBare s atom := by
  refine triple_of fun holds hholds => ?_
  mvcgen [atom, -atom_advances] <;> grind -ring -linarith

@[spec high] theorem regularExpression_begins (hslash : s.current.token = .punctuator "/" ∨
      s.current.token = .punctuator "/=") : BeginsBare s regularExpression := by
  refine triple_of fun holds hholds => ?_
  mvcgen [regularExpression, -Spec.throw_ReaderT, -Spec.throw_MonadExcept,
    -regularExpression_advances] <;> grind -ring -linarith

@[spec high] theorem superReference_begins (hproper : s.current.token.isProper = true) :
    BeginsBare s superReference := by
  refine triple_of fun holds hholds => ?_
  mvcgen [superReference, -superReference_advances] <;> grind -ring -linarith

@[spec high] theorem importReference_begins (calls : Bool)
    (hproper : s.current.token.isProper = true) : BeginsBare s (importReference calls) := by
  refine triple_of fun holds hholds => ?_
  mvcgen [importReference, -importReference_advances] <;> grind -ring -linarith

@[spec high] theorem asPattern_keeps (role : Role) (value : Expr) :
    ⦃fun _ state => ⌜state = s⌝⦄ asPattern role value
    ⦃⇓? target _ state => ⌜Notes s.mark state.mark ∧
      sitesOf target.outline = sitesOf value.outline⌝⦄ := by
  mvcgen [asPattern, -asPattern_remarks]
  grind -ring -linarith [sitesOf_reinterpret]

@[spec high] theorem asParameters_keeps (items : List Expr) (comma : Option Nat) :
    ⦃fun _ state => ⌜state = s⌝⦄ asParameters items comma
    ⦃⇓? params _ state => ⌜Notes s.mark state.mark ∧
      sitesOf (Pattern.outlines params) = sitesOf (Expr.outlines items)⌝⦄ := by
  mvcgen [asParameters, -asParameters_remarks]
  grind -ring -linarith [sitesOf_reinterpretElements]

/-- The members of a class, of which empty ones are left out. -/
theorem sitesOf_members (members : List (Option (Member × Bool × Nat))) :
    sitesOf (Member.outlines ((members.filterMap id).map (·.1))) =
      members.flatMap fun member => member.toList.flatMap fun found => sitesOf found.1.outline := by
  induction members with
  | nil => rfl
  | cons first rest ih =>
      cases first with
      | none => exact ih
      | some first =>
          obtain ⟨member, rest'⟩ := first
          simpa [Member.outlines, Outline.sitesOf_append] using ih

variable {g : Grammar} (hg : g.Arranging)

include hg

@[spec high] theorem item_arranges :
    Arranges s (item g) fun value => sitesOf value.outline := by
  refine triple_of fun holds hholds => ?_
  mvcgen [item, -item_advances] <;> grind -ring -linarith

@[spec high] theorem arguments_arranges :
    Arranges s (arguments g) fun values => sitesOf (Expr.outlines values) := by
  have hcommas := fun s step =>
    commaList_arranges s ")" step fun value : Expr => sitesOf value.outline
  refine triple_of fun holds hholds => ?_
  mvcgen [arguments, hcommas, -arguments_advances, -commaList_moves] <;> grind -ring -linarith

@[spec high] theorem arrayLiteral_begins (hproper : s.current.token.isProper = true) :
    Begins s (arrayLiteral g) := by
  have hlist := fun s stop step =>
    repeatUntil_follows s stop step fun value : Expr => sitesOf value.outline
  refine triple_of fun holds hholds => ?_
  mvcgen [arrayLiteral, hlist, -arrayLiteral_advances, -repeatUntil_leads] <;> grind -ring -linarith

/-- A method starts before its key, the rest of it after the key. -/
@[spec high] theorem method_arranges (start : Nat) (key : KeyText) (isAsync isGenerator : Bool)
    (accessor : Accessor) :
    ⦃fun _ state => ⌜state = s⌝⦄ method g start key isAsync isGenerator accessor
    ⦃⇓? member _ state => ⌜Moves s.mark state.mark ∧ ∀ source, s.mark.Right source →
      start < s.current.span.start →
      Arranged source (start + 1) s.previous.stop (sitesOf (Expr.optionOutline key.computed)) →
      Arranged source start state.previous.stop (sitesOf member.outline)⌝⦄ := by
  refine triple_of fun holds hholds => ?_
  mvcgen [method, -method_advances]
  grind -ring -linarith

@[spec high] theorem objectMember_arranges :
    Arranges s (objectMember g) fun member => sitesOf member.outline := by
  refine triple_of fun holds hholds => ?_
  mvcgen [objectMember, eat_leads, -objectMember_advances, -eat_moves] <;> grind -ring -linarith

@[spec high] theorem objectLiteral_begins (hproper : s.current.token.isProper = true) :
    Begins s (objectLiteral g) := by
  have hcommas := fun s step =>
    commaList_arranges s "\x7d" step fun member : Member => sitesOf member.outline
  refine triple_of fun holds hholds => ?_
  mvcgen [objectLiteral, hcommas, -objectLiteral_advances, -commaList_moves] <;>
    grind -ring -linarith

@[spec high] theorem templateParts_arranges (opening : Nat) (tagged : Bool) (rounds : Nat)
    (hquote : s.current.token = .punctuator "\x60" ∨ s.current.token = .punctuator "\x7d") :
    Arranges s (templateParts g opening tagged rounds ⟨s.current.rest, s.current.span.stop⟩)
      fun parts => sitesOf (Expr.outlines parts) := by
  induction rounds generalizing s with
  | zero =>
      mvcgen [templateParts, -templateParts_advances]
      grind -ring -linarith
  | succ rounds ih =>
      refine triple_of fun holds hholds => ?_
      mvcgen [templateParts, ih, -Spec.throw_ReaderT, -Spec.throw_MonadExcept,
        -templateParts_advances] <;> grind -ring -linarith

@[spec high] theorem template_arranges (tagged : Bool)
    (hquote : s.current.token = .punctuator "\x60" ∨ s.current.token = .punctuator "\x7d") :
    Arranges s (template g tagged) fun parts => sitesOf (Expr.outlines parts) := by
  refine triple_of fun holds hholds => ?_
  mvcgen [template, -template_advances] <;> grind -ring -linarith

/-! ## Classes -/

@[spec high] theorem fieldRest_follows (key : KeyText) :
    ⦃fun _ state => ⌜state = s⌝⦄ fieldRest g key
    ⦃⇓? member _ state => ⌜Leads s.mark state.mark ∧ ∀ source start, s.mark.Right source →
      start ≤ s.current.span.start →
      Arranged source start s.previous.stop (sitesOf (Expr.optionOutline key.computed)) →
      Arranged source start state.previous.stop (sitesOf member.outline)⌝⦄ := by
  refine triple_of fun holds hholds => ?_
  mvcgen [fieldRest, Parser.apart, -fieldRest_leads] <;> grind -ring -linarith

@[spec high] theorem staticBlock_arranges :
    Arranges s (staticBlock g) fun member => sitesOf member.outline := by
  refine triple_of fun holds hholds => ?_
  mvcgen [staticBlock, Parser.apart, -staticBlock_advances]
  grind -ring -linarith

@[spec high] theorem classMemberRest_arranges (start : Nat) (isStatic : Bool) :
    ⦃fun _ state => ⌜state = s⌝⦄ classMemberRest g start isStatic
    ⦃⇓? result _ state => ⌜Moves s.mark state.mark ∧ ∀ source, s.mark.Right source →
      start ≤ s.current.span.start →
      Arranged source start state.previous.stop (sitesOf result.1.outline)⌝⦄ := by
  refine triple_of fun holds hholds => ?_
  mvcgen [classMemberRest, eat_leads, -classMemberRest_advances, -eat_moves]
    <;> grind -ring -linarith

@[spec high] theorem classMember_arranges :
    Arranges s (classMember g) fun member =>
      member.toList.flatMap fun found => sitesOf found.1.outline := by
  refine triple_of fun holds hholds => ?_
  mvcgen [classMember, -classMember_advances] <;> grind -ring -linarith

@[spec high] theorem classBody_arranges :
    Arranges s (classBody g) fun members => sitesOf (Member.outlines members) := by
  have hlist := fun s stop step =>
    repeatUntil_follows s stop step fun member : Option (Member × Bool × Nat) =>
      member.toList.flatMap fun found => sitesOf found.1.outline
  refine triple_of fun holds hholds => ?_
  mvcgen [classBody, hlist, -classBody_advances, -repeatUntil_leads] <;>
    grind -ring -linarith [sitesOf_members]

/-! ## Parentheses and arrow functions -/

@[spec high] theorem parenthesised_begins (start : Nat) (mayBeArrow : Bool)
    (asyncName : Option Ident) :
    ⦃fun _ state => ⌜state = s⌝⦄ parenthesised g start mayBeArrow asyncName
    ⦃⇓? value _ state => ⌜Moves s.mark state.mark ∧ value.span.start = start ∧
      ∀ source, s.mark.Right source → start ≤ s.current.span.start →
        Arranged source start s.previous.stop (asyncName.toList.map .name) →
        Arranged source start state.previous.stop (sitesOf value.outline)⌝⦄ := by
  have hcommas := fun s step =>
    commaList_arranges s ")" step fun value : Expr => sitesOf value.outline
  refine triple_of fun holds hholds => ?_
  mvcgen [parenthesised, withIn, hcommas, -parenthesised_advances, -commaList_moves] <;>
    grind -ring -linarith

@[spec high] theorem identifierOrArrow_begins (start : Nat) (mayBeArrow : Bool)
    (hstart : start = s.current.span.start) :
    Begins s (identifierOrArrow g start mayBeArrow) := by
  refine triple_of fun holds hholds => ?_
  mvcgen [identifierOrArrow, -identifierOrArrow_advances] <;> grind -ring -linarith

@[spec high] theorem asyncOrIdentifier_begins (start : Nat) (mayBeArrow : Bool)
    (hproper : s.current.token.isProper = true) (hstart : start = s.current.span.start) :
    Begins s (asyncOrIdentifier g start mayBeArrow) := by
  have hhead := fun s start isAsync =>
    functionHead_arranges s hg start isAsync optionalName _ optionalName_follows
  refine triple_of fun holds hholds => ?_
  mvcgen [asyncOrIdentifier, hhead, -asyncOrIdentifier_advances, -functionHead_advances] <;>
    grind -ring -linarith

/-! ## Accesses, calls and primary expressions -/

/-- Accesses and calls are read on from an expression that is arranged. -/
@[spec high] theorem subscripts_begins (start : Nat) (calls : Bool) (rounds : Nat) (chain : Bool)
    (base : Expr) :
    ⦃fun _ state => ⌜state = s⌝⦄ subscripts g start calls rounds chain base
    ⦃⇓? value _ state => ⌜Leads s.mark state.mark ∧
      (base.span.start = start → value.span.start = start) ∧
      ∀ source, s.mark.Right source → start ≤ s.current.span.start →
        Arranged source start s.previous.stop (sitesOf base.outline) →
        Arranged source start state.previous.stop (sitesOf value.outline)⌝⦄ := by
  induction rounds generalizing s chain base with
  | zero =>
      mvcgen [subscripts, -subscripts_leads]
      grind -ring -linarith
  | succ rounds ih =>
      refine triple_of fun holds hholds => ?_
      mvcgen [subscripts, ih, -subscripts_leads] <;> grind -ring -linarith

@[spec high] theorem withSubscripts_begins (start : Nat) (calls : Bool) (base : Expr) :
    ⦃fun _ state => ⌜state = s⌝⦄ withSubscripts g start calls base
    ⦃⇓? value _ state => ⌜Leads s.mark state.mark ∧
      (base.span.start = start → value.span.start = start) ∧
      ∀ source, s.mark.Right source → start ≤ s.current.span.start →
        Arranged source start s.previous.stop (sitesOf base.outline) →
        Arranged source start state.previous.stop (sitesOf value.outline)⌝⦄ := by
  refine triple_of fun holds hholds => ?_
  mvcgen [withSubscripts, -withSubscripts_leads]
  grind -ring -linarith

@[spec high] theorem classExpression_begins {lhs : Parser Expr} (hlhs : ∀ s, Begins s lhs) :
    Begins s (classExpression g lhs) := by
  refine triple_of fun holds hholds => ?_
  mvcgen [classExpression, hlhs, -classExpression_advances] <;> grind -ring -linarith

@[spec high] theorem primary_begins {lhs : Parser Expr} (hlhs : ∀ s, Begins s lhs) :
    Begins s (primary g lhs) := by
  have hhead := fun s start isAsync =>
    functionHead_arranges s hg start isAsync optionalName _ optionalName_follows
  refine triple_of fun holds hholds => ?_
  mvcgen [primary, hlhs, hhead, -primary_advances, -functionHead_advances] <;>
    grind -ring -linarith

@[spec high] theorem newExpression_begins {lhs : Parser Expr} (hlhs : ∀ s, Begins s lhs)
    (rounds : Nat) (hproper : s.current.token.isProper = true) :
    Begins s (newExpression g lhs rounds) := by
  induction rounds generalizing s with
  | zero =>
      mvcgen [newExpression, -newExpression_advances]
      grind -ring -linarith
  | succ rounds ih =>
      refine triple_of fun holds hholds => ?_
      mvcgen [newExpression, hlhs, ih, -newExpression_advances] <;> grind -ring -linarith

@[spec high] theorem leftHandSide_begins (depth : Nat) : Begins s (leftHandSide g depth) := by
  induction depth generalizing s with
  | zero =>
      mvcgen [leftHandSide, -leftHandSide_advances]
      grind -ring -linarith
  | succ depth ih =>
      refine triple_of fun holds hholds => ?_
      mvcgen [leftHandSide, ih, -leftHandSide_advances] <;> grind -ring -linarith

/-! ## Operators -/

theorem unary_begins : Begins s (unary g) := by
  refine triple_of fun holds hholds => ?_
  mvcgen [unary, -unary_advances] <;> grind -ring -linarith

/-- Operators are read on from a left operand that is arranged. -/
@[spec high] theorem binaryRest_begins (start rounds level : Nat) (left : Expr) :
    ⦃fun _ state => ⌜state = s⌝⦄ binaryRest g start rounds level left
    ⦃⇓? value _ state => ⌜Leads s.mark state.mark ∧
      (left.span.start = start → value.span.start = start) ∧
      ∀ source, s.mark.Right source → start ≤ s.current.span.start →
        Arranged source start s.previous.stop (sitesOf left.outline) →
        Arranged source start state.previous.stop (sitesOf value.outline)⌝⦄ := by
  induction rounds generalizing s start level left with
  | zero =>
      mvcgen [binaryRest, -binaryRest_leads]
      grind -ring -linarith
  | succ rounds ih =>
      refine triple_of fun holds hholds => ?_
      mvcgen [binaryRest, ih, -binaryRest_leads] <;> grind -ring -linarith

@[spec high] theorem binary_begins : Begins s (binary g) := by
  refine triple_of fun holds hholds => ?_
  mvcgen [binary, -binary_advances] <;> grind -ring -linarith

@[spec high] theorem conditional_begins : Begins s (conditional g) := by
  refine triple_of fun holds hholds => ?_
  mvcgen [conditional, -conditional_advances] <;> grind -ring -linarith

@[spec high] theorem yieldExpression_begins (hproper : s.current.token.isProper = true) :
    Begins s (yieldExpression g) := by
  refine triple_of fun holds hholds => ?_
  mvcgen [yieldExpression, -yieldExpression_advances] <;> grind -ring -linarith

theorem assignment_begins : Begins s (assignment g) := by
  refine triple_of fun holds hholds => ?_
  mvcgen [assignment, -assignment_advances] <;> grind -ring -linarith

end Parser
end Script
end ScriptBundler
