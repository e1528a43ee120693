import ScriptBundler.Proofs.Script.Sites

/-!
# Places: patterns, functions and blocks

What each part of the grammar gives lies in what it reads, given that this is so of the parts that
it calls in turn.
-/

namespace ScriptBundler
namespace Script

open Std.Do Text
open Outline (sitesOf)

set_option mvcgen.warning false

theorem Cursor.Reaches.boundary {source rest : List Char} {offset : Nat}
    (hplace : Cursor.Reaches ⟨source, 0⟩ ⟨rest, offset⟩) : Boundary source offset := by
  obtain ⟨front, hfront, hoffset⟩ := hplace
  exact ⟨front, rest, hfront, by simpa using hoffset⟩

namespace Parser

open Mark

variable {source : List Char} {mark after : Mark}

theorem Mark.Right.gap (hright : mark.Right source) :
    mark.previous.stop ≤ mark.current.span.start := by
  obtain ⟨rest, -, hcurrent⟩ := hright.current
  exact hcurrent.start.le

theorem Mark.Leads.bounds (hleads : Leads mark after) (hright : mark.Right source) :
    after.Right source ∧ mark.previous.stop ≤ after.previous.stop ∧
      mark.current.span.start ≤ after.current.span.start := by
  obtain ⟨hafter, hcovers⟩ := hleads.covers hright
  refine ⟨hafter, ?_⟩
  rcases hcovers with ⟨hcurrent, hprevious⟩ | ⟨-, rest, hcloses, -⟩
  · rw [hcurrent, hprevious]
    exact ⟨Nat.le_refl _, Nat.le_refl _⟩
  · have := hright.gap
    have := hcloses.lt
    have := hafter.gap
    simp only at *
    omega

theorem Mark.Moves.bounds (hmoves : Moves mark after) (hright : mark.Right source) :
    after.Right source ∧ mark.current.span.start < after.previous.stop := by
  obtain ⟨hafter, -, rest, hcloses, -⟩ := hmoves.reads hright
  exact ⟨hafter, hcloses.lt⟩

grind_pattern Mark.Right.gap => mark.Right source, mark.previous.stop
grind_pattern Mark.Leads.bounds => Leads mark after, mark.Right source
grind_pattern Mark.Moves.bounds => Moves mark after, mark.Right source

variable {α : Type} (s : State)

/-- Whether a step of the parser does not go back, and what it gives lies, apart from each other,
between the token that it starts at and the end of the last one that it reads. -/
abbrev Follows (s : State) (step : Parser α) (sites : α → List Site) : Prop :=
  ⦃fun _ state => ⌜state = s⌝⦄ step
  ⦃⇓? value _ state => ⌜Leads s.mark state.mark ∧ ∀ source, s.mark.Right source →
    Arranged source s.current.span.start state.previous.stop (sites value)⌝⦄

/-- Whether a step of the parser reads something, and what it gives lies, apart from each other, in
what it has read. -/
abbrev Arranges (s : State) (step : Parser α) (sites : α → List Site) : Prop :=
  ⦃fun _ state => ⌜state = s⌝⦄ step
  ⦃⇓? value _ state => ⌜Moves s.mark state.mark ∧ ∀ source, s.mark.Right source →
    Arranged source s.current.span.start state.previous.stop (sites value)⌝⦄

theorem follows_of_arranges {step : Parser α} {sites : α → List Site}
    (hstep : Arranges s step sites) : Follows s step sites := by
  refine triple_of fun holds hholds => ?_
  mvcgen [hstep]
  grind -ring -linarith

/-! ## Repetition -/

theorem loop_follows (stop : Parser Bool) (step : Parser α) (sites : α → List Site)
    (hround : ∀ s, Follows s (round stop step) fun found => found.toList.flatMap sites)
    (rounds : Nat) :
    Follows s (repeatUntil.loop stop step rounds) fun values => values.flatMap sites := by
  induction rounds generalizing s with
  | zero =>
      mvcgen [repeatUntil.loop]
      grind -ring -linarith
  | succ rounds ih =>
      rw [loop_succ]
      mvcgen [hround, ih, -round] <;> grind -ring -linarith

theorem repeatUntil_follows (stop : Parser Bool) (step : Parser α) (sites : α → List Site)
    (hround : ∀ s, Follows s (round stop step) fun found => found.toList.flatMap sites) :
    Follows s (repeatUntil stop step) fun values => values.flatMap sites := by
  have hloop := fun rounds s => loop_follows s stop step sites hround rounds
  mvcgen [repeatUntil, hloop, -repeatUntil_leads]

theorem commaList_arranges (close : String) (step : Parser α) (sites : α → List Site)
    (hstep : ∀ s, Follows s step sites) :
    Arranges s (commaList close step) fun result => result.1.flatMap sites := by
  have hrounds : ∀ s stop (step : Parser (α × Option Nat)),
      (∀ s, Follows s (round stop step) fun found =>
        found.toList.flatMap fun element => sites element.1) →
      Follows s (repeatUntil stop step) fun elements =>
        elements.flatMap fun element => sites element.1 :=
    fun s stop step hround => repeatUntil_follows s stop step _ hround
  mvcgen [commaList, hstep, hrounds, -repeatUntil_leads, -commaList_moves] <;>
    grind -ring -linarith [List.flatMap_map]

/-- A token that may be missing is not gone back over. -/
theorem eat_leads (text : String) :
    ⦃fun _ state => ⌜state = s⌝⦄ eat text ⦃⇓? _ _ state => ⌜Leads s.mark state.mark⌝⦄ := by
  mvcgen [eat, -eat_moves] <;> grind -ring -linarith

theorem eatWord_leads (name : String) :
    ⦃fun _ state => ⌜state = s⌝⦄ eatWord name ⦃⇓? _ _ state => ⌜Leads s.mark state.mark⌝⦄ := by
  mvcgen [eatWord, -eatWord_moves] <;> grind -ring -linarith

/-! ## Names -/

theorem resume_reads (start : Nat) (cursor : Cursor) (hends : s.mark.Ends cursor) :
    ⦃fun _ state => ⌜state = s⌝⦄ resume start cursor
    ⦃⇓? _ _ state => ⌜Moves s.mark state.mark ∧ state.previous.stop = cursor.offset⌝⦄ := by
  mvcgen [resume, -resume_moves]
  subst_vars
  refine ⟨?_, rfl⟩
  convert Moves.of_ends start hends using 1
  simp +zetaDelta [State.mark, Mark.resumed]

/-- Where a token ends that has been read. -/
theorem advance_reads (hproper : s.current.token.isProper = true) :
    ⦃fun _ state => ⌜state = s⌝⦄ advance
    ⦃⇓? _ _ state => ⌜Moves s.mark state.mark ∧ state.previous.stop = s.current.span.stop⌝⦄ := by
  mvcgen [advance, resume_reads, -advance_moves, -resume_moves]
  · subst_vars
    exact .token hproper
  · grind -ring -linarith

/-- The name that the current token is. -/
theorem Mark.Right.arranged_name (hright : mark.Right source)
    (hproper : mark.current.token.isProper = true) (name : String) :
    Arranged source mark.current.span.start mark.current.span.stop
      [.name ⟨name, mark.current.span⟩] := by
  obtain ⟨rest, hplace, hcurrent⟩ := hright.current
  have hstart := hplace.trans hcurrent.start
  have hcloses := hcurrent.scanned.closes hproper
  refine ⟨fun site hsite => ?_, List.pairwise_singleton _ _⟩
  obtain rfl := List.mem_singleton.mp hsite
  exact ⟨Nat.le_refl _, hcloses.lt, Nat.le_refl _, hstart.boundary,
    (hstart.closes hcloses).reaches.boundary⟩

grind_pattern Mark.Right.arranged_name =>
  mark.Right source, Site.name ⟨name, mark.current.span⟩

@[spec high] theorem identifier_arranges :
    ⦃fun _ state => ⌜state = s⌝⦄ identifier
    ⦃⇓? id _ state => ⌜Moves s.mark state.mark ∧ id.span.start = s.current.span.start ∧
      ∀ source, s.mark.Right source →
        Arranged source s.current.span.start state.previous.stop [.name id]⌝⦄ := by
  mvcgen [identifier, advance_reads, -identifier_advances, -advance_moves] <;>
    grind -ring -linarith

@[spec high] theorem bindingIdentifier_arranges :
    Arranges s bindingIdentifier fun id => [.name id] := by
  refine triple_of fun holds hholds => ?_
  mvcgen [bindingIdentifier, -bindingIdentifier_advances] <;> grind -ring -linarith

@[spec high] theorem identifierName_arranges : Arranges s identifierName fun id => [.name id] := by
  mvcgen [identifierName, advance_reads, -identifierName_advances, -advance_moves] <;>
    grind -ring -linarith

@[spec high] theorem optionalName_follows :
    Follows s optionalName fun name => name.toList.map .name := by
  mvcgen [optionalName, -optionalName_leads] <;> grind -ring -linarith

/-! ## Patterns in place of expressions -/

theorem of_bind_eq_ok {α β : Type} {x : Except Nat α} {f : α → Except Nat β} {b : β}
    (h : (x >>= f) = .ok b) : ∃ a, x = .ok a ∧ f a = .ok b := by
  cases x with
  | error => contradiction
  | ok a => exact ⟨a, rfl, h⟩

mutual

theorem sitesOf_reinterpret (commas : List (Nat × Nat)) (role : Role) : ∀ (value : Expr)
    (pattern : Pattern), reinterpret commas role value = .ok pattern →
    sitesOf pattern.outline = sitesOf value.outline
  | .array elements span, pattern, h => by
    unfold reinterpret at h
    split at h
    · contradiction
    · obtain ⟨patterns, hpatterns, h⟩ := of_bind_eq_ok h
      obtain rfl := Except.ok.inj h
      exact sitesOf_reinterpretElements commas role elements patterns hpatterns
  | .object members span, pattern, h => by
    unfold reinterpret at h
    split at h
    · contradiction
    · obtain ⟨patterns, hpatterns, h⟩ := of_bind_eq_ok h
      obtain rfl := Except.ok.inj h
      exact sitesOf_reinterpretMembers commas role members patterns hpatterns
  | .assign operator target value span, pattern, h => by
    unfold reinterpret at h
    have hpattern : pattern = .withDefault target value span := by
      cases hoperator : operator != "=" || role == .whole
      · cases hbinding : role == .binding <;>
          simp only [hoperator, hbinding, Bool.false_eq_true, if_false, if_true] at h
        · exact (Except.ok.inj h).symm
        · obtain ⟨-, -, h⟩ := of_bind_eq_ok h
          exact (Except.ok.inj h).symm
      · simp only [hoperator] at h
        contradiction
    subst hpattern
    simp [Pattern.outline, Expr.outline, Outline.sitesOf, Outline.sites, Node.sites,
      Outline.sitesOf_append]
  | .ident _, _, h | .member _ _ _, _, h | .paren _ _, _, h => by
    unfold reinterpret at h
    split at h
    · contradiction
    · obtain rfl := Except.ok.inj h
      rfl
  | .atom _, _, h | .hole, _, h | .spread _, _, h | .function _ _, _, h | .arrow _, _, h
  | .classExpr _ _ _ _, _, h | .call _ _ _, _, h | .new _ _ _, _, h | .chainMember _ _ _, _, h
  | .chainCall _ _ _, _, h | .update _ _ _, _, h | .compound _ _ _, _, h => by
    unfold reinterpret at h
    contradiction

theorem sitesOf_reinterpretElements (commas : List (Nat × Nat)) (role : Role) :
    ∀ (values : List Expr) (patterns : List Pattern),
    reinterpretElements commas role values = .ok patterns →
    sitesOf (Pattern.outlines patterns) = sitesOf (Expr.outlines values)
  | [], _, h => by
    obtain rfl := Except.ok.inj h
    rfl
  | first :: rest, patterns, h => by
    have hothers := sitesOf_reinterpretElements commas role rest
    have hfirst := fun role => sitesOf_reinterpret commas role first
    cases first with
    | hole =>
        unfold reinterpretElements at h
        obtain ⟨others, hrest, h⟩ := of_bind_eq_ok h
        obtain rfl := Except.ok.inj h
        exact hothers others hrest
    | spread value =>
        have hvalue := fun role => sitesOf_reinterpret commas role value
        unfold reinterpretElements at h
        obtain ⟨inner, hinner, h⟩ := of_bind_eq_ok h
        split at h <;> cases h
        grind
    | _ =>
        unfold reinterpretElements at h
        obtain ⟨inner, hinner, h⟩ := of_bind_eq_ok h
        obtain ⟨others, hrest, h⟩ := of_bind_eq_ok h
        obtain rfl := Except.ok.inj h
        simp only [Pattern.outlines, Expr.outlines, Outline.sitesOf_append, hfirst _ inner hinner,
          hothers others hrest]

theorem sitesOf_reinterpretMembers (commas : List (Nat × Nat)) (role : Role) :
    ∀ (members : List Member) (patterns : List Pattern),
    reinterpretMembers commas role members = .ok patterns →
    sitesOf (Pattern.outlines patterns) = sitesOf (Member.outlines members)
  | [], _, h => by
    obtain rfl := Except.ok.inj h
    rfl
  | .shorthand id :: rest, patterns, h => by
    have hothers := sitesOf_reinterpretMembers commas role rest
    unfold reinterpretMembers at h
    split at h
    · contradiction
    · obtain ⟨others, hrest, h⟩ := of_bind_eq_ok h
      cases h
      grind
  | .shorthandDefault id value :: rest, patterns, h => by
    have hothers := sitesOf_reinterpretMembers commas role rest
    unfold reinterpretMembers at h
    split at h
    · contradiction
    · obtain ⟨others, hrest, h⟩ := of_bind_eq_ok h
      cases h
      grind
  | .field key (some value) :: rest, patterns, h => by
    have hothers := sitesOf_reinterpretMembers commas role rest
    have hvalue := fun role => sitesOf_reinterpret commas role value
    unfold reinterpretMembers at h
    obtain ⟨inner, hinner, h⟩ := of_bind_eq_ok h
    obtain ⟨others, hrest, h⟩ := of_bind_eq_ok h
    cases h
    grind
  | .spread value :: rest, patterns, h => by
    have hvalue := fun role => sitesOf_reinterpret commas role value
    unfold reinterpretMembers at h
    obtain ⟨inner, hinner, h⟩ := of_bind_eq_ok h
    split at h <;> cases h <;> grind
  | .field _ none :: _, _, h | .method _ _ :: _, _, h | .staticBlock _ :: _, _, h => by
    unfold reinterpretMembers at h
    contradiction

end

/-! ## Parts of a grammar -/

/-- Whether a step of the parser gives an expression that starts where the step does, and the names
and scopes of the expression lie in what it has read. -/
abbrev Begins (s : State) (step : Parser Expr) : Prop :=
  ⦃fun _ state => ⌜state = s⌝⦄ step
  ⦃⇓? value _ state => ⌜Moves s.mark state.mark ∧ value.span.start = s.current.span.start ∧
    ∀ source, s.mark.Right source →
      Arranged source s.current.span.start state.previous.stop (sitesOf value.outline)⌝⦄

/-- Whether what each part gives that a grammar is tied together from lies in what it reads. -/
structure Grammar.Arranging (g : Grammar) : Prop where
  assignment : ∀ s, Begins s g.assignment
  unary : ∀ s, Begins s g.unary
  statement : ∀ declarations s,
    Arranges s (g.statement declarations) fun body => sitesOf body.outline
  bindingTarget : ∀ s, Arranges s g.bindingTarget fun target => sitesOf target.outline

variable {g : Grammar} (hg : g.Arranging)

include hg

@[spec high] theorem Grammar.assignment_begins : Begins s g.assignment :=
  hg.assignment s

@[spec high] theorem Grammar.unary_begins : Begins s g.unary :=
  hg.unary s

@[spec high] theorem Grammar.statement_arranges (declarations : Bool) :
    Arranges s (g.statement declarations) fun body => sitesOf body.outline :=
  hg.statement declarations s

@[spec high] theorem Grammar.bindingTarget_arranges :
    Arranges s g.bindingTarget fun target => sitesOf target.outline :=
  hg.bindingTarget s

@[spec high] theorem Grammar.value_begins : Begins s g.value := by
  refine triple_of fun holds hholds => ?_
  mvcgen [Grammar.value, withIn, -Grammar.value_advances]
  grind -ring -linarith

@[spec high] theorem Grammar.expression_begins : Begins s g.expression := by
  have hrest := fun s stop step =>
    repeatUntil_follows s stop step fun value : Expr => sitesOf value.outline
  refine triple_of fun holds hholds => ?_
  mvcgen [Grammar.expression, hrest, -Grammar.expression_advances, -repeatUntil_leads] <;>
    grind -ring -linarith [Expr.span]

@[spec high] theorem Grammar.fullExpression_begins : Begins s g.fullExpression := by
  refine triple_of fun holds hholds => ?_
  mvcgen [Grammar.fullExpression, withIn, -Grammar.fullExpression_advances]
  grind -ring -linarith

@[spec high] theorem propertyKey_arranges (inClass : Bool) :
    ⦃fun _ state => ⌜state = s⌝⦄ propertyKey g inClass
    ⦃⇓? key _ state => ⌜Moves s.mark state.mark ∧ ∀ source, s.mark.Right source →
      Arranged source (s.current.span.start + 1) state.previous.stop
        (sitesOf (Expr.optionOutline key.computed)) ∧
      Arranged source s.current.span.start state.previous.stop (key.word.toList.map .name)⌝⦄ := by
  refine triple_of fun holds hholds => ?_
  mvcgen [propertyKey, -propertyKey_advances] <;> grind -ring -linarith

@[spec high] theorem bindingElement_arranges :
    Arranges s (bindingElement g) fun target => sitesOf target.outline := by
  refine triple_of fun holds hholds => ?_
  mvcgen [bindingElement, -bindingElement_advances] <;> grind -ring -linarith

@[spec high] theorem arrayPatternElement_arranges :
    Arranges s (arrayPatternElement g) fun target => sitesOf target.outline := by
  refine triple_of fun holds hholds => ?_
  mvcgen [arrayPatternElement, -arrayPatternElement_advances] <;> grind -ring -linarith

@[spec high] theorem objectPatternMember_arranges :
    Arranges s (objectPatternMember g) fun target => sitesOf target.outline := by
  refine triple_of fun holds hholds => ?_
  mvcgen [objectPatternMember, -objectPatternMember_advances] <;> grind -ring -linarith

@[spec high] theorem bindingTarget_arranges :
    Arranges s (bindingTarget g) fun target => sitesOf target.outline := by
  have hlist := fun s stop step =>
    repeatUntil_follows s stop step fun value : Pattern => sitesOf value.outline
  have hcommas := fun s step =>
    commaList_arranges s "\x7d" step fun value : Pattern => sitesOf value.outline
  refine triple_of fun holds hholds => ?_
  mvcgen [bindingTarget, hlist, hcommas, -bindingTarget_advances, -repeatUntil_leads,
    -commaList_moves] <;> grind -ring -linarith

/-! ## Blocks and functions -/

theorem functionStatements_follows (simple : Bool) (rounds : Nat) (directives : Bool) :
    Follows s (functionStatements g simple rounds directives) fun body =>
      sitesOf (Stmt.outlines body) := by
  induction rounds generalizing s directives with
  | zero =>
      mvcgen [functionStatements, -functionStatements_leads]
      grind -ring -linarith
  | succ rounds ih =>
      refine triple_of fun holds hholds => ?_
      mvcgen [functionStatements, ih, -functionStatements_leads] <;> grind -ring -linarith

@[spec high] theorem block_arranges :
    Arranges s (block g) fun body => sitesOf [body.outline] := by
  have hlist := fun s stop step =>
    repeatUntil_follows s stop step fun body : Stmt => sitesOf body.outline
  refine triple_of fun holds hholds => ?_
  mvcgen [block, withIn, hlist, -block_advances, -repeatUntil_leads] <;>
    grind -ring -linarith

@[spec high] theorem functionBlock_arranges (simple : Bool) :
    Arranges s (functionBlock g simple) fun body => sitesOf [body.outline] := by
  have hbody := fun simple rounds directives s =>
    functionStatements_follows s hg simple rounds directives
  refine triple_of fun holds hholds => ?_
  mvcgen [functionBlock, withIn, hbody, -functionBlock_advances,
    -functionStatements_leads]
  grind -ring -linarith

@[spec high] theorem formalParameter_arranges :
    Arranges s (formalParameter g) fun target => sitesOf target.outline := by
  refine triple_of fun holds hholds => ?_
  mvcgen [formalParameter, -formalParameter_advances] <;> grind -ring -linarith

/-- Whether a step of the parser gives a function that starts at an offset, and what is in it lies
in what the step has read. -/
abbrev Enters (s : State) (start : Nat) (step : Parser Function) : Prop :=
  ⦃fun _ state => ⌜state = s⌝⦄ step
  ⦃⇓? body _ state => ⌜Moves s.mark state.mark ∧ body.span.start = start ∧
    ∀ source, s.mark.Right source →
      Arranged source s.current.span.start state.previous.stop (sitesOf body.parts)⌝⦄

@[spec high] theorem functionRest_enters (start : Nat) (isAsync isGenerator isMethod : Bool)
    (accessor : Accessor) :
    Enters s start (functionRest g start isAsync isGenerator isMethod accessor) := by
  have hparams := fun s step =>
    commaList_arranges s ")" step fun value : Pattern => sitesOf value.outline
  refine triple_of fun holds hholds => ?_
  mvcgen [functionRest, Parser.apart, hparams, -functionRest_advances, -commaList_moves] <;>
    grind -ring -linarith [Function.span]

@[spec high] theorem arrowRest_begins (start : Nat) (isAsync : Bool) (params : List Pattern) :
    ⦃fun _ state => ⌜state = s⌝⦄ arrowRest g start isAsync params
    ⦃⇓? value _ state => ⌜Moves s.mark state.mark ∧ value.span.start = start ∧
      ∀ source, s.mark.Right source → start < s.current.span.start →
        Arranged source start s.previous.stop (sitesOf (Pattern.outlines params)) →
        Late start (sitesOf (Pattern.outlines params)) →
        Arranged source start state.previous.stop (sitesOf value.outline)⌝⦄ := by
  refine triple_of fun holds hholds => ?_
  mvcgen [arrowRest, Parser.apart, -arrowRest_advances] <;>
    grind -ring -linarith [Function.span, Expr.span]

/-- A function, with what its name gives before its node or without it. -/
theorem functionHead_arranges {α : Type} (start : Nat) (isAsync : Bool) (name : Parser α)
    (sites : α → List Site) (hname : ∀ s, Follows s name sites) :
    ⦃fun _ state => ⌜state = s⌝⦄ functionHead g start isAsync name
    ⦃⇓? result _ state => ⌜Moves s.mark state.mark ∧ result.2.span.start = start ∧
      ∀ source, s.mark.Right source → start ≤ s.current.span.start →
        Arranged source start state.previous.stop
          (.scope ⟨.function, result.2.span⟩ :: sitesOf result.2.parts) ∧
        Arranged source start state.previous.stop
          (sites result.1 ++ .scope ⟨.function, result.2.span⟩ :: sitesOf result.2.parts)⌝⦄ := by
  refine triple_of fun holds hholds => ?_
  mvcgen [functionHead, hname, eat_leads, -functionHead_advances, -eat_moves]
  grind -ring -linarith

end Parser
end Script
end ScriptBundler
