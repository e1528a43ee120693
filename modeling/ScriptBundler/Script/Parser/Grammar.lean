import ScriptBundler.Script.Parser.Target

/-!
# Patterns, functions and blocks

The grammar is a knot: an expression holds functions, a function holds statements, a statement
holds expressions.  Each part is written here and in the next files over a `Grammar`, a record of
the parts that it calls in turn; `grammarOfDepth` ties the knot up to a depth of nesting.

This file reads the parts that expressions and statements share: patterns, keys of properties,
parameters, and the bodies of functions.
-/

namespace ScriptBundler
namespace Script
namespace Parser

/-- The parts of the grammar that call each other. -/
structure Grammar where
  /-- An expression without a comma at its top. -/
  assignment : Parser Expr
  unary : Parser Expr
  /-- A statement; the flag says whether a declaration may stand here. -/
  statement : Bool → Parser Stmt
  /-- A name, or an array or object pattern. -/
  bindingTarget : Parser Pattern

/-- Runs a step with `in` as an operator. -/
def withIn (step : Parser α) : Parser α :=
  withReader (fun setting => { setting with allowIn := true }) step

/-- An expression without a comma at its top, anywhere but in the head of a loop. -/
def Grammar.value (g : Grammar) : Parser Expr :=
  withIn g.assignment

/-- An expression, in which commas separate parts. -/
def Grammar.expression (g : Grammar) : Parser Expr := do
  let start ← here
  let first ← g.assignment
  if ← isPunctuator "," then
    let rest ← repeatUntil (do pure !(← isPunctuator ",")) do
      advance
      g.assignment
    pure (.compound .sequence (first :: rest) (← spanFrom start))
  else pure first

/-- An expression anywhere but in the head of a loop. -/
def Grammar.fullExpression (g : Grammar) : Parser Expr :=
  withIn g.expression

/-! ## Keys -/

/-- A key of a property as it is written. -/
structure KeyText where
  /-- The expression of a computed key. -/
  computed : Option Expr
  /-- The key, if it is a word. -/
  word : Option Ident
  /-- The name of the property, if it is written as a word or a string. -/
  name : Option String
  start : Nat

/-- Reads the key of a property; only a class has private ones. -/
def propertyKey (g : Grammar) (inClass : Bool) : Parser KeyText := do
  requireToken
  let start ← here
  match ← token with
  | .word _ _ =>
    let id ← identifierName
    pure ⟨none, some id, some id.name, start⟩
  | .quoted value =>
    advance
    pure ⟨none, none, some value, start⟩
  | .number =>
    advance
    pure ⟨none, none, none, start⟩
  | .punctuator "[" =>
    advance
    let key ← g.value
    expect "]"
    pure ⟨some key, none, none, start⟩
  | .punctuator "#" =>
    if !inClass then unexpected
    privateName
    pure ⟨none, none, none, start⟩
  | _ => unexpected

/-! ## Binding patterns -/

/-- Reads a pattern with its default value, if there is one. -/
def bindingElement (g : Grammar) : Parser Pattern := do
  let start ← here
  let target ← g.bindingTarget
  if ← eat "=" then
    let value ← g.value
    pure (.withDefault target value (← spanFrom start))
  else pure target

/-- Notes a fault for each rest pattern that is not the last one. -/
def checkRests (elements : List Pattern) : Parser Unit :=
  elements.dropLast.forM fun element =>
    match element with
    | .rest _ span => complain span.start
    | _ => pure ()

/-- Reads an element of an array pattern with the comma after it. -/
def arrayPatternElement (g : Grammar) : Parser Pattern := do
  if ← eat "," then pure .hole
  else
    let start ← here
    let isRest ← eat "..."
    let element ←
      if isRest then
        let inner ← g.bindingTarget
        pure (.rest inner (← spanFrom start))
      else bindingElement g
    if !(← isPunctuator "]") then
      let comma ← here
      expect ","
      if isRest && (← isPunctuator "]") then complain comma
    pure element

/-- Reads a member of an object pattern. -/
def objectPatternMember (g : Grammar) : Parser Pattern := do
  let start ← here
  if ← eat "..." then
    let innerStart ← here
    match ← g.bindingTarget with
    | .ident id => pure (.rest (.ident id) (← spanFrom start))
    | _ => refuse innerStart
  else
    let key ← propertyKey g false
    if ← eat ":" then
      let value ← bindingElement g
      pure (.keyed key.computed value)
    else
      match key.word with
      | none => unexpected
      | some id =>
        if ← eat "=" then
          let value ← g.value
          pure (.shorthand id (some value))
        else
          if isReserved id.name then complain id.span.start
          pure (.shorthand id none)

/-- Reads a name, or an array or object pattern. -/
def bindingTarget (g : Grammar) : Parser Pattern := do
  requireToken
  let start ← here
  match ← token with
  | .word _ _ => return .ident (← bindingIdentifier)
  | .punctuator "[" =>
    advance
    let elements ← repeatUntil (do pure ((← isPunctuator "]") || (← atEnd))) (arrayPatternElement g)
    expect "]"
    checkRests elements
    pure (.array elements (← spanFrom start))
  | .punctuator "\x7b" =>
    advance
    let (members, comma) ← commaList "\x7d" (objectPatternMember g)
    checkRests members
    match members.getLast?, comma with
    | some (.rest _ _), some comma => complain comma
    | _, _ => pure ()
    pure (.object members (← spanFrom start))
  | _ => unexpected

/-! ## Blocks and functions -/

/-- The span of the directive that a statement is, if it is one. -/
def directiveSpan (first : Lexeme) (statement : Stmt) : Option Span :=
  match first.token, statement with
  | .quoted _, .expression (.atom span) _ => if span = first.span then some span else none
  | _, _ => none

/-- Reads the statements of a function up to its closing brace.  `directives` says whether only
directives have been read so far; `simple` says whether the parameters are all names, as a
function needs that asks for strict mode. -/
def functionStatements (g : Grammar) (simple : Bool) : Nat → Bool → Parser (List Stmt)
  | 0, _ => unexpected
  | rounds + 1, directives => do
    if (← isPunctuator "\x7d") || (← atEnd) then pure []
    else
      let first := (← get).current
      let statement ← g.statement true
      let directive := directiveSpan first statement
      if directives && !simple && directive.isSome && first.token == .quoted "use strict"
          && first.span.stop - first.span.start == 12 then
        complain first.span.start
      let rest ← functionStatements g simple rounds (directives && directive.isSome)
      pure (statement :: rest)

/-- Reads statements in braces. -/
def block (g : Grammar) : Parser Block := do
  let start ← here
  expect "\x7b"
  let body ← withIn (repeatUntil (do pure ((← isPunctuator "\x7d") || (← atEnd)))
    (g.statement true))
  expect "\x7d"
  pure (.mk body (← spanFrom start))

/-- The setting inside the body of a function. -/
def Setting.inBody (setting : Setting) (isAsync isGenerator isArrow : Bool) : Setting :=
  { setting with
    inAsync := isAsync, inGenerator := isGenerator
    hasNewTarget := setting.hasNewTarget || !isArrow
    inFunction := true, inStaticBlock := false, allowBreak := false, allowContinue := false
    labels := [], inLoopHead := false }

/-- Reads the body of a function, braces included. -/
def functionBlock (g : Grammar) (simple : Bool) : Parser Block := do
  let start ← here
  expect "\x7b"
  let body ← withIn do functionStatements g simple (← read).budget true
  expect "\x7d"
  pure (.mk body (← spanFrom start))

/-- Whether parameters are all names. -/
def areSimple (params : List Pattern) : Bool :=
  params.all fun param =>
    match param with
    | .ident _ => true
    | _ => false

/-- Reads a parameter. -/
def formalParameter (g : Grammar) : Parser Pattern := do
  let start ← here
  if ← eat "..." then
    let inner ← g.bindingTarget
    if ← eat "=" then
      discard g.value
      complain start
    pure (.rest inner (← spanFrom start))
  else bindingElement g

/-- Runs a step; an `await` or `yield` in it is none of the function around it. -/
def apart (step : Parser α) : Parser α := do
  let suspension := (← get).suspension
  let value ← step
  modify fun state => { state with suspension }
  pure value

/-- Which accessor a method is, with the place its faults are reported at. -/
inductive Accessor where
  | none
  | getter (key : Nat)
  | setter (key : Nat)

/-- Notes a fault if an accessor has the wrong parameters. -/
def checkAccessor (accessor : Accessor) (params : List Pattern) : Parser Unit :=
  match accessor, params with
  | .none, _ | .getter _, [] => pure ()
  | .getter key, _ => complain key
  | .setter _, [.rest _ span] => complain span.start
  | .setter _, [_] => pure ()
  | .setter key, _ => complain key

/-- Reads the parameters and the body of a function or method that starts at `start`. -/
def functionRest (g : Grammar) (start : Nat) (isAsync isGenerator isMethod : Bool)
    (accessor : Accessor) : Parser Function := apart do
  withReader (fun setting =>
    { setting with
      inAsync := isAsync, inGenerator := isGenerator, hasSuper := isMethod, inField := false }) do
    expect "("
    let (params, comma) ←
      withReader (fun setting => { setting with inParameters := true, inFunction := false })
        (commaList ")" (formalParameter g))
    checkRests params
    match params.getLast?, comma with
    | some (.rest _ _), some comma => complain comma
    | _, _ => pure ()
    checkAccessor accessor params
    let body ← withReader (·.inBody isAsync isGenerator false) (functionBlock g (areSimple params))
    pure (.block params body (← spanFrom start))

/-- Reads an arrow function after its arrow. -/
def arrowRest (g : Grammar) (start : Nat) (isAsync : Bool) (params : List Pattern) :
    Parser Expr := apart do
  withReader (·.inBody isAsync false true) do
    if ← isPunctuator "\x7b" then
      let body ← functionBlock g (areSimple params)
      pure (.arrow (.block params body (← spanFrom start)))
    else
      let value ← g.assignment
      pure (.arrow (.value params value (← spanFrom start)))

/-- Reads the name of a function or class, if there is one. -/
def optionalName : Parser (Option Ident) := do
  match ← token with
  | .word "extends" _ => pure none
  | .word _ _ => return some (← bindingIdentifier)
  | _ => pure none

/-- Reads a function from its keyword on.  `start` is where `async` stands, if it is written. -/
def functionHead (g : Grammar) (start : Nat) (isAsync : Bool) (name : Parser α) :
    Parser (α × Function) := do
  expectWord "function"
  let isGenerator ← eat "*"
  let name ← name
  let body ← functionRest g start isAsync isGenerator false .none
  pure (name, body)

end Parser
end Script
end ScriptBundler
