import ScriptBundler.Script.Parser.Expression

/-!
# Statements

Statements and declarations, and the knot that ties the parts of the grammar together.
-/

namespace ScriptBundler
namespace Script
namespace Parser

/-- Where a pattern starts; zero for a hole. -/
def patternStart : Pattern → Nat
  | .ident id | .shorthand id _ => id.span.start
  | .array _ span | .object _ span | .rest _ span | .withDefault _ _ span => span.start
  | .keyed _ value => patternStart value
  | .target value => value.span.start
  | .hole => 0

/-- Runs a step as the body of a loop. -/
def loopBody (g : Grammar) : Parser Stmt :=
  withReader (fun setting => { setting with allowBreak := true, allowContinue := true })
    (g.statement false)

/-- Whether the current token is `in` or `of`. -/
def atInOrOf : Parser Bool := do
  pure ((← isWord "in") || (← isWord "of"))

/-! ## Variables -/

/-- Reads a declarator.  In the head of a loop it may lack its first value. -/
def declarator (g : Grammar) (kind : VariableKind) (inHead : Bool) : Parser Pattern := do
  let start ← here
  if kind != .varKind && (← isWord "let") then unexpected
  let target ← g.bindingTarget
  if inHead && (← atInOrOf) then return target
  if ← eat "=" then
    let value ← g.assignment
    return .withDefault target value (← spanFrom start)
  if kind == .constKind then
    complain start
    return target
  match target with
  | .ident _ => pure target
  | _ => refuse start

/-- Reads the declarators after the first one. -/
def moreDeclarators (g : Grammar) (kind : VariableKind) (inHead : Bool) :
    Nat → Parser (List Pattern)
  | 0 => unexpected
  | rounds + 1 => do
    let comma ← here
    if ← eat "," then
      if (← isPunctuator ";") || (← atEnd) then
        complain comma
        pure []
      else
        let first ← declarator g kind inHead
        let rest ← moreDeclarators g kind inHead rounds
        pure (first :: rest)
    else pure []

/-- Reads a variable declaration, with its semicolon unless it is in the head of a loop. -/
def variableDeclaration (g : Grammar) (kind : VariableKind) (inHead : Bool) : Parser Stmt := do
  let start ← here
  advance
  let declarators ← withReader
    (fun setting => { setting with allowIn := kind != .varKind || !inHead }) do
      let first ← declarator g kind inHead
      let rest ← moreDeclarators g kind inHead (← read).budget
      pure (first :: rest)
  if !inHead then expectSemicolon
  pure (.variableDecl kind declarators (← spanFrom start))

/-- The kind of variables that a declaration at the current token declares.  `let` declares only
before what can be bound. -/
def declarationKind : Parser (Option VariableKind) := do
  match ← token with
  | .word "var" _ => pure (some .varKind)
  | .word "const" _ => pure (some .constKind)
  | .word "let" _ =>
    match (← peek).token with
    | .word name _ =>
      pure (if ["let", "yield", "await"].contains name || !isReserved name then some .letKind
        else none)
    | .punctuator "[" | .punctuator "\x7b" => pure (some .letKind)
    | _ => pure none
  | _ => pure none

/-! ## Loops -/

/-- Reads something unless a condition holds. -/
def unlessAt (stop : Parser Bool) (step : Parser α) : Parser (Option α) := do
  if ← stop then pure none
  else
    let value ← step
    pure (some value)

/-- Reads a `for` from the end of the first part of its head on. -/
def forRest (g : Grammar) (start : Nat) (head : Option Stmt) : Parser Stmt := do
  let test ← unlessAt (isPunctuator ";") g.fullExpression
  expect ";"
  let update ← unlessAt (isPunctuator ")") g.fullExpression
  expect ")"
  let body ← loopBody g
  pure (.forLoop head test update body (← spanFrom start))

/-- Reads what a `for .. in` or `for .. of` runs over, and the end of its head. -/
def forEachSubject (g : Grammar) : Parser Expr := do
  let subject ←
    if ← eatWord "of" then g.value
    else
      expectWord "in"
      g.fullExpression
  expect ")"
  pure subject

/-- Notes faults in a declaration before `in` or `of`: more than one declarator, or a first
value. -/
def checkLoopDeclaration (head : Stmt) : Parser Unit :=
  match head with
  | .variableDecl _ [.withDefault target _ _] _ => complain (patternStart target)
  | .variableDecl _ (_ :: others) _ => others.forM fun other => complain (patternStart other)
  | _ => pure ()

/-- Reads a `for` statement. -/
def forStatement (g : Grammar) : Parser Stmt := do
  let start ← here
  advance
  let awaitStart ← here
  let awaits ← eatWord "await"
  let refuseAwait : Parser Unit := do if awaits then refuse awaitStart
  expect "("
  match ← declarationKind with
  | some kind =>
    let head ← variableDeclaration g kind true
    if ← atInOrOf then
      checkLoopDeclaration head
      if ← isWord "in" then refuseAwait
      let subject ← forEachSubject g
      let body ← loopBody g
      pure (.forEach head subject body (← spanFrom start))
    else
      expect ";"
      refuseAwait
      forRest g start (some head)
  | none =>
    if ← eat ";" then
      refuseAwait
      forRest g start none
    else
      let headStart ← here
      let head ← withReader
        (fun setting => { setting with allowIn := false, inLoopHead := !awaits }) g.expression
      if ← atInOrOf then
        let target ← asPattern .whole head
        if ← isWord "in" then refuseAwait
        let subject ← forEachSubject g
        let body ← loopBody g
        pure (.forEachTarget target subject body (← spanFrom start))
      else
        expect ";"
        refuseAwait
        forRest g start (some (.expression head (← spanFrom headStart)))

/-- Reads a condition in parentheses. -/
def condition (g : Grammar) : Parser Expr := do
  expect "("
  let test ← g.fullExpression
  expect ")"
  pure test

/-- Reads a `do` statement.  Its semicolon may be missing anywhere. -/
def doStatement (g : Grammar) : Parser Stmt := do
  let start ← here
  advance
  let body ← loopBody g
  expectWord "while"
  let test ← condition g
  discard (eat ";")
  pure (.doWhile body test (← spanFrom start))

/-! ## Branches and jumps -/

/-- Reads an `if` statement. -/
def ifStatement (g : Grammar) : Parser Stmt := do
  let start ← here
  advance
  let test ← condition g
  let yes ← g.statement false
  let no ← unlessAt (do pure !(← isWord "else")) do
    advance
    g.statement false
  pure (.ifElse test yes no (← spanFrom start))

/-- Reads a case of a switch.  Says whether it is the default one. -/
def switchCase (g : Grammar) (hasDefault : Bool) : Parser (Stmt × Bool) := do
  let isDefault ← eatWord "default"
  let test ←
    if isDefault then
      if hasDefault then unexpected
      pure none
    else
      expectWord "case"
      let test ← g.fullExpression
      pure (some test)
  expect ":"
  let stop : Parser Bool := do
    pure ((← isWord "case") || (← isWord "default") || (← isPunctuator "\x7d") || (← atEnd))
  let body ← repeatUntil stop (g.statement true)
  pure (.switchCase test body, isDefault)

/-- Reads the cases of a switch, of which at most one is the default one. -/
def switchCases (g : Grammar) : Nat → Bool → Parser (List Stmt)
  | 0, _ => unexpected
  | rounds + 1, hasDefault => do
    if (← isWord "case") || (← isWord "default") then
      let (first, isDefault) ← switchCase g hasDefault
      let rest ← switchCases g rounds (hasDefault || isDefault)
      pure (first :: rest)
    else pure []

/-- Reads a switch. -/
def switchStatement (g : Grammar) : Parser Stmt := do
  let start ← here
  advance
  let subject ← condition g
  expect "\x7b"
  let cases ← withReader (fun setting => { setting with allowBreak := true }) do
    switchCases g (← read).budget false
  expect "\x7d"
  pure (.switchOn subject cases (← spanFrom start))

/-- Reads a catch clause, if there is one. -/
def catchClause (g : Grammar) : Parser (List Stmt) := do
  let start ← here
  if ← eatWord "catch" then
    let param ← unlessAt (do pure !(← isPunctuator "(")) do
      advance
      let param ← g.bindingTarget
      expect ")"
      pure param
    let body ← block g
    pure [.catchClause param body (← spanFrom start)]
  else pure []

/-- Reads the block after `finally`, if there is one. -/
def finallyClause (g : Grammar) : Parser (List Stmt) := do
  if ← eatWord "finally" then
    let body ← block g
    pure [.block body]
  else pure []

/-- Reads a try statement, which needs a clause. -/
def tryStatement (g : Grammar) : Parser Stmt := do
  let start ← here
  advance
  let body ← block g
  let clauseStart ← here
  let handler ← catchClause g
  let cleanup ← finallyClause g
  let clauses := handler ++ cleanup
  if clauses.isEmpty then complain clauseStart
  pure (.tryCatch body clauses (← spanFrom start))

/-- Reads `break` or `continue`, for which there has to be a place to go to. -/
def jumpStatement (isBreak : Bool) : Parser Stmt := do
  let start ← here
  advance
  let label ← unlessAt eatSemicolon do
    let id ← identifier
    expectSemicolon
    pure id
  let setting ← read
  let known : Bool :=
    match label with
    | some id => setting.labels.contains id.name
    | none => true
  let allowed := if isBreak then label.isSome || setting.allowBreak else setting.allowContinue
  if !known || !allowed then complain start
  pure (.simple (← spanFrom start))

/-- Reads a return statement, which belongs into a function. -/
def returnStatement (g : Grammar) : Parser Stmt := do
  let start ← here
  advance
  let value ← unlessAt atSemicolon g.fullExpression
  expectSemicolon
  if !(← read).inFunction then complain start
  pure (.returns value (← spanFrom start))

/-- Reads a throw statement, whose value starts on the same line. -/
def throwStatement (g : Grammar) : Parser Stmt := do
  let start ← here
  advance
  if ← afterNewline then unexpected
  let value ← g.fullExpression
  expectSemicolon
  pure (.throws value (← spanFrom start))

/-! ## Declarations and expression statements -/

/-- Reads the declaration of a function. -/
def functionDeclaration (g : Grammar) (start : Nat) (isAsync : Bool) : Parser Stmt := do
  let (name, body) ← functionHead g start isAsync bindingIdentifier
  pure (.function name body)

/-- Reads the part of a class after its name, from `extends` on. -/
def classRest (g : Grammar) : Parser (Option Expr × List Member) := do
  let heritage ← unlessAt (do pure !(← isWord "extends")) do
    advance
    leftHandSide g (← read).budget
  let members ← classBody g
  pure (heritage, members)

/-- Reads the declaration of a class. -/
def classDeclaration (g : Grammar) : Parser Stmt := do
  let start ← here
  advance
  let name ← bindingIdentifier
  let (heritage, members) ← classRest g
  pure (.classDecl name heritage members (← spanFrom start))

/-- Reads a labelled statement after its colon. -/
def labelledStatement (g : Grammar) (label : Ident) : Parser Stmt := do
  if (← read).labels.contains label.name then complain label.span.start
  let body ← withReader
    (fun setting => { setting with allowBreak := true, labels := label.name :: setting.labels }) do
      if ← isWord "function" then complain (← here)
      g.statement (← isWord "function")
  pure (.labelled label body (← spanFrom label.span.start))

/-- Reads an expression as a statement, or a labelled statement. -/
def expressionStatement (g : Grammar) : Parser Stmt := do
  let start ← here
  let value ← g.fullExpression
  match value with
  | .ident label =>
    if ← eat ":" then return ← labelledStatement g label
  | _ => pure ()
  expectSemicolon
  pure (.expression value (← spanFrom start))

/-- Reads a statement that starts with `import`: an expression, after which even a missing
semicolon is allowed.  No import declaration may stand here. -/
def importExpressionStatement (g : Grammar) : Parser Stmt := do
  let start ← here
  match (← peek).token with
  | .punctuator "(" | .punctuator "." =>
    let value ← g.fullExpression
    discard (eat ";")
    pure (.expression value (← spanFrom start))
  | _ => refuse start

/-- Reads a statement that starts with a word. -/
def wordStatement (g : Grammar) (declarations : Bool) (name : String) : Parser Stmt := do
  let start ← here
  match name with
  | "break" => jumpStatement true
  | "continue" => jumpStatement false
  | "debugger" =>
    advance
    expectSemicolon
    pure (.simple (← spanFrom start))
  | "do" => doStatement g
  | "for" => forStatement g
  | "function" =>
    if !declarations then complain start
    functionDeclaration g start false
  | "class" =>
    if !declarations then complain start
    classDeclaration g
  | "if" => ifStatement g
  | "return" => returnStatement g
  | "switch" => switchStatement g
  | "throw" => throwStatement g
  | "try" => tryStatement g
  | "with" =>
    complain start
    advance
    let subject ← condition g
    let body ← g.statement false
    pure (.whileLoop subject body (← spanFrom start))
  | "while" =>
    advance
    let test ← condition g
    let body ← loopBody g
    pure (.whileLoop test body (← spanFrom start))
  | "import" => importExpressionStatement g
  | "async" =>
    let next ← peek
    if next.token == .word "function" false && !next.afterNewline then
      advance
      functionDeclaration g start true
    else expressionStatement g
  | _ =>
    match ← declarationKind with
    | some kind =>
      if kind == .varKind || declarations then variableDeclaration g kind false
      else expressionStatement g
    | none => expressionStatement g

/-- Reads a statement. -/
def statement (g : Grammar) (declarations : Bool) : Parser Stmt := do
  requireToken
  let start ← here
  let result ←
    match ← token with
    | .punctuator ";" =>
      advance
      pure (.simple (← spanFrom start))
    | .punctuator "\x7b" =>
      let body ← block g
      pure (.block body)
    | .word name false => wordStatement g declarations name
    | _ => expressionStatement g
  settlePending start
  pure result

/-! ## The knot -/

/-- The grammar for code that nests at most so deep. -/
def grammarOfDepth : Nat → Grammar
  | 0 =>
    { assignment := unexpected
      unary := unexpected
      statement := fun _ => unexpected
      bindingTarget := unexpected }
  | depth + 1 =>
    { assignment := fun setting state => assignment (grammarOfDepth depth) setting state
      unary := fun setting state => unary (grammarOfDepth depth) setting state
      statement := fun declarations setting state =>
        statement (grammarOfDepth depth) declarations setting state
      bindingTarget := fun setting state => bindingTarget (grammarOfDepth depth) setting state }

end Parser
end Script
end ScriptBundler
