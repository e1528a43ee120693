import ScriptBundler.Script.Parser.Grammar

/-!
# Expressions

Expressions by their levels: primary ones, accesses and calls, unary and binary operators,
conditionals and assignments; and classes, which occur as expressions and as declarations.
-/

namespace ScriptBundler
namespace Script
namespace Parser

/-- Reads the current token as an expression without parts. -/
def atom : Parser Expr := do
  let span := (← get).current.span
  advance
  pure (.atom span)

/-- Reads an element of an argument list or of an array literal. -/
def item (g : Grammar) : Parser Expr := do
  if ← eat "..." then return .spread (← g.value) else g.value

/-- Reads arguments in parentheses. -/
def arguments (g : Grammar) : Parser (List Expr) := do
  expect "("
  let (items, _) ← commaList ")" (item g)
  pure items

/-- Reads an array literal. -/
def arrayLiteral (g : Grammar) : Parser Expr := do
  let start ← here
  advance
  let elements ← repeatUntil (do pure ((← isPunctuator "]") || (← atEnd))) do
    if ← eat "," then pure .hole
    else
      let element ← item g
      if !(← isPunctuator "]") then
        let comma ← here
        expect ","
        match element with
        | .spread _ =>
          if ← isPunctuator "]" then
            modify fun state => { state with commas := (start, comma) :: state.commas }
        | _ => pure ()
      pure element
  expect "]"
  pure (.array elements (← spanFrom start))

/-! ## Object literals -/

/-- Reads a method that starts at `start`, from its parameters on. -/
def method (g : Grammar) (start : Nat) (key : KeyText) (isAsync isGenerator : Bool)
    (accessor : Accessor) : Parser Member := do
  let body ← functionRest g start isAsync isGenerator true accessor
  pure (.method key.computed body)

/-- Reads a member of an object literal. -/
def objectMember (g : Grammar) : Parser Member := do
  let start ← here
  if ← eat "..." then return .spread (← g.value)
  if ← eat "*" then
    let key ← propertyKey g false
    return ← method g start key false true .none
  let key ← propertyKey g false
  if ← eat ":" then
    let value ← g.value
    return .field key.computed (some value)
  if ← isPunctuator "(" then return ← method g start key false false .none
  match key.word with
  | none => unexpected
  | some id =>
    if (← isPunctuator "=") || (← isPunctuator ",") || (← isPunctuator "\x7d") then
      if isReserved id.name then complain id.span.start
      if ← eat "=" then
        modify fun state => { state with pending := id.span.start :: state.pending }
        let value ← g.value
        pure (.shorthandDefault id value)
      else pure (.shorthand id)
    else if id.name == "async" then
      let isGenerator ← eat "*"
      let key ← propertyKey g false
      method g start key true isGenerator .none
    else if id.name == "get" || id.name == "set" then
      let key ← propertyKey g false
      method g start key false false
        (if id.name == "get" then .getter key.start else .setter key.start)
    else unexpected

/-- Reads an object literal. -/
def objectLiteral (g : Grammar) : Parser Expr := do
  let start ← here
  advance
  let (members, comma) ← commaList "\x7d" (objectMember g)
  match members.getLast?, comma with
  | some (.spread _), some comma =>
    modify fun state => { state with commas := (start, comma) :: state.commas }
  | _, _ => pure ()
  pure (.object members (← spanFrom start))

/-! ## Templates and regular expressions -/

/-- Reads the rest of a template from a cursor within its text on. -/
def templateParts (g : Grammar) (opening : Nat) (tagged : Bool) : Nat → Cursor → Parser (List Expr)
  | 0, _ => unexpected
  | rounds + 1, cursor => do
    match scanTemplate cursor.rest cursor.offset none with
    | none => throw opening
    | some chunk =>
      match chunk.badEscape with
      | some bad => if !tagged then throw bad
      | none => pure ()
      resume opening chunk.cursor
      if chunk.last then pure []
      else
        let part ← g.fullExpression
        if !(← isPunctuator "\x7d") then unexpected
        let current := (← get).current
        let rest ← templateParts g opening tagged rounds ⟨current.rest, current.span.stop⟩
        pure (part :: rest)

/-- Reads a template and gives its substitutions. -/
def template (g : Grammar) (tagged : Bool) : Parser (List Expr) := do
  let current := (← get).current
  templateParts g current.span.start tagged (← read).budget ⟨current.rest, current.span.stop⟩

/-- Reads a regular expression at its opening slash. -/
def regularExpression : Parser Expr := do
  let current := (← get).current
  let start := current.span.start
  match scanRegExp (current.start.drop 1) (start + 1) with
  | none => throw start
  | some (valid, cursor) =>
    if !valid then complain start
    resume start cursor
    pure (.atom ⟨start, cursor.offset⟩)

/-! ## Classes -/

/-- Reads the first value of a class field, if there is one, and the end of the field. -/
def fieldRest (g : Grammar) (key : KeyText) : Parser Member := do
  if key.name == some "constructor" then refuse key.start
  let value ←
    if ← eat "=" then
      let value ← apart <| withReader (fun setting =>
        { setting with
          allowIn := true, inField := true, inAsync := false, inGenerator := false
          hasNewTarget := true, hasSuper := true }) g.assignment
      pure (some value)
    else pure none
  expectSemicolon
  pure (.field key.computed value)

/-- Whether a field without a first value ends here, by a token of its own. -/
def atFieldEnd : Parser Bool := do
  pure ((← isPunctuator "=") || (← isPunctuator "\x7d") || (← isPunctuator ";"))

/-- Reads a static block of a class. -/
def staticBlock (g : Grammar) : Parser Member := do
  let body ← apart <| withReader (fun setting =>
    { setting with
      inStaticBlock := true, inField := true, inFunction := false, inAsync := false
      inGenerator := false, hasNewTarget := true, hasSuper := true, allowBreak := false
      allowContinue := false, labels := [] }) (block g)
  pure (.staticBlock body)

/-- Reads a member of a class after `static`; also says whether it is the constructor. -/
def classMemberRest (g : Grammar) (start : Nat) (isStatic : Bool) : Parser (Member × Bool) := do
  if isStatic && (← isPunctuator "\x7b") then return (← staticBlock g, false)
  if ← eat "*" then
    let key ← propertyKey g true
    if !isStatic && key.name == some "constructor" then complain key.start
    return (← method g start key false true .none, false)
  let key ← propertyKey g true
  let isConstructor := !isStatic && key.name == some "constructor"
  if ← isPunctuator "(" then return (← method g start key false false .none, isConstructor)
  let word := key.word.map (·.name)
  let isAccessor := (word == some "get" || word == some "set") && !(← atFieldEnd)
    && !((← afterNewline) && (← isPunctuator "*"))
  if !isAccessor && ((← atFieldEnd) || (← atSemicolon)) then return (← fieldRest g key, false)
  if isAccessor then
    let named ← propertyKey g true
    if !isStatic && named.name == some "constructor" then complain key.start
    let accessor := if word == some "get" then Accessor.getter key.start else .setter key.start
    return (← method g start named false false accessor, false)
  if word == some "async" && !(← afterNewline) then
    let isGenerator ← eat "*"
    let named ← propertyKey g true
    if !isStatic && named.name == some "constructor" then refuse named.start
    return (← method g start named true isGenerator .none, false)
  unexpected

/-- Reads a member of a class; also says whether it is the constructor. -/
def classMember (g : Grammar) : Parser (Option (Member × Bool × Nat)) := do
  if ← eat ";" then return none
  let start ← here
  let wordStart ← here
  if ← eatWord "static" then
    let key : KeyText := ⟨none, none, some "static", wordStart⟩
    if ← isPunctuator "(" then return some (← method g start key false false .none, false, start)
    if ← atFieldEnd then return some (← fieldRest g key, false, start)
    let (member, isConstructor) ← classMemberRest g start true
    return some (member, isConstructor, start)
  let (member, isConstructor) ← classMemberRest g start false
  pure (some (member, isConstructor, start))

/-- Reads the members of a class in braces. -/
def classBody (g : Grammar) : Parser (List Member) := do
  expect "\x7b"
  let members ← repeatUntil (do pure ((← isPunctuator "\x7d") || (← atEnd))) (classMember g)
  expect "\x7d"
  let members := members.filterMap id
  ((members.filter (·.2.1)).drop 1).forM fun member => complain member.2.2
  pure (members.map (·.1))

/-! ## Parentheses and arrow functions -/

/-- Refuses an `await` or `yield` since an offset: parameters may not contain one. -/
def refuseSuspension (start : Nat) : Parser Unit := do
  match (← get).suspension with
  | some offset => if start ≤ offset then refuse offset
  | none => pure ()

/-- Reads from an opening parenthesis on: an expression, the parameters of an arrow function, or,
after `async`, the arguments of a call of that name. -/
def parenthesised (g : Grammar) (start : Nat) (mayBeArrow : Bool) (asyncName : Option Ident) :
    Parser Expr := do
  expect "("
  let first ← here
  let (items, comma) ← withIn (commaList ")" (item g))
  if ← isPunctuator "=>" then
    if (← afterNewline) || !mayBeArrow then unexpected
    advance
    refuseSuspension first
    let params ← asParameters items comma
    arrowRest g start asyncName.isSome params
  else
    match asyncName with
    | some id => pure (.call (.ident id) items (← spanFrom start))
    | none =>
      match comma with
      | some comma => refuse comma
      | none => pure ()
      items.forM fun value =>
        match value with
        | .spread value => refuse value.span.start
        | _ => pure ()
      let span ← spanFrom start
      match items with
      | [] => refuse start
      | [value] => pure (.paren value span)
      | values => pure (.paren (.compound .sequence values ⟨first, span.stop - 1⟩) span)

/-- Reads what starts with an identifier: a reference, or an arrow function. -/
def identifierOrArrow (g : Grammar) (start : Nat) (mayBeArrow : Bool) : Parser Expr := do
  let id ← identifier
  if mayBeArrow && !(← afterNewline) && (← isPunctuator "=>") then
    if isRestricted id.name then complain id.span.start
    advance
    arrowRest g start false [.ident id]
  else pure (.ident id)

/-- Reads what starts with `async`: a function, an arrow function, or a reference. -/
def asyncOrIdentifier (g : Grammar) (start : Nat) (mayBeArrow : Bool) : Parser Expr := do
  let next ← peek
  if next.token == .word "function" false && !next.afterNewline then
    advance
    let (name, body) ← functionHead g start true optionalName
    return .function name body
  if mayBeArrow && next.token == .punctuator "(" && !next.afterNewline then
    let id ← identifier
    return ← parenthesised g start mayBeArrow (some id)
  match next.token with
  | .word name _ =>
    if mayBeArrow && !next.afterNewline && !isReserved name then
      let id ← identifier
      if (← read).inLoopHead && name == "of" then
        let after ← peek
        if after.token != .punctuator "=>" then
          complain start
          return .ident id
      let param ← bindingIdentifier
      if ← afterNewline then unexpected
      expect "=>"
      arrowRest g start true [.ident param]
    else identifierOrArrow g start mayBeArrow
  | _ => identifierOrArrow g start mayBeArrow

/-! ## Primary expressions, accesses and calls -/

/-- Reads a list of accesses and calls on an expression that starts at `start`.  `calls` says
whether a call may occur, `chain` whether a `?.` has occurred. -/
def subscripts (g : Grammar) (start : Nat) (calls : Bool) : Nat → Bool → Expr → Parser Expr
  | 0, _, base => pure base
  | rounds + 1, chain, base => do
    let access (chain : Bool) (key : Option Expr) : Parser Expr := do
      let span ← spanFrom start
      subscripts g start calls rounds chain
        (if chain then .chainMember base key span else .member base key span)
    let fixed (chain : Bool) : Parser Expr := do
      if ← isPunctuator "#" then privateName else discard identifierName
      access chain none
    let computed (chain : Bool) : Parser Expr := do
      expect "["
      let key ← g.fullExpression
      expect "]"
      access chain (some key)
    let called (chain : Bool) : Parser Expr := do
      let items ← arguments g
      let span ← spanFrom start
      subscripts g start calls rounds chain
        (if chain then .chainCall base items span else .call base items span)
    match ← token with
    | .punctuator "." =>
      advance
      fixed chain
    | .punctuator "[" => computed chain
    | .punctuator "?." =>
      if !calls then unexpected
      advance
      match ← token with
      | .punctuator "(" => called true
      | .punctuator "[" => computed true
      | .punctuator "\x60" => unexpected
      | _ => fixed true
    | .punctuator "(" => if calls then called chain else pure base
    | .punctuator "\x60" =>
      if chain then unexpected
      let parts ← template g true
      let span ← spanFrom start
      subscripts g start calls rounds chain (.compound .taggedTemplate (base :: parts) span)
    | _ => pure base

/-- Reads accesses on an expression, and calls if `calls` allows them. -/
def withSubscripts (g : Grammar) (start : Nat) (calls : Bool) (base : Expr) : Parser Expr := do
  subscripts g start calls (← read).budget false base

/-- Reads a class expression. -/
def classExpression (g : Grammar) (lhs : Parser Expr) : Parser Expr := do
  let start ← here
  expectWord "class"
  let name ← optionalName
  let heritage ← if ← eatWord "extends" then pure (some (← lhs)) else pure none
  let members ← classBody g
  pure (.classExpr name heritage members (← spanFrom start))

/-- Reads a primary expression.  `lhs` reads the expression after `extends`. -/
def primary (g : Grammar) (lhs : Parser Expr) : Parser Expr := do
  requireToken
  let start ← here
  let mayBeArrow := (← read).arrowStart == some start
  match ← token with
  | .number | .quoted _ => atom
  | .punctuator "(" => parenthesised g start mayBeArrow none
  | .punctuator "[" => arrayLiteral g
  | .punctuator "\x7b" => objectLiteral g
  | .punctuator "\x60" =>
    let parts ← template g false
    pure (.compound .template parts (← spanFrom start))
  | .punctuator "/" | .punctuator "/=" => regularExpression
  | .punctuator "#" =>
    privateName
    if !((← isWord "in") && (← read).allowIn) then refuse start
    pure (.atom (← spanFrom start))
  | .word name escaped =>
    if name == "this" || name == "null" || name == "true" || name == "false" then atom
    else if name == "function" then
      let (name, body) ← functionHead g start false optionalName
      pure (.function name body)
    else if name == "class" then classExpression g lhs
    else if name == "async" && !escaped then asyncOrIdentifier g start mayBeArrow
    else if name == "let" || !isReserved name then identifierOrArrow g start mayBeArrow
    else refuse start
  | _ => refuse start

/-- Reads `super` before an access or a call. -/
def superReference : Parser Expr := do
  let start ← here
  if !(← read).hasSuper then refuse start
  let base ← atom
  match ← token with
  | .punctuator "." | .punctuator "[" | .punctuator "(" => pure base
  | _ => unexpected

/-- Reads `import` before arguments, or `import.meta`. -/
def importReference (calls : Bool) : Parser Expr := do
  let start ← here
  advance
  if ← eat "." then
    expectWord "meta"
    pure (.atom (← spanFrom start))
  else
    let span ← spanFrom start
    if !calls || !(← isPunctuator "(") then unexpected
    if (← peek).token == .punctuator ")" then unexpected
    pure (.atom span)

/-- Reads `new` with what it makes an instance of, or `new.target`. -/
def newExpression (g : Grammar) (lhs : Parser Expr) : Nat → Parser Expr
  | 0 => unexpected
  | rounds + 1 => do
    let start ← here
    advance
    if ← eat "." then
      expectWord "target"
      let setting ← read
      if !setting.hasNewTarget && !setting.inParameters then complain start
      return .atom (← spanFrom start)
    let calleeStart ← here
    let base ←
      if ← isWord "new" then newExpression g lhs rounds
      else if ← isWord "super" then superReference
      else if ← isWord "import" then importReference false
      else primary g lhs
    let callee ← withSubscripts g calleeStart false base
    let items ← if ← isPunctuator "(" then arguments g else pure []
    pure (.new callee items (← spanFrom start))

/-- Whether an expression is an arrow function, which neither takes part in a larger expression
nor is called. -/
def isArrow : Expr → Bool
  | .arrow _ => true
  | _ => false

/-- Reads what may stand on the left of an assignment. -/
def leftHandSide (g : Grammar) : Nat → Parser Expr
  | 0 => unexpected
  | depth + 1 => do
    let start ← here
    let lhs := leftHandSide g depth
    let base ←
      if ← isWord "super" then superReference
      else if ← isWord "import" then importReference true
      else if ← isWord "new" then newExpression g lhs (← read).budget
      else primary g lhs
    if isArrow base then pure base else withSubscripts g start true base

/-! ## Operators -/

/-- Reads an expression from a unary operator on, or without any. -/
def unary (g : Grammar) : Parser Expr := do
  let start ← here
  let simple (operator : String) : Parser Expr := do
    advance
    let operand ← g.unary
    match operator, operand with
    | "delete", .ident id => complain id.span.start
    | _, _ => pure ()
    pure (.compound (.unary operator) [operand] (← spanFrom start))
  let increment (operator : String) : Parser Expr := do
    advance
    let operand ← g.unary
    checkSimpleTarget operand
    pure (.update operator operand (← spanFrom start))
  match ← token with
  | .punctuator "++" => increment "++"
  | .punctuator "--" => increment "--"
  | .punctuator "+" => simple "+"
  | .punctuator "-" => simple "-"
  | .punctuator "!" => simple "!"
  | .punctuator "~" => simple "~"
  | .word "delete" _ => simple "delete"
  | .word "void" _ => simple "void"
  | .word "typeof" _ => simple "typeof"
  | .word "await" _ =>
    let setting ← read
    advance
    if setting.inStaticBlock || (setting.inParameters && !setting.inFunction)
        || (!setting.inAsync && (setting.inFunction || setting.inField)) then
      complain start
    modify fun state => { state with suspension := some start }
    if (← isPunctuator ")") || (← isPunctuator "]") then refuse start
    let operand ← g.unary
    pure (.compound .await [operand] (← spanFrom start))
  | _ =>
    let operand ← leftHandSide g (← read).budget
    if isArrow operand || (← afterNewline) then pure operand
    else if ← isPunctuator "++" then
      checkSimpleTarget operand
      advance
      pure (.update "++" operand (← spanFrom start))
    else if ← isPunctuator "--" then
      checkSimpleTarget operand
      advance
      pure (.update "--" operand (← spanFrom start))
    else pure operand

/-- How tightly a binary operator binds; none if the text is no binary operator. -/
def precedence (operator : String) : Option Nat :=
  [("??", 1), ("||", 1), ("&&", 2), ("|", 3), ("^", 4), ("&", 5), ("==", 6), ("!=", 6),
   ("===", 6), ("!==", 6), ("<", 7), (">", 7), ("<=", 7), (">=", 7), ("in", 7),
   ("instanceof", 7), ("<<", 8), (">>", 8), (">>>", 8), ("+", 9), ("-", 9), ("*", 10),
   ("/", 10), ("%", 10), ("**", 11)].lookup operator

/-- The binary operator that the current token is. -/
def binaryOperator : Parser (Option (String × Nat)) := do
  let allowIn := (← read).allowIn
  let operator? : Option String :=
    match ← token with
    | .punctuator text => some text
    | .word "in" false => if allowIn then some "in" else none
    | .word "instanceof" false => some "instanceof"
    | _ => none
  pure do
    let operator ← operator?
    let level ← precedence operator
    pure (operator, level)

/-- Notes a fault if an operand may not stand beside an operator without parentheses. -/
def checkOperand (operator : String) (left : Bool) (operand : Expr) : Parser Unit :=
  match operator, operand with
  | "**", .compound (.unary _) _ span | "**", .compound .await _ span =>
    if left then complain span.start else pure ()
  | "??", .compound (.binary "||") _ span | "??", .compound (.binary "&&") _ span
  | "||", .compound (.binary "??") _ span | "&&", .compound (.binary "??") _ span =>
    complain span.start
  | _, _ => pure ()

/-- Reads the operators after a left operand that bind tighter than a level. -/
def binaryRest (g : Grammar) (start : Nat) : Nat → Nat → Expr → Parser Expr
  | 0, _, left => pure left
  | rounds + 1, level, left => do
    match ← binaryOperator with
    | none => pure left
    | some (operator, binding) =>
      if binding ≤ level then pure left
      else
        checkOperand operator true left
        advance
        let rightStart ← here
        let operand ← g.unary
        if isArrow operand then refuse rightStart
        let rightLevel := if operator == "**" then binding - 1 else binding
        let right ← binaryRest g rightStart rounds rightLevel operand
        checkOperand operator false right
        binaryRest g start rounds level
          (.compound (.binary operator) [left, right] (← spanFrom start))

/-- Reads an expression of binary operators. -/
def binary (g : Grammar) : Parser Expr := do
  let start ← here
  let left ← g.unary
  if isArrow left then pure left else binaryRest g start (← read).budget 0 left

/-- Reads a conditional expression. -/
def conditional (g : Grammar) : Parser Expr := do
  let start ← here
  let test ← binary g
  if isArrow test then pure test
  else if ← eat "?" then
    let yes ← g.value
    expect ":"
    let no ← g.assignment
    pure (.compound .conditional [test, yes, no] (← spanFrom start))
  else pure test

/-- Whether a token can start an expression after `yield`. -/
def startsOperand : Token → Bool
  | .punctuator text => ["(", "[", "\x7b", "!", "~", "+", "-", "++", "--", "/", "/=", "\x60",
      "#"].contains text
  | .word name _ => name != "in" && name != "instanceof"
  | .number | .quoted _ => true
  | .invalid _ => true
  | .finish => false

/-- Reads a `yield` in a generator. -/
def yieldExpression (g : Grammar) : Parser Expr := do
  let start ← here
  advance
  let setting ← read
  if setting.inParameters && !setting.inFunction then refuse start
  modify fun state => { state with suspension := some start }
  if ← atSemicolon then return .compound .yield [] (← spanFrom start)
  if ← eat "*" then
    let operand ← g.assignment
    return .compound .yield [operand] (← spanFrom start)
  if startsOperand (← token) then
    let operand ← g.assignment
    return .compound .yield [operand] (← spanFrom start)
  pure (.compound .yield [] (← spanFrom start))

/-- The assignment operators other than `=`. -/
def assignmentOperators : List String :=
  ["+=", "-=", "*=", "/=", "%=", "**=", "<<=", ">>=", ">>>=", "&=", "|=", "^=", "&&=", "||=",
   "??="]

/-- Whether an expression can never stand on the left of an assignment, so that an assignment
operator after it is not looked for. -/
def isOperation : Expr → Bool
  | .update _ _ _ | .compound (.unary _) _ _ | .compound (.binary _) _ _
  | .compound .conditional _ _ => true
  | _ => false

/-- Reads an expression without a comma at its top. -/
def assignment (g : Grammar) : Parser Expr := do
  if (← read).inGenerator && (← isWord "yield") then yieldExpression g
  else
    requireToken
    let start ← here
    let left ← withReader (fun setting => { setting with arrowStart := some start })
      (conditional g)
    if isOperation left then pure left
    else
      match ← token with
      | .punctuator "=" =>
        let target ← asPattern .whole left
        advance
        let value ← g.assignment
        pure (.assign "=" target value (← spanFrom start))
      | .punctuator operator =>
        if assignmentOperators.contains operator then
          checkSimpleTarget left
          let target : Pattern :=
            match left with
            | .ident id => .ident id
            | left => .target left
          advance
          let value ← g.assignment
          pure (.assign operator target value (← spanFrom start))
        else pure left
      | _ => pure left

end Parser
end Script
end ScriptBundler
