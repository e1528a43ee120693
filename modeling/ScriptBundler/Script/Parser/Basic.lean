import ScriptBundler.Script.Token

/-!
# Reading token by token

The state of the parser, what the surrounding code allows, and the steps that every part of the
grammar is made of.

A fault is the byte offset that a syntax error is reported at.  Some faults do not stop the
parser: they are noted, and reported only if no fault stops it later.  The first one noted wins.
-/

namespace ScriptBundler
namespace Script
namespace Parser

/-- What the code around the current token allows. -/
structure Setting where
  /-- A bound on the number of rounds of any loop of the parser: the length of the source. -/
  budget : Nat
  /-- Whether `in` is an operator here. -/
  allowIn : Bool
  inFunction : Bool
  inAsync : Bool
  inGenerator : Bool
  inParameters : Bool
  inStaticBlock : Bool
  /-- Whether this is the first value of a class field, where `arguments` is refused. -/
  inField : Bool
  /-- Whether `new.target` means something here. -/
  hasNewTarget : Bool
  /-- Whether `super` means something here. -/
  hasSuper : Bool
  allowBreak : Bool
  allowContinue : Bool
  /-- The labels of the statements around the token. -/
  labels : List String
  /-- Where an arrow function may start: the start of the assignment expression being read. -/
  arrowStart : Option Nat
  /-- Whether this is the head of a `for` that does not await. -/
  inLoopHead : Bool

/-- The setting at the top level of a module. -/
def Setting.top (budget : Nat) : Setting :=
  { budget, allowIn := true, inFunction := false, inAsync := false, inGenerator := false
    inParameters := false, inStaticBlock := false, inField := false, hasNewTarget := false
    hasSuper := false, allowBreak := false, allowContinue := false, labels := []
    arrowStart := none, inLoopHead := false }

/-- How far the parser has got. -/
structure State where
  current : Lexeme
  /-- The extent of the token before the current one. -/
  previous : Span
  /-- The comments before the current token, in reverse order. -/
  comments : List Comment
  /-- The first fault that did not stop the parser. -/
  fault : Option Nat
  /-- Where object literals hold `a = 1` and have not been read as a pattern yet. -/
  pending : List Nat
  /-- Array and object literals with a comma after a last spread: their starts, and the comma. -/
  commas : List (Nat × Nat)
  /-- The last `await` or `yield` of the function being read. -/
  suspension : Option Nat

end Parser

/-- A step of the parser. -/
abbrev Parser := ReaderT Parser.Setting (StateT Parser.State (Except Nat))

namespace Parser

/-- The state before the first token of a source. -/
def State.ofSource (source : List Char) : State :=
  let first := nextLexeme (Cursor.ofSource source) true
  { current := first, previous := ⟨0, 0⟩, comments := first.comments.reverse
    fault := first.legacyComment, pending := [], commas := [], suspension := none }

/-- Moves to the token after a cursor, where the text before it started at `start`. -/
def resume (start : Nat) (cursor : Cursor) : Parser Unit :=
  modify fun state =>
    let next := nextLexeme cursor false
    { state with
      current := next
      previous := ⟨start, cursor.offset⟩
      comments := next.comments.reverse ++ state.comments
      fault := state.fault.or next.legacyComment }

/-- Moves to the next token. -/
def advance : Parser Unit := do
  let current := (← get).current
  resume current.span.start ⟨current.rest, current.span.stop⟩

/-- The current token. -/
def token : Parser Token :=
  return (← get).current.token

/-- The offset of the current token. -/
def here : Parser Nat :=
  return (← get).current.span.start

/-- The end of the token before the current one. -/
def lastEnd : Parser Nat :=
  return (← get).previous.stop

/-- The extent from an offset to the end of the token before the current one. -/
def spanFrom (start : Nat) : Parser Span :=
  return ⟨start, ← lastEnd⟩

/-- The token after the current one. -/
def peek : Parser Lexeme := do
  let current := (← get).current
  pure (nextLexeme ⟨current.rest, current.span.stop⟩ false)

/-- Whether a line ends before the current token. -/
def afterNewline : Parser Bool :=
  return (← get).current.afterNewline

/-- Stops the parser at an offset, unless the current token is malformed itself. -/
def refuse (offset : Nat) : Parser α := do
  match ← token with
  | .invalid fault => throw fault
  | _ => throw offset

/-- Stops the parser at the current token; at the end of the source, at the token before. -/
def unexpected : Parser α := do
  match ← token with
  | .finish => throw (← get).previous.start
  | _ => refuse (← here)

/-- Stops the parser at the end of the source or at a malformed token. -/
def requireToken : Parser Unit := do
  match ← token with
  | .finish => throw (← lastEnd)
  | .invalid fault => throw fault
  | _ => pure ()

/-- Notes a fault and goes on. -/
def complain (offset : Nat) : Parser Unit :=
  modify fun state => { state with fault := state.fault.or (some offset) }

/-- Whether the current token is a punctuator. -/
def isPunctuator (text : String) : Parser Bool :=
  return (← token) == .punctuator text

/-- Whether the current token is a word, written without escapes. -/
def isWord (name : String) : Parser Bool :=
  return (← token) == .word name false

/-- Whether the source ends here. -/
def atEnd : Parser Bool :=
  return (← token) == .finish

/-- Skips a punctuator if it is the current token. -/
def eat (text : String) : Parser Bool := do
  if ← isPunctuator text then
    advance
    pure true
  else pure false

/-- Skips a word if it is the current token. -/
def eatWord (name : String) : Parser Bool := do
  if ← isWord name then
    advance
    pure true
  else pure false

/-- Skips a punctuator that has to stand here. -/
def expect (text : String) : Parser Unit := do
  if !(← eat text) then unexpected

/-- Skips a word that has to stand here. -/
def expectWord (name : String) : Parser Unit := do
  if !(← eatWord name) then unexpected

/-- Whether a statement may end here: at a semicolon, or where one is inserted. -/
def atSemicolon : Parser Bool := do
  match ← token with
  | .punctuator ";" | .punctuator "\x7d" | .finish => pure true
  | _ => afterNewline

/-- Skips a semicolon, or inserts one where that is possible. -/
def eatSemicolon : Parser Bool := do
  if ← eat ";" then pure true else atSemicolon

/-- Ends a statement. -/
def expectSemicolon : Parser Unit := do
  if !(← eatSemicolon) then unexpected

/-- Repeats a step until a condition holds. -/
def repeatUntil (stop : Parser Bool) (step : Parser α) : Parser (List α) := do
  loop (← read).budget
where
  /-- At most `rounds` more repetitions. -/
  loop : Nat → Parser (List α)
    | 0 => unexpected
    | rounds + 1 => do
      if ← stop then pure []
      else
        let first ← step
        let rest ← loop rounds
        pure (first :: rest)

/-- Reads a list whose elements are separated by commas, up to and with a closing punctuator.
Gives the place of a comma after the last element, too. -/
def commaList (close : String) (step : Parser α) : Parser (List α × Option Nat) := do
  let elements ← repeatUntil (do pure ((← isPunctuator close) || (← atEnd))) do
    let element ← step
    if ← isPunctuator close then pure (element, none)
    else
      let comma ← here
      expect ","
      pure (element, some comma)
  expect close
  pure (elements.map (·.1), (elements.getLast?.bind (·.2)))

/-- Names that strict code neither binds nor assigns to. -/
def isRestricted (name : String) : Bool :=
  name == "eval" || name == "arguments"

/-- Words that strict code refuses as identifiers, although the parser goes on after them. -/
def isFutureWord (name : String) : Bool :=
  ["enum", "implements", "interface", "let", "package", "private", "protected", "public",
    "static", "yield"].contains name

/-- Reads an identifier: the name of a binding, a reference or a label. -/
def identifier : Parser Ident := do
  requireToken
  match ← token with
  | .word name _ =>
    let span := (← get).current.span
    if isFutureWord name then complain span.start
    else if isReserved name then refuse span.start
    if name == "arguments" && (← read).inField then refuse span.start
    advance
    pure ⟨name, span⟩
  | _ => unexpected

/-- Reads the name of a binding. -/
def bindingIdentifier : Parser Ident := do
  let id ← identifier
  if isRestricted id.name then complain id.span.start
  pure id

/-- Reads a name after a dot, which may be any word. -/
def identifierName : Parser Ident := do
  requireToken
  match ← token with
  | .word name _ =>
    let span := (← get).current.span
    advance
    pure ⟨name, span⟩
  | _ => unexpected

/-- Reads the name after `#`. -/
def privateName : Parser Unit := do
  expect "#"
  let start ← here
  let gap := (← get).previous.stop != start
  let id ← identifierName
  if gap || id.name == "constructor" then refuse start

/-- Notes a fault for each `a = 1` of an object literal from an offset on that has not been read
as a pattern. -/
def settlePending (start : Nat) : Parser Unit := do
  let (own, others) := (← get).pending.partition (start ≤ ·)
  modify fun state => { state with pending := others }
  own.reverse.forM complain

end Parser
end Script
end ScriptBundler
