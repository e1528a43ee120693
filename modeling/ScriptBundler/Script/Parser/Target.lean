import ScriptBundler.Script.Parser.Basic

/-!
# Reading expressions as patterns

Until an arrow or an `=` is seen, a parameter list or an assignment target looks like an
expression.  Here an expression that has been read already is turned into the pattern it spells,
or refused at the offset where it spells none.
-/

namespace ScriptBundler
namespace Script
namespace Parser

/-- Where a pattern stands. -/
inductive Role where
  /-- The whole left side of an assignment. -/
  | whole
  /-- Within the left side of an assignment. -/
  | element
  /-- A parameter, or within one. -/
  | binding
deriving Repr, DecidableEq

/-- Expressions that can be assigned to as they are. -/
def isSimpleTarget : Expr → Bool
  | .ident id => !isRestricted id.name
  | .member _ _ _ => true
  | .paren inner _ => isSimpleTarget inner
  | _ => false

mutual

/-- Refuses a pattern with parts that a declaration cannot bind. -/
def checkBinding : Pattern → Except Nat Unit
  | .ident id => if isRestricted id.name then throw id.span.start else pure ()
  | .hole => pure ()
  | .array elements _ => checkBindings elements
  | .object members _ => checkBindings members
  | .shorthand id _ => if isRestricted id.name then throw id.span.start else pure ()
  | .keyed _ value => checkBinding value
  | .rest inner _ => checkBinding inner
  | .withDefault inner _ _ => checkBinding inner
  | .target value => throw value.span.start

/-- Refuses a list of patterns of which one has parts that a declaration cannot bind. -/
def checkBindings : List Pattern → Except Nat Unit
  | [] => pure ()
  | first :: rest => do
    checkBinding first
    checkBindings rest

end

mutual

/-- The pattern that an expression spells.  `commas` lists the literals that end in a comma after
a spread. -/
def reinterpret (commas : List (Nat × Nat)) (role : Role) : Expr → Except Nat Pattern
  | .ident id =>
    if isRestricted id.name then throw id.span.start else pure (.ident id)
  | .array elements span => do
    match commas.lookup span.start with
    | some comma => throw comma
    | none => pure (.array (← reinterpretElements commas role elements) span)
  | .object members span => do
    match commas.lookup span.start with
    | some comma => throw comma
    | none => pure (.object (← reinterpretMembers commas role members) span)
  | .assign operator target value span => do
    if operator != "=" || role == .whole then throw span.start
    if role == .binding then checkBinding target
    pure (.withDefault target value span)
  | .member object key span =>
    if role == .binding then throw span.start else pure (.target (.member object key span))
  | .paren inner span =>
    if role == .binding || !isSimpleTarget inner then throw span.start
    else pure (.target (.paren inner span))
  | other => throw other.span.start

/-- The patterns that the elements of an array literal spell. -/
def reinterpretElements (commas : List (Nat × Nat)) (role : Role) :
    List Expr → Except Nat (List Pattern)
  | [] => pure []
  | .hole :: rest => do
    pure (.hole :: (← reinterpretElements commas role rest))
  | .spread value :: rest => do
    let inner ← reinterpret commas (if role == .binding then .binding else .element) value
    match inner, rest with
    | .withDefault _ _ span, _ => throw span.start
    | _, _ :: _ => throw value.span.start
    | inner, [] => pure [.rest inner value.span]
  | first :: rest => do
    let inner ← reinterpret commas (if role == .binding then .binding else .element) first
    pure (inner :: (← reinterpretElements commas role rest))

/-- The patterns that the members of an object literal spell. -/
def reinterpretMembers (commas : List (Nat × Nat)) (role : Role) :
    List Member → Except Nat (List Pattern)
  | [] => pure []
  | .shorthand id :: rest => do
    if role == .binding && isRestricted id.name then throw id.span.start
    pure (.shorthand id none :: (← reinterpretMembers commas role rest))
  | .shorthandDefault id value :: rest => do
    if role == .binding && isRestricted id.name then throw id.span.start
    pure (.shorthand id (some value) :: (← reinterpretMembers commas role rest))
  | .field key (some value) :: rest => do
    let inner ← reinterpret commas (if role == .binding then .binding else .element) value
    pure (.keyed key inner :: (← reinterpretMembers commas role rest))
  | .spread value :: rest => do
    let inner ← reinterpret commas (if role == .binding then .binding else .element) value
    match role, inner, rest with
    | _, .withDefault _ _ span, _ => throw span.start
    | _, _, _ :: _ => throw value.span.start
    | .binding, .ident id, [] => pure [.rest (.ident id) value.span]
    | .binding, _, [] => throw value.span.start
    | _, inner, [] => pure [.rest inner value.span]
  | .field _ none :: _ => throw 0
  | .method _ body :: _ => throw body.span.start
  | .staticBlock body :: _ => throw body.span.start

end

/-- Runs a check of something that has been read already. -/
def check (result : Except Nat α) : Parser α :=
  match result with
  | .ok value => pure value
  | .error offset => refuse offset

/-- Reads an expression as a pattern.  What was pending within it is settled. -/
def asPattern (role : Role) (value : Expr) : Parser Pattern := do
  let pattern ← check (reinterpret (← get).commas role value)
  let span := value.span
  modify fun state =>
    { state with pending := state.pending.filter fun at_ => at_ < span.start || span.stop ≤ at_ }
  pure pattern

/-- Reads the items of a parenthesised list as parameters. -/
def asParameters (items : List Expr) (comma : Option Nat) : Parser (List Pattern) := do
  match items.getLast?, comma with
  | some (.spread _), some comma => refuse comma
  | _, _ => pure ()
  let patterns ← check (reinterpretElements (← get).commas .binding items)
  modify fun state =>
    { state with
      pending := state.pending.filter fun at_ =>
        items.all fun item => at_ < item.span.start || item.span.stop ≤ at_ }
  pure patterns

/-- Refuses the operand of an update or of an assignment with an operator. -/
def checkSimpleTarget (value : Expr) : Parser Unit := do
  if !isSimpleTarget value then complain value.span.start

end Parser
end Script
end ScriptBundler
