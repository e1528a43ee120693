import ScriptBundler.Text.Bytes

/-!
# Syntax trees of modules

The tree of one module as the parser builds it.  A tree keeps what later passes read: names
with their byte spans, the spans of statements, functions, blocks and catch clauses, and the
order of subexpressions.  Constructs without parts of interest, such as literals, `this` and
`import.meta`, are all atoms.

A pattern is what is bound or assigned to: the left side of a declaration, a parameter, or the
target of an assignment.
-/

namespace ScriptBundler
namespace Script

/-- A range of bytes, from `start` up to but without `stop`. -/
structure Span where
  start : Nat
  stop : Nat
deriving Repr, DecidableEq, Inhabited

/-- A name at a place in the source.  Escapes in the name are decoded. -/
structure Ident where
  name : String
  span : Span
deriving Repr, DecidableEq, Inhabited

/-- The keyword that opens a variable declaration. -/
inductive VariableKind where
  | varKind
  | letKind
  | constKind
deriving Repr, DecidableEq, Inhabited

/-- The operation that a compound expression applies to its parts. -/
inductive Operation where
  | unary (operator : String)
  | binary (operator : String)
  | await
  | yield
  | conditional
  | sequence
  | template
  | taggedTemplate
deriving Repr, DecidableEq, Inhabited

mutual

/-- An expression.  Two forms occur only in lists: a `hole` in an array literal, and a `spread`
in an array literal or an argument list. -/
inductive Expr where
  | ident (id : Ident)
  /-- A literal, `this`, `super`, `import`, a private name or a meta property. -/
  | atom (span : Span)
  | hole
  | spread (value : Expr)
  | paren (inner : Expr) (span : Span)
  | array (elements : List Expr) (span : Span)
  | object (members : List Member) (span : Span)
  | function (name : Option Ident) (body : Function)
  | arrow (body : Function)
  | classExpr (name : Option Ident) (heritage : Option Expr) (members : List Member) (span : Span)
  /-- Property access; the key has parts only if it is computed. -/
  | member (object : Expr) (key : Option Expr) (span : Span)
  | call (callee : Expr) (arguments : List Expr) (span : Span)
  | new (callee : Expr) (arguments : List Expr) (span : Span)
  /-- Property access at or after the `?.` of an optional chain. -/
  | chainMember (object : Expr) (key : Option Expr) (span : Span)
  /-- A call at or after the `?.` of an optional chain. -/
  | chainCall (callee : Expr) (arguments : List Expr) (span : Span)
  | update (operator : String) (operand : Expr) (span : Span)
  | assign (operator : String) (target : Pattern) (value : Expr) (span : Span)
  | compound (operation : Operation) (parts : List Expr) (span : Span)

/-- A member of an object literal or of a class.  A key has parts only if it is computed. -/
inductive Member where
  | shorthand (id : Ident)
  /-- `a = 1`, which is legal only where an object literal is read as a pattern. -/
  | shorthandDefault (id : Ident) (value : Expr)
  /-- A property of an object literal, or a field of a class. -/
  | field (key : Option Expr) (value : Option Expr)
  /-- A method, getter, setter or constructor. -/
  | method (key : Option Expr) (body : Function)
  | spread (value : Expr)
  | staticBlock (body : Block)

/-- What is bound or assigned to.  A `hole` occurs only in an array pattern; `shorthand` and
`keyed` only in an object pattern. -/
inductive Pattern where
  | ident (id : Ident)
  | hole
  | array (elements : List Pattern) (span : Span)
  | object (members : List Pattern) (span : Span)
  | shorthand (id : Ident) (value : Option Expr)
  | keyed (key : Option Expr) (value : Pattern)
  | rest (inner : Pattern) (span : Span)
  | withDefault (inner : Pattern) (value : Expr) (span : Span)
  /-- A property access or a parenthesised target of an assignment. -/
  | target (value : Expr)

/-- The parameters, body and extent of a function, a method or an arrow function. -/
inductive Function where
  | block (params : List Pattern) (body : Block) (span : Span)
  /-- An arrow function whose body is an expression. -/
  | value (params : List Pattern) (value : Expr) (span : Span)

/-- Statements in braces. -/
inductive Block where
  | mk (body : List Stmt) (span : Span)

/-- A statement or declaration.  A declarator with a first value is a pattern with a default.
Three forms occur only as parts: `switchCase`, `catchClause`, and the head of a loop. -/
inductive Stmt where
  /-- A statement without parts: empty, `debugger`, `break` or `continue`. -/
  | simple (span : Span)
  | expression (value : Expr) (span : Span)
  | returns (value : Option Expr) (span : Span)
  | throws (value : Expr) (span : Span)
  | variableDecl (kind : VariableKind) (declarators : List Pattern) (span : Span)
  | function (name : Ident) (body : Function)
  | classDecl (name : Ident) (heritage : Option Expr) (members : List Member) (span : Span)
  | block (body : Block)
  | ifElse (test : Expr) (yes : Stmt) (no : Option Stmt) (span : Span)
  | forLoop (head : Option Stmt) (test update : Option Expr) (body : Stmt) (span : Span)
  /-- `for .. in` or `for .. of` with a declaration in its head. -/
  | forEach (head : Stmt) (subject : Expr) (body : Stmt) (span : Span)
  /-- `for .. in` or `for .. of` that assigns to a target. -/
  | forEachTarget (target : Pattern) (subject : Expr) (body : Stmt) (span : Span)
  | whileLoop (test : Expr) (body : Stmt) (span : Span)
  | doWhile (body : Stmt) (test : Expr) (span : Span)
  | switchOn (subject : Expr) (cases : List Stmt) (span : Span)
  /-- A `case` with its test, or the `default` case. -/
  | switchCase (test : Option Expr) (body : List Stmt)
  /-- The clauses are a catch clause, the block of `finally`, or both. -/
  | tryCatch (body : Block) (clauses : List Stmt) (span : Span)
  | catchClause (param : Option Pattern) (body : Block) (span : Span)
  | labelled (label : Ident) (body : Stmt) (span : Span)

end

instance : Inhabited Expr := ⟨.hole⟩
instance : Inhabited Stmt := ⟨.simple default⟩
instance : Inhabited Pattern := ⟨.hole⟩

namespace Function

/-- The parameters of a function. -/
def params : Function → List Pattern
  | block params _ _ | value params _ _ => params

/-- The extent of a function. -/
def span : Function → Span
  | block _ _ span | value _ _ span => span

end Function

/-- The extent of a block, braces included. -/
def Block.span : Block → Span
  | mk _ span => span

/-- The extent of an expression; a hole has none. -/
def Expr.span : Expr → Span
  | ident id => id.span
  | hole => default
  | spread value => value.span
  | atom span | paren _ span | array _ span | object _ span | classExpr _ _ _ span
  | member _ _ span | call _ _ span | new _ _ span | chainMember _ _ span | chainCall _ _ span
  | update _ _ span | assign _ _ _ span | compound _ _ span => span
  | function _ body | arrow body => body.span

/-- The extent of a statement; a case of a switch has none. -/
def Stmt.span : Stmt → Span
  | switchCase _ _ => default
  | simple span | expression _ span | returns _ span | throws _ span | variableDecl _ _ span
  | classDecl _ _ _ span | ifElse _ _ _ span | forLoop _ _ _ _ span | forEach _ _ _ span
  | forEachTarget _ _ _ span | whileLoop _ _ span | doWhile _ _ span | switchOn _ _ span
  | tryCatch _ _ span | catchClause _ _ span | labelled _ _ span => span
  | function _ body => body.span
  | block body => body.span

/-- The name under which a module exports or another module imports: an identifier, or any
text in quotes. -/
inductive ModuleName where
  | ident (id : Ident)
  | quoted (text : String)
deriving Repr

/-- The name as text. -/
def ModuleName.text : ModuleName → String
  | ident id => id.name
  | quoted text => text

/-- One name of an import declaration. -/
inductive ImportSpecifier where
  /-- `{ a }` or `{ a as b }`. -/
  | named (imported : Option ModuleName) (id : Ident)
  /-- The default import. -/
  | byDefault (id : Ident)
  /-- `* as a`. -/
  | everything (id : Ident)

/-- One name of an export list. -/
inductive ExportSpecifier where
  /-- `a` or `a as b`. -/
  | named (source : ModuleName) (exported : Option ModuleName)
  /-- `* as a`, which only occurs with a source. -/
  | everything (exported : ModuleName)

/-- What stands at the top level of a module. -/
inductive ItemForm where
  | statement (body : Stmt)
  | importDecl (specifiers : List ImportSpecifier) (source : String)
  /-- `export` before a variable, function or class declaration. -/
  | exportDecl (declaration : Stmt)
  | exportDefaultFunction (name : Option Ident) (body : Function)
  | exportDefaultClass (name : Option Ident) (heritage : Option Expr) (members : List Member)
      (span : Span)
  | exportDefaultExpr (value : Expr)
  /-- `export { .. }` or `export * as a`, with a source if one is written. -/
  | exportList (specifiers : List ExportSpecifier) (source : Option String)
  /-- `export *`. -/
  | exportAll (source : String)

/-- A top-level statement with its extent, from its first token to its last. -/
structure Item where
  form : ItemForm
  span : Span

/-- A comment with its extent. -/
structure Comment where
  block : Bool
  span : Span
deriving Repr, DecidableEq

/-- A parsed module: its top-level statements, and its comments in source order. -/
structure Tree where
  items : List Item
  comments : List Comment

end Script
end ScriptBundler
