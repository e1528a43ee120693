import ScriptBundler.Script.Tree

/-!
# Outlines of syntax trees

Analysis and renaming look at a few shapes of nodes only: functions, blocks, catch clauses,
declarations, writes, calls, and names.  The outline of a statement is the forest of these nodes,
in the order in which they are visited.

That order is the order of the source, with exceptions: the members of a class come before the
expression after `extends`, the test of a `do` statement before its body, and a computed key of a
method before the method.  Labels, property names, private names and the names of class
expressions are not in the outline; neither is the name of a named function expression, which its
function node carries.
-/

namespace ScriptBundler
namespace Script

/-- The form of a function. -/
inductive FunctionKind where
  | declaration
  | expression
  | arrow
  /-- A method, getter, setter or constructor. -/
  | method
deriving Repr, DecidableEq

/-- A shape of node that a walk reports. -/
inductive Node where
  | function (kind : FunctionKind) (name : Option Ident) (params : List Pattern) (span : Span)
  | block (span : Span)
  | catchClause (param : Option Pattern) (span : Span)
  | variableDecl (kind : VariableKind) (declarators : List Pattern) (span : Span)
  /-- A class declaration, by its name. -/
  | classDecl (name : Ident)
  | importDecl (source : String) (span : Span)
  | assign (operator : String) (target : Pattern) (span : Span)
  | update (operator : String) (operand : Expr) (span : Span)
  | call (arguments : List Expr) (span : Span)
  /-- An identifier that is bound or referred to. -/
  | ident (id : Ident)
  /-- `a` in the braces of an object literal or pattern, where it is both key and name. -/
  | shorthand (id : Ident)

/-- A node with the outline of its parts. -/
inductive Outline where
  | node (shape : Node) (parts : List Outline)

/-- A node without parts. -/
def Outline.leaf (shape : Node) : Outline :=
  .node shape []

mutual

/-- The outline of an expression. -/
def Expr.outline : Expr → List Outline
  | .ident id => [.leaf (.ident id)]
  | .atom _ | .hole => []
  | .spread value => value.outline
  | .paren inner _ => inner.outline
  | .array elements _ => Expr.outlines elements
  | .object members _ => Member.outlines members
  | .function name body => [body.outline .expression name]
  | .arrow body => [body.outline .arrow none]
  | .classExpr _ heritage members _ => Member.outlines members ++ Expr.optionOutline heritage
  | .member base key _ | .chainMember base key _ => base.outline ++ Expr.optionOutline key
  | .call callee arguments span =>
    [.node (.call arguments span) (callee.outline ++ Expr.outlines arguments)]
  | .new callee arguments _ | .chainCall callee arguments _ =>
    callee.outline ++ Expr.outlines arguments
  | .update operator operand span => [.node (.update operator operand span) operand.outline]
  | .assign operator target value span =>
    [.node (.assign operator target span) (target.outline ++ value.outline)]
  | .compound _ parts _ => Expr.outlines parts

/-- The outline of a list of expressions. -/
def Expr.outlines : List Expr → List Outline
  | [] => []
  | first :: rest => first.outline ++ Expr.outlines rest

/-- The outline of an expression that may be missing. -/
def Expr.optionOutline : Option Expr → List Outline
  | none => []
  | some value => value.outline

/-- The outline of a member of an object literal or class. -/
def Member.outline : Member → List Outline
  | .shorthand id => [.leaf (.shorthand id)]
  | .shorthandDefault id value => .leaf (.ident id) :: value.outline
  | .field key value => Expr.optionOutline key ++ Expr.optionOutline value
  | .method key body => Expr.optionOutline key ++ [body.outline .method none]
  | .spread value => value.outline
  | .staticBlock body => [body.outline]

/-- The outline of a list of members. -/
def Member.outlines : List Member → List Outline
  | [] => []
  | first :: rest => first.outline ++ Member.outlines rest

/-- The outline of a pattern. -/
def Pattern.outline : Pattern → List Outline
  | .ident id => [.leaf (.ident id)]
  | .hole => []
  | .array elements _ => Pattern.outlines elements
  | .object members _ => Pattern.outlines members
  | .shorthand id value => .leaf (.shorthand id) :: Expr.optionOutline value
  | .keyed key value => Expr.optionOutline key ++ value.outline
  | .rest inner _ => inner.outline
  | .withDefault inner value _ => inner.outline ++ value.outline
  | .target value => value.outline

/-- The outline of a list of patterns. -/
def Pattern.outlines : List Pattern → List Outline
  | [] => []
  | first :: others => first.outline ++ Pattern.outlines others

/-- The outline of a pattern that may be missing. -/
def Pattern.optionOutline : Option Pattern → List Outline
  | none => []
  | some target => target.outline

/-- The outline of a function of some form. -/
def Function.outline (kind : FunctionKind) (name : Option Ident) : Function → Outline
  | .block params body span =>
    .node (.function kind name params span) (Pattern.outlines params ++ [body.outline])
  | .value params value span =>
    .node (.function kind name params span) (Pattern.outlines params ++ value.outline)

/-- The outline of a block. -/
def Block.outline : Block → Outline
  | .mk body span => .node (.block span) (Stmt.outlines body)

/-- The outline of a statement. -/
def Stmt.outline : Stmt → List Outline
  | .simple _ => []
  | .expression value _ | .throws value _ => value.outline
  | .returns value _ => Expr.optionOutline value
  | .variableDecl kind declarators span =>
    [.node (.variableDecl kind declarators span) (Pattern.outlines declarators)]
  | .function name body => [.leaf (.ident name), body.outline .declaration (some name)]
  | .classDecl name heritage members _ =>
    [.leaf (.ident name),
      .node (.classDecl name) (Member.outlines members ++ Expr.optionOutline heritage)]
  | .block body => [body.outline]
  | .ifElse test yes no _ => test.outline ++ yes.outline ++ Stmt.optionOutline no
  | .forLoop head test update body _ =>
    Stmt.optionOutline head ++ Expr.optionOutline test ++ Expr.optionOutline update ++
      body.outline
  | .forEach head subject body _ => head.outline ++ subject.outline ++ body.outline
  | .forEachTarget target subject body _ => target.outline ++ subject.outline ++ body.outline
  | .whileLoop test body _ => test.outline ++ body.outline
  | .doWhile body test _ => test.outline ++ body.outline
  | .switchOn subject cases _ => subject.outline ++ Stmt.outlines cases
  | .switchCase test body => Expr.optionOutline test ++ Stmt.outlines body
  | .tryCatch body clauses _ => body.outline :: Stmt.outlines clauses
  | .catchClause param body span =>
    [.node (.catchClause param span) (Pattern.optionOutline param ++ [body.outline])]
  | .labelled _ body _ => body.outline

/-- The outline of a list of statements. -/
def Stmt.outlines : List Stmt → List Outline
  | [] => []
  | first :: rest => first.outline ++ Stmt.outlines rest

/-- The outline of a statement that may be missing. -/
def Stmt.optionOutline : Option Stmt → List Outline
  | none => []
  | some body => body.outline

end

namespace ImportSpecifier

/-- The name that an import binds. -/
def binding : ImportSpecifier → Ident
  | named _ id | byDefault id | everything id => id

end ImportSpecifier

/-- The outline of an export specifier of a list without a source: the name it refers to. -/
def ExportSpecifier.outline : ExportSpecifier → List Outline
  | named (.ident id) _ => [.leaf (.ident id)]
  | named (.quoted _) _ | everything _ => []

/-- The outline of a top-level statement.  An export list with a source refers to nothing in its
module. -/
def Item.outline (item : Item) : List Outline :=
  match item.form with
  | .statement body | .exportDecl body => body.outline
  | .importDecl specifiers source =>
    [.node (.importDecl source item.span)
      (specifiers.map fun specifier => .leaf (.ident specifier.binding))]
  | .exportDefaultFunction none body => [body.outline .expression none]
  | .exportDefaultFunction (some name) body =>
    [.leaf (.ident name), body.outline .declaration (some name)]
  | .exportDefaultClass none heritage members _ =>
    Member.outlines members ++ Expr.optionOutline heritage
  | .exportDefaultClass (some name) heritage members _ =>
    [.leaf (.ident name),
      .node (.classDecl name) (Member.outlines members ++ Expr.optionOutline heritage)]
  | .exportDefaultExpr value => value.outline
  | .exportList specifiers none => specifiers.flatMap (·.outline)
  | .exportList _ (some _) | .exportAll _ => []

end Script
end ScriptBundler
