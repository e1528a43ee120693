import ScriptBundler.Script.Names

/-!
# Declarations in an outline

The names that declarations bind, by the node that they are bound in.  A `let` binds in the nearest
function, block or catch clause; all other declarations are hoisted and bind in the nearest
function.  Parameters bind in their function or catch clause, and so does the name of a function
expression.
-/

namespace ScriptBundler
namespace Script

/-- Whether a node is a function. -/
def Node.isFunction : Node → Bool
  | .function _ _ _ _ => true
  | _ => false

/-- The names that a node itself declares in the nearest function. -/
def Node.hoists : Node → List String
  | .variableDecl .letKind _ _ => []
  | .variableDecl _ declarators _ => Pattern.bindingsOf declarators
  | .classDecl name => [name.name]
  | .function .declaration (some name) _ _ => [name.name]
  | _ => []

/-- The names that a node itself declares in the nearest function, block or catch clause. -/
def Node.lets : Node → List String
  | .variableDecl .letKind declarators _ => Pattern.bindingsOf declarators
  | _ => []

mutual

/-- The names that an outline declares in the function around it. -/
def Outline.hoisted : Outline → List String
  | .node shape parts => shape.hoists ++ if shape.isFunction then [] else Outline.hoistedOf parts

/-- The names that outlines declare in the function around them. -/
def Outline.hoistedOf : List Outline → List String
  | [] => []
  | first :: rest => first.hoisted ++ Outline.hoistedOf rest

end

mutual

/-- The names that an outline declares by `let` in the function, block or catch clause around it. -/
def Outline.lets : Outline → List String
  | .node shape parts =>
    shape.lets ++ if shape.scopeKey?.isSome then [] else Outline.letsOf parts

/-- The names that outlines declare by `let` in the function, block or catch clause around them. -/
def Outline.letsOf : List Outline → List String
  | [] => []
  | first :: rest => first.lets ++ Outline.letsOf rest

end

/-- The names that a function, block or catch clause declares, given its parts. -/
def Node.declared (parts : List Outline) : Node → List String
  | .function kind name params _ =>
    Pattern.bindingsOf params ++
      (if kind = .expression then name.toList.map (·.name) else []) ++ Outline.hoistedOf parts
  | .block _ => Outline.letsOf parts
  | .catchClause param _ => (param.map Pattern.bindings).getD [] ++ Outline.letsOf parts
  | _ => []

theorem Outline.letsOf_append (left right : List Outline) :
    letsOf (left ++ right) = letsOf left ++ letsOf right := by
  induction left with
  | nil => rfl
  | cons first rest ih => rw [List.cons_append, letsOf, letsOf, ih, List.append_assoc]

/-! ## Functions declare nothing by `let` -/

/-- Whether a node is an import declaration. -/
def Node.isImport : Node → Bool
  | .importDecl _ _ => true
  | _ => false

mutual

/-- Whether an outline is that of code: it has no import declaration, and no function in it has a
`let` that is not in a block or a catch clause. -/
def Outline.Plain : Outline → Prop
  | .node shape parts =>
    shape.isImport = false ∧ (shape.isFunction = true → Outline.letsOf parts = []) ∧
      Outline.PlainAll parts

/-- Whether outlines are those of code. -/
def Outline.PlainAll : List Outline → Prop
  | [] => True
  | first :: rest => first.Plain ∧ Outline.PlainAll rest

end

theorem Outline.plainAll_append {left right : List Outline} :
    PlainAll (left ++ right) ↔ PlainAll left ∧ PlainAll right := by
  induction left with
  | nil => simp [PlainAll]
  | cons first rest ih => rw [List.cons_append, PlainAll, PlainAll, ih, and_assoc]

open Outline

/-- Whether outlines are those of an expression: nothing in them is declared by `let` outside of a
block. -/
def Quiet (forest : List Outline) : Prop :=
  PlainAll forest ∧ letsOf forest = []

theorem Quiet.nil : Quiet [] := ⟨trivial, rfl⟩

theorem Quiet.append {left right : List Outline} (hleft : Quiet left) (hright : Quiet right) :
    Quiet (left ++ right) :=
  ⟨plainAll_append.mpr ⟨hleft.1, hright.1⟩, by rw [letsOf_append, hleft.2, hright.2]; rfl⟩

theorem Quiet.leaf_ident (id : Ident) : Quiet [.leaf (.ident id)] :=
  ⟨by simp [leaf, PlainAll, Plain, letsOf, Node.isImport], rfl⟩

theorem Quiet.leaf_shorthand (id : Ident) : Quiet [.leaf (.shorthand id)] :=
  ⟨by simp [leaf, PlainAll, Plain, letsOf, Node.isImport], rfl⟩

/-- A node that declares nothing by `let`, with quiet parts or with a block of its own. -/
theorem Quiet.node {shape : Node} {parts : List Outline} (hlets : shape.lets = [])
    (himport : shape.isImport = false) (hparts : Quiet parts) : Quiet [.node shape parts] := by
  refine ⟨⟨⟨himport, fun _ => hparts.2, hparts.1⟩, trivial⟩, ?_⟩
  simp [letsOf, Outline.lets, hlets, hparts.2]

theorem Quiet.block {span : Span} {parts : List Outline} (hparts : PlainAll parts) :
    Quiet [.node (.block span) parts] :=
  ⟨⟨⟨rfl, fun h => by contradiction, hparts⟩, trivial⟩, rfl⟩

mutual

theorem Expr.quiet : ∀ value : Expr, Quiet value.outline
  | .ident id => .leaf_ident id
  | .atom _ | .hole => .nil
  | .spread value | .paren value _ => value.quiet
  | .array elements _ | .compound _ elements _ => Expr.quiet_list elements
  | .object members _ => Member.quiet_list members
  | .function name body => body.quiet .expression name
  | .arrow body => body.quiet .arrow none
  | .classExpr _ heritage members _ =>
      (Member.quiet_list members).append (Expr.quiet_option heritage)
  | .member base key _ | .chainMember base key _ => base.quiet.append (Expr.quiet_option key)
  | .call callee arguments _ => .node rfl rfl (callee.quiet.append (Expr.quiet_list arguments))
  | .new callee arguments _ | .chainCall callee arguments _ =>
    callee.quiet.append (Expr.quiet_list arguments)
  | .update _ operand _ => .node rfl rfl operand.quiet
  | .assign _ target value _ => .node rfl rfl (target.quiet.append value.quiet)

theorem Expr.quiet_list : ∀ values : List Expr, Quiet (Expr.outlines values)
  | [] => .nil
  | first :: rest => first.quiet.append (Expr.quiet_list rest)

theorem Expr.quiet_option : ∀ value : Option Expr, Quiet (Expr.optionOutline value)
  | none => .nil
  | some value => value.quiet

theorem Member.quiet : ∀ member : Member, Quiet member.outline
  | .shorthand id => .leaf_shorthand id
  | .shorthandDefault id value => (Quiet.leaf_ident id).append value.quiet
  | .field key value => (Expr.quiet_option key).append (Expr.quiet_option value)
  | .method key body => (Expr.quiet_option key).append (body.quiet .method none)
  | .spread value => value.quiet
  | .staticBlock body => body.quiet

theorem Member.quiet_list : ∀ members : List Member, Quiet (Member.outlines members)
  | [] => .nil
  | first :: rest => first.quiet.append (Member.quiet_list rest)

theorem Pattern.quiet : ∀ target : Pattern, Quiet target.outline
  | .ident id => .leaf_ident id
  | .hole => .nil
  | .array elements _ | .object elements _ => Pattern.quiet_list elements
  | .shorthand id value => (Quiet.leaf_shorthand id).append (Expr.quiet_option value)
  | .keyed key value => (Expr.quiet_option key).append value.quiet
  | .rest inner _ => inner.quiet
  | .withDefault inner value _ => inner.quiet.append value.quiet
  | .target value => value.quiet

theorem Pattern.quiet_list : ∀ targets : List Pattern, Quiet (Pattern.outlines targets)
  | [] => .nil
  | first :: rest => first.quiet.append (Pattern.quiet_list rest)

theorem Function.quiet (kind : FunctionKind) (name : Option Ident) :
    ∀ body : Function, Quiet [body.outline kind name]
  | .block params body _ => .node rfl rfl ((Pattern.quiet_list params).append body.quiet)
  | .value params value _ => .node rfl rfl ((Pattern.quiet_list params).append value.quiet)

theorem Block.quiet : ∀ body : Block, Quiet [body.outline]
  | .mk body _ => .block (Stmt.plain_list body)

theorem Stmt.plain : ∀ body : Stmt, PlainAll body.outline
  | .simple _ => trivial
  | .expression value _ | .throws value _ => value.quiet.1
  | .returns value _ => (Expr.quiet_option value).1
  | .variableDecl kind declarators span =>
    ⟨⟨rfl, fun h => by contradiction, (Pattern.quiet_list declarators).1⟩, trivial⟩
  | .function name body => ⟨(Quiet.leaf_ident name).1.1, (body.quiet .declaration (some name)).1⟩
  | .classDecl name heritage members _ =>
    ⟨(Quiet.leaf_ident name).1.1, ⟨rfl, fun h => by contradiction,
      ((Member.quiet_list members).append (Expr.quiet_option heritage)).1⟩, trivial⟩
  | .block body => body.quiet.1
  | .ifElse test yes no _ =>
    plainAll_append.mpr ⟨plainAll_append.mpr ⟨test.quiet.1, yes.plain⟩, Stmt.plain_option no⟩
  | .forLoop head test update body _ =>
    plainAll_append.mpr ⟨plainAll_append.mpr ⟨plainAll_append.mpr
      ⟨Stmt.plain_option head, (Expr.quiet_option test).1⟩, (Expr.quiet_option update).1⟩,
      body.plain⟩
  | .forEach head subject body _ =>
    plainAll_append.mpr ⟨plainAll_append.mpr ⟨head.plain, subject.quiet.1⟩, body.plain⟩
  | .forEachTarget target subject body _ =>
    plainAll_append.mpr ⟨plainAll_append.mpr ⟨target.quiet.1, subject.quiet.1⟩, body.plain⟩
  | .whileLoop test body _ | .doWhile body test _ =>
    plainAll_append.mpr ⟨test.quiet.1, body.plain⟩
  | .switchOn subject cases _ => plainAll_append.mpr ⟨subject.quiet.1, Stmt.plain_list cases⟩
  | .switchCase test body => plainAll_append.mpr ⟨(Expr.quiet_option test).1, Stmt.plain_list body⟩
  | .tryCatch body clauses _ => ⟨body.quiet.1.1, Stmt.plain_list clauses⟩
  | .catchClause param body _ =>
    ⟨⟨rfl, fun h => by contradiction, ((Pattern.quiet_option param).append body.quiet).1⟩, trivial⟩
  | .labelled _ body _ => body.plain

theorem Stmt.plain_list : ∀ bodies : List Stmt, PlainAll (Stmt.outlines bodies)
  | [] => trivial
  | first :: rest => plainAll_append.mpr ⟨first.plain, Stmt.plain_list rest⟩

theorem Stmt.plain_option : ∀ body : Option Stmt, PlainAll (Stmt.optionOutline body)
  | none => trivial
  | some body => body.plain

theorem Pattern.quiet_option : ∀ target : Option Pattern, Quiet (Pattern.optionOutline target)
  | none => .nil
  | some target => target.quiet

end

theorem plainAll_leaves (ids : List Ident) :
    PlainAll (ids.map fun id => .leaf (.ident id)) := by
  induction ids with
  | nil => trivial
  | cons first rest ih => exact ⟨(Quiet.leaf_ident first).1.1, ih⟩

theorem plainAll_listed (specifiers : List ExportSpecifier) :
    PlainAll (specifiers.flatMap (·.outline)) := by
  induction specifiers with
  | nil => trivial
  | cons first rest ih =>
      refine plainAll_append.mpr ⟨?_, ih⟩
      rcases first with ⟨_ | _, _⟩ | _
      · exact (Quiet.leaf_ident _).1
      · trivial
      · trivial

/-- A top-level statement that imports nothing is code. -/
theorem Item.plain {item : Item}
    (hform : ∀ specifiers text, item.form ≠ .importDecl specifiers text) :
    PlainAll item.outline := by
  unfold Item.outline
  split
  · exact Stmt.plain _
  · exact Stmt.plain _
  · rename_i himport
    exact absurd himport (hform _ _)
  · exact (Function.quiet _ _ _).1
  · exact ⟨(Quiet.leaf_ident _).1.1, (Function.quiet _ _ _).1⟩
  · exact ((Member.quiet_list _).append (Expr.quiet_option _)).1
  · exact ⟨(Quiet.leaf_ident _).1.1, ⟨rfl, fun h => by contradiction,
      ((Member.quiet_list _).append (Expr.quiet_option _)).1⟩, trivial⟩
  · exact (Expr.quiet _).1
  · exact plainAll_listed _
  · trivial
  · trivial

/-- An import declaration is a node with the names that it binds. -/
theorem Item.outline_importDecl {item : Item} {specifiers : List ImportSpecifier} {text : String}
    (hform : item.form = .importDecl specifiers text) :
    ∃ parts, item.outline = [.node (.importDecl text item.span) parts] ∧ PlainAll parts := by
  refine ⟨_, by rw [Item.outline, hform], ?_⟩
  have hleaves := plainAll_leaves (specifiers.map ImportSpecifier.binding)
  rwa [List.map_map] at hleaves

end Script
end ScriptBundler
