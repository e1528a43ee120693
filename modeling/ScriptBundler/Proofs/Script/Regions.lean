import ScriptBundler.Proofs.Module.FreeNames

/-!
# Regions of the language

The outline of a statement shows the functions, blocks and catch clauses in it.  The language has
more regions in which names are bound: a loop binds what `let` declares in its head, the cases of a
`switch` bind what `let` declares in them, and a class expression binds its own name.  The layout of
a statement is its outline with these regions.

Of a layout the names are looked up twice: where the language binds them, and where the outline
does.  Declarations other than `let` bind in the nearest function in both, a function with its
parameters being one region.
-/

namespace ScriptBundler
namespace Script

/-- A node, or a region that outlines do not show. -/
inductive Region where
  | node (shape : Node)
  /-- A loop with a head; if it declares nothing, it may assign to a target. -/
  | loop (target : Option Pattern)
  /-- The cases of a `switch`. -/
  | cases
  /-- A class expression. -/
  | classValue (name : Option Ident)

/-- A region with the layout of its parts. -/
inductive Layout where
  | region (kind : Region) (parts : List Layout)

/-- A node with its layout. -/
def Layout.node (shape : Node) (parts : List Layout) : Layout :=
  .region (.node shape) parts

/-- A node without parts. -/
def Layout.leaf (shape : Node) : Layout :=
  .node shape []

mutual

/-- The layout of an expression. -/
def Expr.layout : Expr → List Layout
  | .ident id => [.leaf (.ident id)]
  | .atom _ | .hole => []
  | .spread value => value.layout
  | .paren inner _ => inner.layout
  | .array elements _ => Expr.layouts elements
  | .object members _ => Member.layouts members
  | .function name body => [body.layout .expression name]
  | .arrow body => [body.layout .arrow none]
  | .classExpr name heritage members _ =>
    [.region (.classValue name) (Member.layouts members ++ Expr.optionLayout heritage)]
  | .member base key _ | .chainMember base key _ => base.layout ++ Expr.optionLayout key
  | .call callee arguments span =>
    [.node (.call arguments span) (callee.layout ++ Expr.layouts arguments)]
  | .new callee arguments _ | .chainCall callee arguments _ =>
    callee.layout ++ Expr.layouts arguments
  | .update operator operand span => [.node (.update operator operand span) operand.layout]
  | .assign operator target value span =>
    [.node (.assign operator target span) (target.layout ++ value.layout)]
  | .compound _ parts _ => Expr.layouts parts

/-- The layout of a list of expressions. -/
def Expr.layouts : List Expr → List Layout
  | [] => []
  | first :: rest => first.layout ++ Expr.layouts rest

/-- The layout of an expression that may be missing. -/
def Expr.optionLayout : Option Expr → List Layout
  | none => []
  | some value => value.layout

/-- The layout of a member of an object literal or class. -/
def Member.layout : Member → List Layout
  | .shorthand id => [.leaf (.shorthand id)]
  | .shorthandDefault id value => .leaf (.ident id) :: value.layout
  | .field key value => Expr.optionLayout key ++ Expr.optionLayout value
  | .method key body => Expr.optionLayout key ++ [body.layout .method none]
  | .spread value => value.layout
  | .staticBlock body => [body.layout]

/-- The layout of a list of members. -/
def Member.layouts : List Member → List Layout
  | [] => []
  | first :: rest => first.layout ++ Member.layouts rest

/-- The layout of a pattern. -/
def Pattern.layout : Pattern → List Layout
  | .ident id => [.leaf (.ident id)]
  | .hole => []
  | .array elements _ => Pattern.layouts elements
  | .object members _ => Pattern.layouts members
  | .shorthand id value => .leaf (.shorthand id) :: Expr.optionLayout value
  | .keyed key value => Expr.optionLayout key ++ value.layout
  | .rest inner _ => inner.layout
  | .withDefault inner value _ => inner.layout ++ value.layout
  | .target value => value.layout

/-- The layout of a list of patterns. -/
def Pattern.layouts : List Pattern → List Layout
  | [] => []
  | first :: others => first.layout ++ Pattern.layouts others

/-- The layout of a pattern that may be missing. -/
def Pattern.optionLayout : Option Pattern → List Layout
  | none => []
  | some target => target.layout

/-- The layout of a function of some form. -/
def Function.layout (kind : FunctionKind) (name : Option Ident) : Function → Layout
  | .block params body span =>
    .node (.function kind name params span) (Pattern.layouts params ++ [body.layout])
  | .value params value span =>
    .node (.function kind name params span) (Pattern.layouts params ++ value.layout)

/-- The layout of a block. -/
def Block.layout : Block → Layout
  | .mk body span => .node (.block span) (Stmt.layouts body)

/-- The layout of a statement. -/
def Stmt.layout : Stmt → List Layout
  | .simple _ => []
  | .expression value _ | .throws value _ => value.layout
  | .returns value _ => Expr.optionLayout value
  | .variableDecl kind declarators span =>
    [.node (.variableDecl kind declarators span) (Pattern.layouts declarators)]
  | .function name body => [.leaf (.ident name), body.layout .declaration (some name)]
  | .classDecl name heritage members _ =>
    [.leaf (.ident name),
      .node (.classDecl name) (Member.layouts members ++ Expr.optionLayout heritage)]
  | .block body => [body.layout]
  | .ifElse test yes no _ => test.layout ++ yes.layout ++ Stmt.optionLayout no
  | .forLoop head test update body _ =>
    [.region (.loop none) (Stmt.optionLayout head ++ Expr.optionLayout test ++
      Expr.optionLayout update ++ body.layout)]
  | .forEach head subject body _ =>
    [.region (.loop none) (head.layout ++ subject.layout ++ body.layout)]
  | .forEachTarget target subject body _ =>
    [.region (.loop (some target)) (target.layout ++ subject.layout ++ body.layout)]
  | .whileLoop test body _ => test.layout ++ body.layout
  | .doWhile body test _ => test.layout ++ body.layout
  | .switchOn subject cases _ => subject.layout ++ [.region .cases (Stmt.layouts cases)]
  | .switchCase test body => Expr.optionLayout test ++ Stmt.layouts body
  | .tryCatch body clauses _ => body.layout :: Stmt.layouts clauses
  | .catchClause param body span =>
    [.node (.catchClause param span) (Pattern.optionLayout param ++ [body.layout])]
  | .labelled _ body _ => body.layout

/-- The layout of a list of statements. -/
def Stmt.layouts : List Stmt → List Layout
  | [] => []
  | first :: rest => first.layout ++ Stmt.layouts rest

/-- The layout of a statement that may be missing. -/
def Stmt.optionLayout : Option Stmt → List Layout
  | none => []
  | some body => body.layout

end

/-- The layout of a top-level statement.  What is listed for import or export is not in a region. -/
def Item.layout (item : Item) : List Layout :=
  match item.form with
  | .statement body | .exportDecl body => body.layout
  | .importDecl specifiers source =>
    [.node (.importDecl source item.span)
      (specifiers.map fun specifier => .leaf (.ident specifier.binding))]
  | .exportDefaultFunction none body => [body.layout .expression none]
  | .exportDefaultFunction (some name) body =>
    [.leaf (.ident name), body.layout .declaration (some name)]
  | .exportDefaultClass none heritage members _ =>
    Member.layouts members ++ Expr.optionLayout heritage
  | .exportDefaultClass (some name) heritage members _ =>
    [.leaf (.ident name),
      .node (.classDecl name) (Member.layouts members ++ Expr.optionLayout heritage)]
  | .exportDefaultExpr value => value.layout
  | .exportList specifiers none => specifiers.flatMap fun specifier =>
    match specifier with
    | .named (.ident id) _ => [.leaf (.ident id)]
    | .named (.quoted _) _ | .everything _ => []
  | .exportList _ (some _) | .exportAll _ => []

/-! ## Layouts and outlines -/

mutual

/-- The outline that a layout shows: the regions that are no nodes are left out. -/
def Layout.outline : Layout → List Outline
  | .region (.node shape) parts => [.node shape (Layout.outlines parts)]
  | .region (.loop _) parts | .region .cases parts | .region (.classValue _) parts =>
    Layout.outlines parts

/-- The outlines that layouts show. -/
def Layout.outlines : List Layout → List Outline
  | [] => []
  | first :: rest => first.outline ++ Layout.outlines rest

end

namespace Layout

@[simp] theorem outlines_append (left right : List Layout) :
    outlines (left ++ right) = outlines left ++ outlines right := by
  induction left with
  | nil => rfl
  | cons first rest ih => rw [List.cons_append, outlines, outlines, ih, List.append_assoc]

@[simp] theorem outlines_nil : outlines [] = [] := rfl

@[simp] theorem outlines_cons (first : Layout) (rest : List Layout) :
    outlines (first :: rest) = first.outline ++ outlines rest := rfl

@[simp] theorem outline_node (shape : Node) (parts : List Layout) :
    (node shape parts).outline = [.node shape (outlines parts)] := rfl

@[simp] theorem outline_leaf (shape : Node) : (leaf shape).outline = [.leaf shape] := rfl

@[simp] theorem outline_loop (target : Option Pattern) (parts : List Layout) :
    (region (.loop target) parts).outline = outlines parts := rfl

@[simp] theorem outline_cases (parts : List Layout) :
    (region .cases parts).outline = outlines parts := rfl

@[simp] theorem outline_classValue (name : Option Ident) (parts : List Layout) :
    (region (.classValue name) parts).outline = outlines parts := rfl

end Layout

open Layout (outlines)

mutual

theorem Expr.outlines_layout : ∀ value : Expr, outlines value.layout = value.outline
  | .ident _ | .atom _ | .hole => by simp [Expr.layout, Expr.outline]
  | .spread value | .paren value _ => by simp [Expr.layout, Expr.outline, value.outlines_layout]
  | .array elements _ | .compound _ elements _ => by
    simp [Expr.layout, Expr.outline, Expr.outlines_layouts elements]
  | .object members _ => by simp [Expr.layout, Expr.outline, Member.outlines_layouts members]
  | .function name body => by
    simp [Expr.layout, Expr.outline, body.outline_layout .expression name]
  | .arrow body => by simp [Expr.layout, Expr.outline, body.outline_layout .arrow none]
  | .classExpr _ heritage members _ => by
    simp [Expr.layout, Expr.outline, Member.outlines_layouts members,
      Expr.outlines_optionLayout heritage]
  | .member base key _ | .chainMember base key _ => by
    simp [Expr.layout, Expr.outline, base.outlines_layout, Expr.outlines_optionLayout key]
  | .call callee arguments _ | .new callee arguments _ | .chainCall callee arguments _ => by
    simp [Expr.layout, Expr.outline, callee.outlines_layout, Expr.outlines_layouts arguments]
  | .update _ operand _ => by simp [Expr.layout, Expr.outline, operand.outlines_layout]
  | .assign _ target value _ => by
    simp [Expr.layout, Expr.outline, target.outlines_layout, value.outlines_layout]

theorem Expr.outlines_layouts : ∀ values : List Expr, outlines (Expr.layouts values) =
    Expr.outlines values
  | [] => rfl
  | first :: rest => by
    simp [Expr.layouts, Expr.outlines, first.outlines_layout, Expr.outlines_layouts rest]

theorem Expr.outlines_optionLayout : ∀ value : Option Expr,
    outlines (Expr.optionLayout value) = Expr.optionOutline value
  | none => rfl
  | some value => value.outlines_layout

theorem Member.outlines_layout : ∀ member : Member, outlines member.layout = member.outline
  | .shorthand _ => rfl
  | .shorthandDefault _ value => by simp [Member.layout, Member.outline, value.outlines_layout]
  | .field key value => by
    simp [Member.layout, Member.outline, Expr.outlines_optionLayout key,
      Expr.outlines_optionLayout value]
  | .method key body => by
    simp [Member.layout, Member.outline, Expr.outlines_optionLayout key,
      body.outline_layout .method none]
  | .spread value => value.outlines_layout
  | .staticBlock body => by simp [Member.layout, Member.outline, body.outline_layout]

theorem Member.outlines_layouts : ∀ members : List Member,
    outlines (Member.layouts members) = Member.outlines members
  | [] => rfl
  | first :: rest => by
    simp [Member.layouts, Member.outlines, first.outlines_layout, Member.outlines_layouts rest]

theorem Pattern.outlines_layout : ∀ target : Pattern, outlines target.layout = target.outline
  | .ident _ | .hole => by simp [Pattern.layout, Pattern.outline]
  | .array elements _ | .object elements _ => by
    simp [Pattern.layout, Pattern.outline, Pattern.outlines_layouts elements]
  | .shorthand _ value => by
    simp [Pattern.layout, Pattern.outline, Expr.outlines_optionLayout value]
  | .keyed key value => by
    simp [Pattern.layout, Pattern.outline, Expr.outlines_optionLayout key, value.outlines_layout]
  | .rest inner _ => inner.outlines_layout
  | .withDefault inner value _ => by
    simp [Pattern.layout, Pattern.outline, inner.outlines_layout, value.outlines_layout]
  | .target value => value.outlines_layout

theorem Pattern.outlines_layouts : ∀ targets : List Pattern,
    outlines (Pattern.layouts targets) = Pattern.outlines targets
  | [] => rfl
  | first :: rest => by
    simp [Pattern.layouts, Pattern.outlines, first.outlines_layout, Pattern.outlines_layouts rest]

theorem Pattern.outlines_optionLayout : ∀ target : Option Pattern,
    outlines (Pattern.optionLayout target) = Pattern.optionOutline target
  | none => rfl
  | some target => target.outlines_layout

theorem Function.outline_layout (kind : FunctionKind) (name : Option Ident) :
    ∀ body : Function, (body.layout kind name).outline = [body.outline kind name]
  | .block params body _ => by
    simp [Function.layout, Function.outline, Pattern.outlines_layouts params, body.outline_layout]
  | .value params value _ => by
    simp [Function.layout, Function.outline, Pattern.outlines_layouts params, value.outlines_layout]

theorem Block.outline_layout : ∀ body : Block, body.layout.outline = [body.outline]
  | .mk body _ => by simp [Block.layout, Block.outline, Stmt.outlines_layouts body]

theorem Stmt.outlines_layout : ∀ body : Stmt, outlines body.layout = body.outline
  | .simple _ => by simp [Stmt.layout, Stmt.outline]
  | .expression value _ | .throws value _ => by
    simp [Stmt.layout, Stmt.outline, value.outlines_layout]
  | .returns value _ => by simp [Stmt.layout, Stmt.outline, Expr.outlines_optionLayout value]
  | .variableDecl _ declarators _ => by
    simp [Stmt.layout, Stmt.outline, Pattern.outlines_layouts declarators]
  | .function name body => by
    simp [Stmt.layout, Stmt.outline, body.outline_layout .declaration (some name)]
  | .classDecl _ heritage members _ => by
    simp [Stmt.layout, Stmt.outline, Member.outlines_layouts members,
      Expr.outlines_optionLayout heritage]
  | .block body => by simp [Stmt.layout, Stmt.outline, body.outline_layout]
  | .ifElse test yes no _ => by
    simp [Stmt.layout, Stmt.outline, test.outlines_layout, yes.outlines_layout,
      Stmt.outlines_optionLayout no]
  | .forLoop head test update body _ => by
    simp [Stmt.layout, Stmt.outline, Stmt.outlines_optionLayout head,
      Expr.outlines_optionLayout test, Expr.outlines_optionLayout update, body.outlines_layout]
  | .forEach head subject body _ => by
    simp [Stmt.layout, Stmt.outline, head.outlines_layout, subject.outlines_layout,
      body.outlines_layout]
  | .forEachTarget target subject body _ => by
    simp [Stmt.layout, Stmt.outline, target.outlines_layout, subject.outlines_layout,
      body.outlines_layout]
  | .whileLoop test body _ | .doWhile body test _ => by
    simp [Stmt.layout, Stmt.outline, test.outlines_layout, body.outlines_layout]
  | .switchOn subject cases _ => by
    simp [Stmt.layout, Stmt.outline, subject.outlines_layout, Stmt.outlines_layouts cases]
  | .switchCase test body => by
    simp [Stmt.layout, Stmt.outline, Expr.outlines_optionLayout test, Stmt.outlines_layouts body]
  | .tryCatch body clauses _ => by
    simp [Stmt.layout, Stmt.outline, body.outline_layout, Stmt.outlines_layouts clauses]
  | .catchClause param body _ => by
    simp [Stmt.layout, Stmt.outline, Pattern.outlines_optionLayout param, body.outline_layout]
  | .labelled _ body _ => body.outlines_layout

theorem Stmt.outlines_layouts : ∀ bodies : List Stmt,
    outlines (Stmt.layouts bodies) = Stmt.outlines bodies
  | [] => rfl
  | first :: rest => by
    simp [Stmt.layouts, Stmt.outlines, first.outlines_layout, Stmt.outlines_layouts rest]

theorem Stmt.outlines_optionLayout : ∀ body : Option Stmt,
    outlines (Stmt.optionLayout body) = Stmt.optionOutline body
  | none => rfl
  | some body => body.outlines_layout

end

theorem outlines_listed (specifiers : List ExportSpecifier) :
    outlines (specifiers.flatMap fun specifier => match specifier with
      | .named (.ident id) _ => [Layout.leaf (.ident id)]
      | .named (.quoted _) _ | .everything _ => []) = specifiers.flatMap (·.outline) := by
  induction specifiers with
  | nil => rfl
  | cons first rest ih =>
      rw [List.flatMap_cons, List.flatMap_cons, Layout.outlines_append, ih]
      congr 1
      rcases first with ⟨_ | _, _⟩ | _ <;> rfl

theorem outlines_leaves (ids : List Ident) :
    outlines (ids.map fun id => Layout.leaf (.ident id)) =
      ids.map fun id => Outline.leaf (.ident id) := by
  induction ids with
  | nil => rfl
  | cons first rest ih => simp [ih]

/-- The layout of a top-level statement shows its outline. -/
theorem Item.outlines_layout : ∀ item : Item, outlines item.layout = item.outline
  | ⟨.statement body, _⟩ | ⟨.exportDecl body, _⟩ => body.outlines_layout
  | ⟨.importDecl specifiers _, _⟩ => by
    have hleaves := outlines_leaves (specifiers.map ImportSpecifier.binding)
    rw [List.map_map, List.map_map] at hleaves
    simpa [Item.layout, Item.outline, Function.comp_def] using hleaves
  | ⟨.exportDefaultFunction none body, _⟩ => by
    simp [Item.layout, Item.outline, body.outline_layout]
  | ⟨.exportDefaultFunction (some _) body, _⟩ => by
    simp [Item.layout, Item.outline, body.outline_layout]
  | ⟨.exportDefaultClass none heritage members _, _⟩ => by
    simp [Item.layout, Item.outline, Member.outlines_layouts members,
      Expr.outlines_optionLayout heritage]
  | ⟨.exportDefaultClass (some _) heritage members _, _⟩ => by
    simp [Item.layout, Item.outline, Member.outlines_layouts members,
      Expr.outlines_optionLayout heritage]
  | ⟨.exportDefaultExpr value, _⟩ => value.outlines_layout
  | ⟨.exportList specifiers none, _⟩ => outlines_listed specifiers
  | ⟨.exportList _ (some _), _⟩ | ⟨.exportAll _, _⟩ => rfl

/-! ## What binds a name -/

/-- The names that a region itself declares by `let`. -/
def Region.lets : Region → List String
  | .node shape => shape.lets
  | .loop _ | .cases | .classValue _ => []

/-- Whether what `let` declares in a region is bound there. -/
def Region.keepsLets : Region → Bool
  | .node shape => shape.scopeKey?.isSome
  | .loop _ | .cases => true
  | .classValue _ => false

mutual

/-- The names that a layout declares by `let` in the region around it. -/
def Layout.lets : Layout → List String
  | .region kind parts => kind.lets ++ if kind.keepsLets then [] else Layout.letsOf parts

/-- The names that layouts declare by `let` in the region around them. -/
def Layout.letsOf : List Layout → List String
  | [] => []
  | first :: rest => first.lets ++ Layout.letsOf rest

end

/-- The names that the language binds in a region, given its parts. -/
def Region.binds (parts : List Layout) : Region → List String
  | .node (.function kind name params _) =>
    Pattern.bindingsOf params ++
      (if kind = .expression then name.toList.map (·.name) else []) ++
      Outline.hoistedOf (outlines parts)
  | .node (.catchClause param _) => (param.map Pattern.bindings).getD [] ++ Layout.letsOf parts
  | .node (.block _) | .loop _ | .cases => Layout.letsOf parts
  | .classValue name => name.toList.map (·.name)
  | .node _ => []

/-- The names that the outline declares in a region, given its parts. -/
def Region.declares (parts : List Layout) : Region → List String
  | .node shape => shape.declared (outlines parts)
  | .loop _ | .cases | .classValue _ => []

/-- The names that a region binds and the outline does not show. -/
def Region.strays (parts : List Layout) : Region → List String
  | .node _ => []
  | kind => kind.binds parts

mutual

/-- The names in a layout that are bound by something that the outline does not show: by `let` in
the head of a loop or in a `switch`, or as the name of a class expression. -/
def Layout.strays : Layout → List String
  | .region kind parts => kind.strays parts ++ Layout.straysOf parts

/-- The names in layouts that are bound by something that the outline does not show. -/
def Layout.straysOf : List Layout → List String
  | [] => []
  | first :: rest => first.strays ++ Layout.straysOf rest

end

/-- A region of a statement, with the names that are bound around it in the language, and those that
are taken to be bound there by the outline. -/
structure Spot where
  region : Region
  bound : List String
  taken : List String

/-- Whether a region is an import declaration. -/
def Region.isImport : Region → Bool
  | .node shape => shape.isImport
  | .loop _ | .cases | .classValue _ => false

mutual

/-- The regions in a layout, within some names.  Import declarations are left out. -/
def Layout.spots (bound taken : List String) : Layout → List Spot
  | .region kind parts =>
    if kind.isImport then []
    else ⟨kind, bound, taken⟩ ::
      Layout.spotsOf (kind.binds parts ++ bound) (kind.declares parts ++ taken) parts

/-- The regions in layouts. -/
def Layout.spotsOf (bound taken : List String) : List Layout → List Spot
  | [] => []
  | first :: rest => first.spots bound taken ++ Layout.spotsOf bound taken rest

end

/-- The node that a region is, if it is one. -/
def Spot.place? (spot : Spot) : Option Place :=
  match spot.region with
  | .node shape => some ⟨shape, spot.taken⟩
  | .loop _ | .cases | .classValue _ => none

theorem Outline.placesOf_append (bound : List String) (left right : List Outline) :
    placesOf bound (left ++ right) = placesOf bound left ++ placesOf bound right := by
  induction left with
  | nil => rfl
  | cons first rest ih => rw [List.cons_append, placesOf, placesOf, ih, List.append_assoc]

mutual

theorem Layout.places_spots : ∀ (layout : Layout) (bound taken : List String),
    (layout.spots bound taken).filterMap Spot.place? = Outline.placesOf taken layout.outline
  | .region (.node shape) parts, bound, taken => by
    have hparts := Layout.places_spotsOf parts
    rw [Layout.spots, Layout.outline, Outline.placesOf, Outline.places, Outline.placesOf,
      List.append_nil]
    cases himport : shape.isImport with
    | true => simp [Region.isImport, himport]
    | false => simp [Region.isImport, himport, Spot.place?, hparts, Region.declares]
  | .region (.loop _) parts, _, _ | .region .cases parts, _, _
  | .region (.classValue _) parts, _, _ => by
    have hparts := Layout.places_spotsOf parts
    simp [Layout.spots, Region.isImport, List.filterMap_cons, Spot.place?, hparts, Region.declares]

/-- The regions that are nodes are those of the outline. -/
theorem Layout.places_spotsOf : ∀ (forest : List Layout) (bound taken : List String),
    (Layout.spotsOf bound taken forest).filterMap Spot.place? =
      Outline.placesOf taken (outlines forest)
  | [], _, _ => rfl
  | first :: rest, bound, taken => by
    rw [Layout.spotsOf, List.filterMap_append, Layout.places_spots first,
      Layout.places_spotsOf rest, Layout.outlines_cons, Outline.placesOf_append]

end

theorem Item.places_spots (item : Item) : (Layout.spotsOf [] [] item.layout).filterMap Spot.place? =
    Outline.placesOf [] item.outline := by
  rw [Layout.places_spotsOf, item.outlines_layout]

/-! ## Where both agree -/

variable {name : String}

mutual

theorem Layout.mem_lets_iff : ∀ layout : Layout, name ∉ layout.strays →
    (name ∈ layout.lets ↔ name ∈ Outline.letsOf layout.outline)
  | .region kind parts, hstrays => by
    obtain ⟨hkind, hrest⟩ := not_or.mp (mt List.mem_append.mpr (by rwa [Layout.strays] at hstrays))
    have hparts := Layout.mem_letsOf_iff parts hrest
    cases kind with
    | node shape =>
        have hlayout : name ∈ (Layout.region (.node shape) parts).lets ↔ name ∈ shape.lets ∨
            shape.scopeKey?.isSome = false ∧ name ∈ Layout.letsOf parts := by
          cases hkeeps : shape.scopeKey?.isSome <;>
            simp [Layout.lets, Region.lets, Region.keepsLets, hkeeps]
        rw [hlayout, hparts]
        cases hkeeps : shape.scopeKey?.isSome <;>
          simp [Layout.outline, Outline.letsOf, Outline.lets, hkeeps]
    | loop | cases =>
        simp only [Layout.lets, Region.lets, Region.keepsLets, Layout.outline, if_true,
          List.append_nil, ← hparts]
        exact iff_of_false List.not_mem_nil hkind
    | classValue => simpa [Layout.lets, Region.lets, Region.keepsLets, Layout.outline] using hparts

/-- A `let` that is in a region of the outline only is no stray. -/
theorem Layout.mem_letsOf_iff : ∀ forest : List Layout, name ∉ Layout.straysOf forest →
    (name ∈ Layout.letsOf forest ↔ name ∈ Outline.letsOf (outlines forest))
  | [], _ => Iff.rfl
  | first :: rest, hstrays => by
    obtain ⟨hfirst, hrest⟩ :=
      not_or.mp (mt List.mem_append.mpr (by rwa [Layout.straysOf] at hstrays))
    rw [Layout.letsOf, Layout.outlines_cons, Outline.letsOf_append, List.mem_append,
      List.mem_append, Layout.mem_lets_iff first hfirst, Layout.mem_letsOf_iff rest hrest]

end

theorem Region.mem_binds_iff {kind : Region} {parts : List Layout}
    (hkind : name ∉ kind.strays parts) (hparts : name ∉ Layout.straysOf parts) :
    name ∈ kind.binds parts ↔ name ∈ kind.declares parts := by
  have hlets := Layout.mem_letsOf_iff parts hparts
  cases kind with
  | node shape => cases shape <;> simp [Region.binds, Region.declares, Node.declared, hlets]
  | loop | cases | classValue => exact iff_of_false hkind List.not_mem_nil

mutual

theorem Layout.agree : ∀ (layout : Layout) (bound taken : List String), name ∉ layout.strays →
    (name ∈ bound ↔ name ∈ taken) → ∀ spot ∈ layout.spots bound taken,
      (name ∈ spot.bound ↔ name ∈ spot.taken)
  | .region kind parts, bound, taken, hstrays, haround, spot, hspot => by
    obtain ⟨hkind, hrest⟩ := not_or.mp (mt List.mem_append.mpr (by rwa [Layout.strays] at hstrays))
    rw [Layout.spots] at hspot
    split at hspot
    · exact absurd hspot List.not_mem_nil
    · rcases List.mem_cons.mp hspot with rfl | hspot
      · exact haround
      · refine Layout.agree_all parts _ _ hrest ?_ spot hspot
        rw [List.mem_append, List.mem_append, Region.mem_binds_iff hkind hrest, haround]

/-- The language and the outline agree on where a name is bound, unless it is a stray. -/
theorem Layout.agree_all : ∀ (forest : List Layout) (bound taken : List String),
    name ∉ Layout.straysOf forest → (name ∈ bound ↔ name ∈ taken) →
      ∀ spot ∈ Layout.spotsOf bound taken forest, (name ∈ spot.bound ↔ name ∈ spot.taken)
  | [], _, _, _, _, _, hspot => absurd hspot List.not_mem_nil
  | first :: rest, bound, taken, hstrays, haround, spot, hspot => by
    obtain ⟨hfirst, hrest⟩ :=
      not_or.mp (mt List.mem_append.mpr (by rwa [Layout.straysOf] at hstrays))
    rcases List.mem_append.mp hspot with hspot | hspot
    · exact Layout.agree first bound taken hfirst haround spot hspot
    · exact Layout.agree_all rest bound taken hrest haround spot hspot

end

/-- The name that a spot is an occurrence of. -/
def Spot.name? (spot : Spot) : Option Ident :=
  match spot.region with
  | .node (.ident id) | .node (.shorthand id) => some id
  | _ => none

end Script
end ScriptBundler
