import ScriptBundler.Proofs.Script.StatementSites

/-!
# Places: modules

The names and scopes of a top-level statement lie behind its export syntax, apart from each other.
So the kind and extent of a node tell which scope it opens.
-/

namespace ScriptBundler
namespace Script

open Std.Do Text
open Outline (sitesOf)

set_option mvcgen.warning false

/-- Where a top-level statement starts without the export syntax before it.  Imports and lists of
exports are nothing but such syntax. -/
def Item.codeStart? (item : Item) : Option Nat :=
  match item.form with
  | .statement _ => some item.span.start
  | .exportDecl declaration => some declaration.span.start
  | .exportDefaultFunction _ body => some body.span.start
  | .exportDefaultClass _ _ _ extent => some extent.start
  | .exportDefaultExpr value => some value.span.start
  | .importDecl _ _ | .exportList _ _ | .exportAll _ => none

/-- Whether the names and scopes of a top-level statement lie in its code, apart from each other,
and its code behind its export syntax. -/
def Item.Arranged (source : List Char) (item : Item) : Prop :=
  ∀ start ∈ item.codeStart?, (item.span.start < start ∨ ∃ body, item.form = .statement body) ∧
    start ≤ item.span.stop ∧ Boundary source start ∧
      Script.Arranged source start item.span.stop (sitesOf item.outline)

variable {source : List Char} {span : Span}

@[grind ←] theorem Item.arranged_statement {body : Stmt} (hle : span.start ≤ span.stop)
    (hboundary : Boundary source span.start)
    (hsites : Script.Arranged source span.start span.stop (sitesOf body.outline)) :
    Item.Arranged source ⟨.statement body, span⟩ := by
  rintro start ⟨⟩
  exact ⟨Or.inr ⟨body, rfl⟩, hle, hboundary, hsites⟩

@[grind ←] theorem Item.arranged_exportDecl {declaration : Stmt}
    (hlt : span.start < declaration.span.start) (hle : declaration.span.start ≤ span.stop)
    (hboundary : Boundary source declaration.span.start)
    (hsites : Script.Arranged source declaration.span.start span.stop
      (sitesOf declaration.outline)) : Item.Arranged source ⟨.exportDecl declaration, span⟩ := by
  rintro start ⟨⟩
  exact ⟨Or.inl hlt, hle, hboundary, hsites⟩

@[grind ←] theorem Item.arranged_exportDefaultFunction {name : Option Ident} {body : Function}
    (hlt : span.start < body.span.start) (hle : body.span.start ≤ span.stop)
    (hboundary : Boundary source body.span.start)
    (hsites : Script.Arranged source body.span.start span.stop
      (name.toList.map .name ++ .scope ⟨.function, body.span⟩ :: sitesOf body.parts)) :
    Item.Arranged source ⟨.exportDefaultFunction name body, span⟩ := by
  rintro start ⟨⟩
  refine ⟨Or.inl hlt, hle, hboundary, ?_⟩
  cases name <;> simpa [Item.outline, Function.outline_eq, sitesOf, Outline.sites, Outline.leaf,
    Node.sites] using hsites

@[grind ←] theorem Item.arranged_exportDefaultClass {name : Option Ident} {heritage : Option Expr}
    {members : List Member} {extent : Span} (hlt : span.start < extent.start)
    (hle : extent.start ≤ span.stop) (hboundary : Boundary source extent.start)
    (hsites : Script.Arranged source extent.start span.stop (name.toList.map .name ++
      (sitesOf (Member.outlines members) ++ sitesOf (Expr.optionOutline heritage)))) :
    Item.Arranged source ⟨.exportDefaultClass name heritage members extent, span⟩ := by
  rintro start ⟨⟩
  refine ⟨Or.inl hlt, hle, hboundary, ?_⟩
  cases name <;> simpa [Item.outline, sitesOf, Outline.sites, Outline.leaf, Node.sites,
    Outline.sitesOf_append] using hsites

@[grind ←] theorem Item.arranged_exportDefaultExpr {value : Expr}
    (hlt : span.start < value.span.start) (hle : value.span.start ≤ span.stop)
    (hboundary : Boundary source value.span.start)
    (hsites : Script.Arranged source value.span.start span.stop (sitesOf value.outline)) :
    Item.Arranged source ⟨.exportDefaultExpr value, span⟩ := by
  rintro start ⟨⟩
  exact ⟨Or.inl hlt, hle, hboundary, hsites⟩

@[grind ←] theorem Item.arranged_importDecl (specifiers : List ImportSpecifier) (text : String) :
    Item.Arranged source ⟨.importDecl specifiers text, span⟩ :=
  fun _ hstart => by cases hstart

@[grind ←] theorem Item.arranged_exportList (specifiers : List ExportSpecifier)
    (text : Option String) : Item.Arranged source ⟨.exportList specifiers text, span⟩ :=
  fun _ hstart => by cases hstart

@[grind ←] theorem Item.arranged_exportAll (text : String) :
    Item.Arranged source ⟨.exportAll text, span⟩ :=
  fun _ hstart => by cases hstart

namespace Parser

open Mark

theorem Mark.Right.boundary {source : List Char} {mark : Mark} (hright : mark.Right source) :
    Boundary source mark.current.span.start := by
  obtain ⟨rest, hplace, hcurrent⟩ := hright.current
  exact (hplace.trans hcurrent.start).boundary

grind_pattern Mark.Right.boundary => mark.Right source, Boundary source mark.current.span.start

@[grind →] theorem Mark.Notes.previous {mark after : Mark} (hnotes : Notes mark after) :
    after.previous = mark.previous := by
  rcases hnotes with rfl | rfl <;> rfl

variable (s : State)

@[spec high] theorem importDeclaration_arranges (hproper : s.current.token.isProper = true) :
    ⦃fun _ state => ⌜state = s⌝⦄ importDeclaration
    ⦃⇓? form _ state => ⌜Moves s.mark state.mark ∧
      ∀ source span, Item.Arranged source ⟨form, span⟩⌝⦄ := by
  refine triple_of fun holds hholds => ?_
  mvcgen [importDeclaration, -importDeclaration_advances] <;> grind -ring -linarith

/-- Whether a step of the parser gives the rest of an export, whose code lies in what it has
read. -/
abbrev Exports (s : State) (step : Parser ItemForm) : Prop :=
  ⦃fun _ state => ⌜state = s⌝⦄ step
  ⦃⇓? form _ state => ⌜Moves s.mark state.mark ∧ ∀ source start, s.mark.Right source →
    start < s.current.span.start →
    Item.Arranged source ⟨form, ⟨start, state.previous.stop⟩⟩⌝⦄

@[spec high] theorem exportList_exports : Exports s exportList := by
  refine triple_of fun holds hholds => ?_
  mvcgen [exportList, -exportList_advances] <;> grind -ring -linarith

@[spec high] theorem exportEverything_exports : Exports s exportEverything := by
  refine triple_of fun holds hholds => ?_
  mvcgen [exportEverything, -exportEverything_advances] <;> grind -ring -linarith

variable {g : Grammar} (hg : g.Arranging)

include hg

@[spec high] theorem exportDefault_exports : Exports s (exportDefault g) := by
  have hhead := fun s start isAsync =>
    functionHead_arranges s hg start isAsync optionalName _ optionalName_follows
  refine triple_of fun holds hholds => ?_
  mvcgen [exportDefault, hhead, -exportDefault_advances, -functionHead_advances] <;>
    grind -ring -linarith

@[spec high] theorem exportDeclaration_exports (hproper : s.current.token.isProper = true) :
    ⦃fun _ state => ⌜state = s⌝⦄ exportDeclaration g
    ⦃⇓? form _ state => ⌜Moves s.mark state.mark ∧ ∀ source, s.mark.Right source →
      Item.Arranged source ⟨form, ⟨s.current.span.start, state.previous.stop⟩⟩⌝⦄ := by
  refine triple_of fun holds hholds => ?_
  mvcgen [exportDeclaration, -exportDeclaration_advances] <;> grind -ring -linarith

theorem moduleItem_arranges :
    ⦃fun _ state => ⌜state = s⌝⦄ moduleItem g
    ⦃⇓? item _ state => ⌜Moves s.mark state.mark ∧ ∀ source, s.mark.Right source →
      item.Arranged source⌝⦄ := by
  refine triple_of fun holds hholds => ?_
  mvcgen [moduleItem, -moduleItem_advances] <;> grind -ring -linarith

theorem loop_arranged (rounds : Nat) :
    ⦃fun _ state => ⌜state = s⌝⦄ repeatUntil.loop atEnd (moduleItem g) rounds
    ⦃⇓? items _ state => ⌜Leads s.mark state.mark ∧ ∀ source, s.mark.Right source →
      ∀ item ∈ items, item.Arranged source⌝⦄ := by
  have hitem := fun s => moduleItem_arranges s hg
  induction rounds generalizing s with
  | zero =>
      mvcgen [repeatUntil.loop]
      grind -ring -linarith
  | succ rounds ih =>
      rw [loop_succ]
      mvcgen [round, hitem, ih, -moduleItem_advances] <;> grind -ring -linarith

end Parser

/-- The names and scopes of every statement of a module that has been parsed lie in the code of that
statement, apart from each other. -/
theorem parse_arranged {source : List Char} {tree : Tree} (hparse : parse source = .ok tree) :
    ∀ item ∈ tree.items, item.Arranged source := by
  unfold parse at hparse
  dsimp only at hparse
  split at hparse
  · contradiction
  · rename_i items state hrun
    split at hparse
    · contradiction
    · obtain rfl := Except.ok.inj hparse
      have hitems := Parser.of_triple (Parser.loop_arranged (.ofSource source)
        (Parser.grammarOfDepth_arranging _) (source.length + 2)) hrun
      exact hitems.2 source (Parser.ofSource_right source)

end Script
end ScriptBundler
