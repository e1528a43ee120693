import ScriptBundler.Module.Comments
import ScriptBundler.Script.Walk
import ScriptBundler.Scope.Tree
import ScriptBundler.Text.Snippet
import ScriptBundler.Log

/-!
# Analysis of top-level statements

Each top-level statement is walked twice.  The first walk opens a scope for every function, block
and catch clause and collects the names that the statement defines at the top level.  The second
one enters those scopes again and collects the top-level names that the statement depends on
and those that it may modify.
-/

namespace ScriptBundler
namespace Module

open Script Text

/-- The scopes that the nodes of a statement open. -/
abbrev OpenedScopes := List (ScopeKey × ScopeId)

/-- Records the scope of a node.  A later node of the same kind and extent takes its place. -/
def OpenedScopes.record (scopes : OpenedScopes) (key : ScopeKey) (id : ScopeId) :
    OpenedScopes :=
  scopes.filter (·.1 != key) ++ [(key, id)]

/-- The scope that a node opened. -/
def OpenedScopes.of? (scopes : OpenedScopes) (shape : Node) : Option ScopeId :=
  shape.scopeKey?.bind fun key => scopes.lookup key

/-- What is known about one top-level statement. -/
structure Statement where
  /-- The position among the statements of its module. -/
  index : Nat
  /-- The extent, without comments. -/
  span : Span
  form : ItemForm
  outline : List Outline
  /-- The top-level names that it declares. -/
  defines : List String
  /-- The top-level names that it may change. -/
  modifies : List String
  /-- The top-level names that it refers to but does not declare. -/
  dependsOn : List String
  /-- Whether the bundle holds it. -/
  included : Bool
  marginBefore : Nat
  marginAfter : Nat
  leading : List Span
  trailing : Option Span
  /-- Its text, with its comments. -/
  snippet : Snippet
  scopes : OpenedScopes

/-! ## The first walk -/

/-- The state of the first walk. -/
structure Building where
  tree : ScopeTree
  current : ScopeId
  scopes : OpenedScopes
  defines : List String

/-- Declares a name in the current scope. -/
def Building.declare (state : Building) (blockScoped : Bool) (name : String) : Building :=
  let (tree, landed) := state.tree.add state.current name blockScoped
  { state with
    tree
    defines := if landed = ScopeTree.root then insertName state.defines name else state.defines }

/-- Opens a scope for a node. -/
def Building.openScope (state : Building) (key : ScopeKey) (isBlock : Bool)
    (names : List String) : Building :=
  let (tree, id) := state.tree.push state.current isBlock names
  { state with tree, current := id, scopes := state.scopes.record key id }

/-- What the first walk does at a node. -/
def Building.visit (state : Building) : Node → Building
  | .function kind name params span =>
    let key : ScopeKey := ⟨.function, span⟩
    let names := Pattern.bindingsOf params
    match kind, name with
    | .declaration, some name => (state.declare false name.name).openScope key false names
    | .expression, some name => state.openScope key false (names ++ [name.name])
    | _, _ => state.openScope key false names
  | .block span => state.openScope ⟨.block, span⟩ true []
  | .catchClause param span =>
    let names :=
      match param with
      | some param => param.bindings
      | none => []
    state.openScope ⟨.catchClause, span⟩ true names
  | .variableDecl kind declarators _ =>
    (Pattern.bindingsOf declarators).foldl
      (fun state name => state.declare (kind == .letKind) name) state
  | .classDecl name => state.declare false name.name
  | _ => state

/-- The first walk: scopes, and names defined at the top level. -/
def scopeBuilder : Visitor Building where
  enter shape state := (.proceed, state.visit shape)
  leave shape state :=
    match shape.scopeKey? with
    | some _ => { state with current := (state.tree.parent? state.current).getD state.current }
    | none => state

/-! ## The second walk -/

/-- The state of the second walk. -/
structure Collecting where
  current : ScopeId
  dependsOn : List String
  modifies : List String

/-- Notes a reference. -/
def Collecting.reads (state : Collecting) (tree : ScopeTree) (defines : List String)
    (name : String) : Collecting :=
  if !defines.contains name && tree.isTopLevelReference state.current name then
    { state with dependsOn := insertName state.dependsOn name }
  else state

/-- Notes what may change the value at the root of a target. -/
def Collecting.writes (state : Collecting) (tree : ScopeTree) (root : Option String) :
    Collecting :=
  match root with
  | some name =>
    if tree.isTopLevelReference state.current name then
      { state with modifies := insertName state.modifies name }
    else state
  | none => state

/-- What the second walk does at a node, in the scope of that node. -/
def Collecting.visit (state : Collecting) (tree : ScopeTree) (defines : List String) :
    Node → Collecting
  | .ident id | .shorthand id => state.reads tree defines id.name
  | .assign _ target _ => state.writes tree target.root
  | .update _ operand _ => state.writes tree operand.root
  | .call arguments _ =>
    arguments.foldl (fun state argument => state.writes tree argument.root) state
  | _ => state

/-- The second walk: references to top-level names, and changes of what they hold.  A call may
change what its arguments hold. -/
def dependencyCollector (tree : ScopeTree) (scopes : OpenedScopes) (defines : List String) :
    Visitor Collecting where
  enter shape state :=
    let state : Collecting :=
      match scopes.of? shape with
      | some id => { state with current := id }
      | none => state
    match shape with
    | .importDecl _ _ => (.skip, state)
    | shape => (.proceed, state.visit tree defines shape)
  leave shape state :=
    match scopes.of? shape with
    | some _ => { state with current := (tree.parent? state.current).getD state.current }
    | none => state

/-! ## All statements -/

/-- An item with the comments that go with it and the margins around it. -/
structure Placed where
  item : Item
  attached : Attached
  marginBefore : Nat
  marginAfter : Nat

/-- Places the items of a module. -/
def place (source : List Char) (items : List Item) (comments : List Comment) : List Placed :=
  let attached := attachComments source (items.map (·.span)) comments
  let both := items.zip attached
  let before := gaps source 0 (both.map fun entry => rangeWith entry.1.span entry.2)
  (both.zip (before.zip (before.drop 1 ++ [0]))).map fun entry =>
    ⟨entry.1.1, entry.1.2, entry.2.1, entry.2.2⟩

/-- Walks over placed items for the first time, from some position on. -/
def buildScopes (source : List Char) : Nat → List Placed → ScopeTree →
    List Statement × ScopeTree
  | _, [], tree => ([], tree)
  | index, placed :: rest, tree =>
    let outline := placed.item.outline
    let built := scopeBuilder.run outline
      { tree, current := ScopeTree.root, scopes := [], defines := [] }
    let range := rangeWith placed.item.span placed.attached
    let statement : Statement :=
      { index, span := placed.item.span, form := placed.item.form, outline
        defines := built.defines, modifies := [], dependsOn := [], included := false
        marginBefore := placed.marginBefore, marginAfter := placed.marginAfter
        leading := placed.attached.leading, trailing := placed.attached.trailing
        snippet := (Snippet.ofSource source).snip range.start range.stop
        scopes := built.scopes }
    let (others, tree) := buildScopes source (index + 1) rest built.tree
    (statement :: others, tree)

/-- Walks over a statement for the second time. -/
def collectDependencies (tree : ScopeTree) (statement : Statement) : Statement :=
  let collected := (dependencyCollector tree statement.scopes statement.defines).run
    statement.outline { current := ScopeTree.root, dependsOn := [], modifies := [] }
  { statement with dependsOn := collected.dependsOn, modifies := collected.modifies }

/-- Analyses the statements of a module. -/
def analyse (source : List Char) (tree : Tree) : List Statement × ScopeTree :=
  let (statements, scopes) :=
    buildScopes source 0 (place source tree.items tree.comments) ScopeTree.empty
  (statements.map (collectDependencies scopes), scopes)

/-- What the log tells about an analysed statement. -/
def Statement.report (statement : Statement) : Log.Entry :=
  let defines := Log.braced statement.defines
  let depends := Log.braced statement.dependsOn
  let modifies := Log.braced statement.modifies
  ⟨.trace, .analysis,
    s!"statement {statement.index} defines {defines}, depends on {depends}, modifies {modifies}"⟩

end Module
end ScriptBundler
