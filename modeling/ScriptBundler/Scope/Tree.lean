import ScriptBundler.Table

/-!
# Lexical scopes of a module

The scopes of one module, numbered in the order in which they are opened.  Scope 0 is the top
level of the module; every other scope has a parent with a smaller number, and a depth one more
than its parent's.

A declaration that is not bound to its block lands in the nearest scope around it that is not a
block.
-/

namespace ScriptBundler

/-- The number of a scope. -/
abbrev ScopeId := Nat

/-- A scope: what it declares, and where it is. -/
structure Scope where
  parent : Option ScopeId
  depth : Nat
  names : List String
  isBlock : Bool
deriving Repr, DecidableEq

/-- Whether a scope declares a name itself. -/
def Scope.declares (scope : Scope) (name : String) : Bool :=
  scope.names.contains name

/-- The scopes of a module, in the order of their numbers. -/
structure ScopeTree where
  scopes : List Scope
deriving Repr, DecidableEq

namespace ScopeTree

/-- The top level of a module. -/
def root : ScopeId := 0

/-- The tree of the top level alone. -/
def empty : ScopeTree :=
  ⟨[{ parent := none, depth := 0, names := [], isBlock := false }]⟩

/-- The scope with a number. -/
def get? (tree : ScopeTree) (id : ScopeId) : Option Scope :=
  tree.scopes[id]?

/-- The scope around a scope; the top level has none. -/
def parent? (tree : ScopeTree) (id : ScopeId) : Option ScopeId :=
  (tree.get? id).bind (·.parent)

/-- Whether a scope declares a name itself. -/
def declares (tree : ScopeTree) (id : ScopeId) (name : String) : Bool :=
  match tree.get? id with
  | some scope => scope.declares name
  | none => false

/-- Opens a scope that declares some names, and gives its number. -/
def push (tree : ScopeTree) (parent : ScopeId) (isBlock : Bool) (names : List String) :
    ScopeTree × ScopeId :=
  let depth :=
    match tree.get? parent with
    | some scope => scope.depth + 1
    | none => 0
  let scope := { parent := some parent, depth, names := names.foldl insertName [], isBlock }
  (⟨tree.scopes ++ [scope]⟩, tree.scopes.length)

/-- The chain of scopes from a scope outward, itself first.  A parent has a smaller number, so
that as many steps as the number of the scope lead to the top. -/
def chain (tree : ScopeTree) (id : ScopeId) : List ScopeId :=
  go id id
where
  /-- The chain with at most `steps` parents. -/
  go : Nat → ScopeId → List ScopeId
    | 0, id => [id]
    | steps + 1, id =>
      match tree.parent? id with
      | some parent => id :: go steps parent
      | none => [id]

/-- Whether a scope is a block with a scope around it. -/
def isInnerBlock (tree : ScopeTree) (id : ScopeId) : Bool :=
  match tree.get? id with
  | some scope => scope.isBlock && scope.parent.isSome
  | none => false

/-- The scope in which a declaration lands. -/
def landing (tree : ScopeTree) (id : ScopeId) (blockScoped : Bool) : ScopeId :=
  if blockScoped then id
  else ((tree.chain id).find? fun scope => !tree.isInnerBlock scope).getD id

/-- Declares a name, and gives the scope in which it landed. -/
def add (tree : ScopeTree) (id : ScopeId) (name : String) (blockScoped : Bool) :
    ScopeTree × ScopeId :=
  let target := tree.landing id blockScoped
  (⟨tree.scopes.modify target fun scope => { scope with names := insertName scope.names name }⟩,
    target)

/-- The nearest scope, from a scope outward, that declares a name. -/
def definingScope? (tree : ScopeTree) (id : ScopeId) (name : String) : Option ScopeId :=
  (tree.chain id).find? fun scope => tree.declares scope name

/-- The depth of a scope; the top level has depth 0. -/
def depth (tree : ScopeTree) (id : ScopeId) : Nat :=
  match tree.get? id with
  | some scope => scope.depth
  | none => 0

/-- Whether a name, seen from a scope, means a binding of the top level, or nothing that the
module declares. -/
def isTopLevelReference (tree : ScopeTree) (id : ScopeId) (name : String) : Bool :=
  match tree.definingScope? id name with
  | some found => tree.depth found == 0
  | none => true

end ScopeTree

end ScriptBundler
