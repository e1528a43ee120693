import ScriptBundler.Script.Outline

/-!
# Names in patterns and targets

The names that a pattern binds, in source order, and the name at the root of what is assigned to.
-/

namespace ScriptBundler
namespace Script

mutual

/-- The names that a pattern binds.  First values and computed keys bind nothing. -/
def Pattern.bindings : Pattern → List String
  | .ident id => [id.name]
  | .hole | .target _ => []
  | .array elements _ => Pattern.bindingsOf elements
  | .object members _ => Pattern.bindingsOf members
  | .shorthand id _ => [id.name]
  | .keyed _ value => value.bindings
  | .rest inner _ => inner.bindings
  | .withDefault inner _ _ => inner.bindings

/-- The names that patterns bind, one after the other. -/
def Pattern.bindingsOf : List Pattern → List String
  | [] => []
  | first :: others => first.bindings ++ Pattern.bindingsOf others

end

/-- The identifier that an access starts from: `a` in `a.b[c].d`. -/
def Expr.root : Expr → Option String
  | .ident id => some id.name
  | .member base _ _ => base.root
  | .paren inner _ => inner.root
  | _ => none

/-- The identifier that an assignment to a single target starts from.  A pattern that takes a
value apart has none. -/
def Pattern.root : Pattern → Option String
  | .ident id => some id.name
  | .target value => value.root
  | _ => none

/-- What a scope belongs to. -/
inductive ScopeKind where
  | function
  | block
  | catchClause
deriving Repr, DecidableEq

/-- A node that opens a scope, by its kind and extent. -/
structure ScopeKey where
  kind : ScopeKind
  span : Span
deriving Repr, DecidableEq

/-- The key of the scope that a node opens, if it opens one. -/
def Node.scopeKey? : Node → Option ScopeKey
  | .function _ _ _ span => some ⟨.function, span⟩
  | .block span => some ⟨.block, span⟩
  | .catchClause _ span => some ⟨.catchClause, span⟩
  | _ => none

end Script
end ScriptBundler
