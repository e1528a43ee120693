import Mathlib
import ScriptBundler.Script.Parser.Module

/-!
# Relocation of syntax trees

Code that stands at another place is read as the same tree with other places in it.  Here a tree is
moved along with a map of offsets, and what the parser asks of the trees that it has read so far is
shown not to depend on places, except for commas that have been noted at them.
-/

namespace ScriptBundler
namespace Script

/-- A range of bytes that has been moved. -/
def Span.relocate (move : Nat → Nat) (span : Span) : Span :=
  ⟨move span.start, move span.stop⟩

/-- A name at the place to which it has been moved. -/
def Ident.relocate (move : Nat → Nat) (id : Ident) : Ident :=
  ⟨id.name, id.span.relocate move⟩

mutual

/-- An expression that has been moved. -/
def Expr.relocate (move : Nat → Nat) : Expr → Expr
  | .ident id => .ident (id.relocate move)
  | .atom span => .atom (span.relocate move)
  | .hole => .hole
  | .spread value => .spread (value.relocate move)
  | .paren inner span => .paren (inner.relocate move) (span.relocate move)
  | .array elements span => .array (Expr.relocateAll move elements) (span.relocate move)
  | .object members span => .object (Member.relocateAll move members) (span.relocate move)
  | .function name body => .function (name.map (Ident.relocate move)) (body.relocate move)
  | .arrow body => .arrow (body.relocate move)
  | .classExpr name heritage members span =>
    .classExpr (name.map (Ident.relocate move)) (Expr.relocateOption move heritage)
      (Member.relocateAll move members) (span.relocate move)
  | .member object key span =>
    .member (object.relocate move) (Expr.relocateOption move key) (span.relocate move)
  | .call callee arguments span =>
    .call (callee.relocate move) (Expr.relocateAll move arguments) (span.relocate move)
  | .new callee arguments span =>
    .new (callee.relocate move) (Expr.relocateAll move arguments) (span.relocate move)
  | .chainMember object key span =>
    .chainMember (object.relocate move) (Expr.relocateOption move key) (span.relocate move)
  | .chainCall callee arguments span =>
    .chainCall (callee.relocate move) (Expr.relocateAll move arguments) (span.relocate move)
  | .update operator operand span =>
    .update operator (operand.relocate move) (span.relocate move)
  | .assign operator target value span =>
    .assign operator (target.relocate move) (value.relocate move) (span.relocate move)
  | .compound operation parts span =>
    .compound operation (Expr.relocateAll move parts) (span.relocate move)

/-- Expressions that have been moved. -/
def Expr.relocateAll (move : Nat → Nat) : List Expr → List Expr
  | [] => []
  | first :: rest => first.relocate move :: Expr.relocateAll move rest

/-- An expression, if there is one, that has been moved. -/
def Expr.relocateOption (move : Nat → Nat) : Option Expr → Option Expr
  | none => none
  | some value => some (value.relocate move)

/-- A member of an object literal or class that has been moved. -/
def Member.relocate (move : Nat → Nat) : Member → Member
  | .shorthand id => .shorthand (id.relocate move)
  | .shorthandDefault id value => .shorthandDefault (id.relocate move) (value.relocate move)
  | .field key value => .field (Expr.relocateOption move key) (Expr.relocateOption move value)
  | .method key body => .method (Expr.relocateOption move key) (body.relocate move)
  | .spread value => .spread (value.relocate move)
  | .staticBlock body => .staticBlock (body.relocate move)

/-- Members that have been moved. -/
def Member.relocateAll (move : Nat → Nat) : List Member → List Member
  | [] => []
  | first :: rest => first.relocate move :: Member.relocateAll move rest

/-- A pattern that has been moved. -/
def Pattern.relocate (move : Nat → Nat) : Pattern → Pattern
  | .ident id => .ident (id.relocate move)
  | .hole => .hole
  | .array elements span => .array (Pattern.relocateAll move elements) (span.relocate move)
  | .object members span => .object (Pattern.relocateAll move members) (span.relocate move)
  | .shorthand id value => .shorthand (id.relocate move) (Expr.relocateOption move value)
  | .keyed key value => .keyed (Expr.relocateOption move key) (value.relocate move)
  | .rest inner span => .rest (inner.relocate move) (span.relocate move)
  | .withDefault inner value span =>
    .withDefault (inner.relocate move) (value.relocate move) (span.relocate move)
  | .target value => .target (value.relocate move)

/-- Patterns that have been moved. -/
def Pattern.relocateAll (move : Nat → Nat) : List Pattern → List Pattern
  | [] => []
  | first :: rest => first.relocate move :: Pattern.relocateAll move rest

/-- A function that has been moved. -/
def Function.relocate (move : Nat → Nat) : Function → Function
  | .block params body span =>
    .block (Pattern.relocateAll move params) (body.relocate move) (span.relocate move)
  | .value params value span =>
    .value (Pattern.relocateAll move params) (value.relocate move) (span.relocate move)

/-- A block that has been moved. -/
def Block.relocate (move : Nat → Nat) : Block → Block
  | .mk body span => .mk (Stmt.relocateAll move body) (span.relocate move)

/-- A statement that has been moved. -/
def Stmt.relocate (move : Nat → Nat) : Stmt → Stmt
  | .simple span => .simple (span.relocate move)
  | .expression value span => .expression (value.relocate move) (span.relocate move)
  | .returns value span => .returns (Expr.relocateOption move value) (span.relocate move)
  | .throws value span => .throws (value.relocate move) (span.relocate move)
  | .variableDecl kind declarators span =>
    .variableDecl kind (Pattern.relocateAll move declarators) (span.relocate move)
  | .function name body => .function (name.relocate move) (body.relocate move)
  | .classDecl name heritage members span =>
    .classDecl (name.relocate move) (Expr.relocateOption move heritage)
      (Member.relocateAll move members) (span.relocate move)
  | .block body => .block (body.relocate move)
  | .ifElse test yes no span =>
    .ifElse (test.relocate move) (yes.relocate move) (Stmt.relocateOption move no)
      (span.relocate move)
  | .forLoop head test update body span =>
    .forLoop (Stmt.relocateOption move head) (Expr.relocateOption move test)
      (Expr.relocateOption move update) (body.relocate move) (span.relocate move)
  | .forEach head subject body span =>
    .forEach (head.relocate move) (subject.relocate move) (body.relocate move)
      (span.relocate move)
  | .forEachTarget target subject body span =>
    .forEachTarget (target.relocate move) (subject.relocate move) (body.relocate move)
      (span.relocate move)
  | .whileLoop test body span =>
    .whileLoop (test.relocate move) (body.relocate move) (span.relocate move)
  | .doWhile body test span =>
    .doWhile (body.relocate move) (test.relocate move) (span.relocate move)
  | .switchOn subject cases span =>
    .switchOn (subject.relocate move) (Stmt.relocateAll move cases) (span.relocate move)
  | .switchCase test body =>
    .switchCase (Expr.relocateOption move test) (Stmt.relocateAll move body)
  | .tryCatch body clauses span =>
    .tryCatch (body.relocate move) (Stmt.relocateAll move clauses) (span.relocate move)
  | .catchClause param body span =>
    .catchClause (Pattern.relocateOption move param) (body.relocate move) (span.relocate move)
  | .labelled label body span =>
    .labelled (label.relocate move) (body.relocate move) (span.relocate move)

/-- Statements that have been moved. -/
def Stmt.relocateAll (move : Nat → Nat) : List Stmt → List Stmt
  | [] => []
  | first :: rest => first.relocate move :: Stmt.relocateAll move rest

/-- A statement, if there is one, that has been moved. -/
def Stmt.relocateOption (move : Nat → Nat) : Option Stmt → Option Stmt
  | none => none
  | some body => some (body.relocate move)

/-- A pattern, if there is one, that has been moved. -/
def Pattern.relocateOption (move : Nat → Nat) : Option Pattern → Option Pattern
  | none => none
  | some target => some (target.relocate move)

end

variable (move : Nat → Nat)

@[simp] theorem Span.start_relocate (span : Span) :
    (span.relocate move).start = move span.start := rfl

@[simp] theorem Span.stop_relocate (span : Span) : (span.relocate move).stop = move span.stop := rfl

@[simp] theorem Ident.name_relocate (id : Ident) : (id.relocate move).name = id.name := rfl

@[simp] theorem Ident.span_relocate (id : Ident) :
    (id.relocate move).span = id.span.relocate move := rfl

@[simp] theorem Expr.relocateAll_eq_map (values : List Expr) :
    Expr.relocateAll move values = values.map (Expr.relocate move) := by
  induction values with
  | nil => rfl
  | cons first rest ih => rw [Expr.relocateAll, ih, List.map_cons]

@[simp] theorem Expr.relocateOption_eq_map (value : Option Expr) :
    Expr.relocateOption move value = value.map (Expr.relocate move) := by
  cases value <;> rfl

@[simp] theorem Member.relocateAll_eq_map (members : List Member) :
    Member.relocateAll move members = members.map (Member.relocate move) := by
  induction members with
  | nil => rfl
  | cons first rest ih => rw [Member.relocateAll, ih, List.map_cons]

@[simp] theorem Pattern.relocateAll_eq_map (targets : List Pattern) :
    Pattern.relocateAll move targets = targets.map (Pattern.relocate move) := by
  induction targets with
  | nil => rfl
  | cons first rest ih => rw [Pattern.relocateAll, ih, List.map_cons]

@[simp] theorem Pattern.relocateOption_eq_map (target : Option Pattern) :
    Pattern.relocateOption move target = target.map (Pattern.relocate move) := by
  cases target <;> rfl

@[simp] theorem Stmt.relocateAll_eq_map (bodies : List Stmt) :
    Stmt.relocateAll move bodies = bodies.map (Stmt.relocate move) := by
  induction bodies with
  | nil => rfl
  | cons first rest ih => rw [Stmt.relocateAll, ih, List.map_cons]

@[simp] theorem Stmt.relocateOption_eq_map (body : Option Stmt) :
    Stmt.relocateOption move body = body.map (Stmt.relocate move) := by
  cases body <;> rfl

namespace Parser

variable {move}

/-! ## What the parser asks of a tree -/

@[simp] theorem isArrow_relocate (value : Expr) :
    isArrow (value.relocate move) = isArrow value := by
  cases value <;> rfl

@[simp] theorem isOperation_relocate (value : Expr) :
    isOperation (value.relocate move) = isOperation value := by
  cases value with
  | compound operation => cases operation <;> rfl
  | _ => rfl

@[simp] theorem isSimpleTarget_relocate : ∀ value : Expr,
    isSimpleTarget (value.relocate move) = isSimpleTarget value
  | .paren inner _ => isSimpleTarget_relocate inner
  | .ident _ | .member _ _ _ | .atom _ | .hole | .spread _ | .array _ _ | .object _ _
  | .function _ _ | .arrow _ | .classExpr _ _ _ _ | .call _ _ _ | .new _ _ _
  | .chainMember _ _ _ | .chainCall _ _ _ | .update _ _ _ | .assign _ _ _ _
  | .compound _ _ _ => rfl

@[simp] theorem areSimple_relocate (params : List Pattern) :
    areSimple (params.map (Pattern.relocate move)) = areSimple params := by
  simp only [areSimple, List.all_map]
  congr 1
  funext param
  cases param <;> rfl

mutual

theorem checkBinding_relocate : ∀ target : Pattern, checkBinding target = .ok () →
    checkBinding (target.relocate move) = .ok ()
  | .ident id, h | .shorthand id _, h => by
      rw [checkBinding] at h
      split at h
      · contradiction
      · rename_i hother
        exact if_neg hother
  | .hole, _ => rfl
  | .array elements _, h | .object elements _, h => checkBindings_relocate elements h
  | .keyed _ value, h => checkBinding_relocate value h
  | .rest inner _, h | .withDefault inner _ _, h => checkBinding_relocate inner h
  | .target _, h => nomatch h

theorem checkBindings_relocate : ∀ targets : List Pattern, checkBindings targets = .ok () →
    checkBindings (Pattern.relocateAll move targets) = .ok ()
  | [], _ => rfl
  | first :: rest, h => by
      rw [checkBindings] at h
      rw [Pattern.relocateAll, checkBindings]
      cases hfirst : checkBinding first with
      | error fault =>
          rw [hfirst] at h
          contradiction
      | ok done =>
          rw [hfirst] at h
          rw [checkBinding_relocate first hfirst]
          exact checkBindings_relocate rest h

end

/-- What a fault stops has not been stopped. -/
theorem exists_of_bind_eq_ok {α β : Type} {first : Except Nat α} {next : α → Except Nat β}
    {result : β} (h : first >>= next = .ok result) :
    ∃ value, first = .ok value ∧ next value = .ok result := by
  cases first with
  | error fault => contradiction
  | ok value => exact ⟨value, rfl, h⟩

/-- What is read with commas of one list spells the same pattern with those of another one, if that
one notes none where the first notes none. -/
def NotesFewer (move : Nat → Nat) (commas others : List (Nat × Nat)) : Prop :=
  ∀ place, commas.lookup place = none → others.lookup (move place) = none

/-- What spells a pattern has an extent, which is moved along. -/
theorem span_relocate_of_reinterpret {commas : List (Nat × Nat)} {role : Role} {value : Expr}
    {target : Pattern} (h : reinterpret commas role value = .ok target) :
    (value.relocate move).span = value.span.relocate move := by
  cases value with
  | hole | spread => contradiction
  | function name body => cases body <;> rfl
  | arrow body => cases body <;> rfl
  | _ => rfl

theorem reinterpretElements_cons {commas : List (Nat × Nat)} {role : Role} {first : Expr}
    (hhole : first ≠ .hole) (hspread : ∀ value, first ≠ .spread value) (rest : List Expr) :
    reinterpretElements commas role (first :: rest) = (do
      let inner ← reinterpret commas (if role == .binding then .binding else .element) first
      pure (inner :: (← reinterpretElements commas role rest))) := by
  rw [reinterpretElements]
  · exact hhole
  · exact hspread

mutual

theorem reinterpret_relocate {commas others : List (Nat × Nat)}
    (hcommas : NotesFewer move commas others) (role : Role) : ∀ {value : Expr} {target : Pattern},
    reinterpret commas role value = .ok target →
      reinterpret others role (value.relocate move) = .ok (target.relocate move)
  | .ident id, _, h => by
      rw [reinterpret] at h
      split at h
      · contradiction
      · rename_i hother
        obtain rfl := Except.ok.inj h
        exact if_neg hother
  | .array elements span, _, h => by
      rw [reinterpret] at h
      split at h
      · contradiction
      · rename_i hnone
        obtain ⟨targets, htargets, h⟩ := exists_of_bind_eq_ok h
        obtain rfl := Except.ok.inj h
        rw [Expr.relocate, reinterpret, Span.start_relocate, hcommas _ hnone]
        dsimp only
        rw [reinterpretElements_relocate hcommas role htargets]
        rfl
  | .object members span, _, h => by
      rw [reinterpret] at h
      split at h
      · contradiction
      · rename_i hnone
        obtain ⟨targets, htargets, h⟩ := exists_of_bind_eq_ok h
        obtain rfl := Except.ok.inj h
        rw [Expr.relocate, reinterpret, Span.start_relocate, hcommas _ hnone]
        dsimp only
        rw [reinterpretMembers_relocate hcommas role htargets]
        rfl
  | .assign operator target value span, _, h => by
      rw [reinterpret] at h
      rw [Expr.relocate, reinterpret]
      split at h
      · contradiction
      · rename_i hplain
        rw [if_neg hplain]
        split at h
        · rename_i hbinding
          obtain ⟨_, hcheck, h⟩ := exists_of_bind_eq_ok h
          obtain rfl := Except.ok.inj h
          rw [if_pos hbinding, checkBinding_relocate target hcheck]
          rfl
        · rename_i hassigned
          obtain rfl := Except.ok.inj h
          rw [if_neg hassigned]
          rfl
  | .member object key span, _, h => by
      rw [reinterpret] at h
      rw [Expr.relocate, reinterpret]
      split at h
      · contradiction
      · rename_i hassigned
        obtain rfl := Except.ok.inj h
        exact if_neg hassigned
  | .paren inner span, _, h => by
      rw [reinterpret] at h
      rw [Expr.relocate, reinterpret, isSimpleTarget_relocate]
      split at h
      · contradiction
      · rename_i hsimple
        obtain rfl := Except.ok.inj h
        exact if_neg hsimple

theorem reinterpretElements_relocate {commas others : List (Nat × Nat)}
    (hcommas : NotesFewer move commas others) (role : Role) :
    ∀ {values : List Expr} {targets : List Pattern},
    reinterpretElements commas role values = .ok targets →
      reinterpretElements others role (Expr.relocateAll move values) =
        .ok (Pattern.relocateAll move targets)
  | [], _, h => by
      obtain rfl := Except.ok.inj h
      rfl
  | first :: rest, _, h => by
      have hfirst := fun target => @reinterpret_relocate commas others hcommas
        (if role == .binding then .binding else .element) first target
      have hrest :=
        fun targets => @reinterpretElements_relocate commas others hcommas role rest targets
      rw [Expr.relocateAll]
      cases first with
      | hole =>
          rw [reinterpretElements] at h
          obtain ⟨targets, htargets, h⟩ := exists_of_bind_eq_ok h
          obtain rfl := Except.ok.inj h
          rw [Expr.relocate, reinterpretElements, hrest _ htargets]
          rfl
      | spread value =>
          rw [reinterpretElements] at h
          obtain ⟨inner, hinner, h⟩ := exists_of_bind_eq_ok h
          rw [Expr.relocate, reinterpretElements, reinterpret_relocate hcommas _ hinner,
            span_relocate_of_reinterpret hinner]
          cases rest with
          | cons => cases inner <;> contradiction
          | nil =>
              cases inner with
              | withDefault => contradiction
              | _ =>
                  obtain rfl := Except.ok.inj h
                  rfl
      | _ =>
          rw [reinterpretElements_cons (by nofun) (by nofun)] at h
          obtain ⟨inner, hinner, h⟩ := exists_of_bind_eq_ok h
          obtain ⟨targets, htargets, h⟩ := exists_of_bind_eq_ok h
          obtain rfl := Except.ok.inj h
          rw [Expr.relocate] at hfirst ⊢
          rw [reinterpretElements_cons (by nofun) (by nofun), hfirst _ hinner]
          dsimp only [bind, Except.bind]
          rw [hrest _ htargets]
          rfl

theorem reinterpretMembers_relocate {commas others : List (Nat × Nat)}
    (hcommas : NotesFewer move commas others) (role : Role) :
    ∀ {members : List Member} {targets : List Pattern},
    reinterpretMembers commas role members = .ok targets →
      reinterpretMembers others role (Member.relocateAll move members) =
        .ok (Pattern.relocateAll move targets)
  | [], _, h => by
      obtain rfl := Except.ok.inj h
      rfl
  | .shorthand id :: rest, _, h | .shorthandDefault id _ :: rest, _, h => by
      rw [reinterpretMembers] at h
      split at h
      · contradiction
      · rename_i hother
        obtain ⟨targets, htargets, h⟩ := exists_of_bind_eq_ok h
        obtain rfl := Except.ok.inj h
        rw [Member.relocateAll, Member.relocate, reinterpretMembers]
        refine (if_neg hother).trans ?_
        rw [reinterpretMembers_relocate hcommas role htargets]
        rfl
  | .field key (some value) :: rest, _, h => by
      rw [reinterpretMembers] at h
      obtain ⟨inner, hinner, h⟩ := exists_of_bind_eq_ok h
      obtain ⟨targets, htargets, h⟩ := exists_of_bind_eq_ok h
      obtain rfl := Except.ok.inj h
      rw [Member.relocateAll, Member.relocate, Expr.relocateOption, reinterpretMembers,
        reinterpret_relocate hcommas _ hinner, reinterpretMembers_relocate hcommas role htargets]
      rfl
  | .spread value :: rest, _, h => by
      rw [reinterpretMembers] at h
      obtain ⟨inner, hinner, h⟩ := exists_of_bind_eq_ok h
      rw [Member.relocateAll, Member.relocate, reinterpretMembers,
        reinterpret_relocate hcommas _ hinner, span_relocate_of_reinterpret hinner]
      cases rest with
      | cons => cases role <;> cases inner <;> contradiction
      | nil =>
          cases inner with
          | withDefault => cases role <;> contradiction
          | ident id =>
              cases role <;> obtain rfl := Except.ok.inj h <;> rfl
          | _ =>
              cases role with
              | binding => contradiction
              | whole | element =>
                  obtain rfl := Except.ok.inj h
                  rfl
  | .field _ none :: _, _, h | .method _ _ :: _, _, h | .staticBlock _ :: _, _, h => nomatch h

end

end Parser
end Script
end ScriptBundler
