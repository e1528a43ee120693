import ScriptBundler.Proofs.Script.LiteralPassages

/-!
# Reading a passage again: classes
-/

namespace ScriptBundler
namespace Script
namespace Parser

open Mark Std.Do Text

set_option mvcgen.warning false

variable {p : Passage} {pre mode : Mode} {k d : Nat}

/-- A member of a class that has been moved, with what is said of it. -/
def relocateEntry (move : Nat → Nat) (entry : Member × Bool × Nat) : Member × Bool × Nat :=
  (entry.1.relocate move, entry.2.1, move entry.2.2)

/-- What is read of a method behind its name, with whether it is the constructor. -/
def namedMethod (g : Grammar) (start : Nat) (key : KeyText) (isAsync isGenerator : Bool)
    (accessor : Accessor) (isConstructor : Bool) : Parser (Member × Bool) := do
  return (← method g start key isAsync isGenerator accessor, isConstructor)

namespace Passage

theorem atFieldEnd_retraces (hkeeps : ¬pre.keeps) :
    p.Retraces pre k (fun _ => pre) k atFieldEnd atFieldEnd id :=
  .of_token hkeeps (fun found => found == .punctuator "=" || found == .punctuator "\x7d" ||
    found == .punctuator ";") fun _ _ => rfl

section Grammar

variable {g g' : Grammar} (hg : p.Reaches d g g')

include hg

/-! ## Members -/

theorem fieldRest_retraces (key : KeyText) (hk : 0 < k → 3 * k + 3 ≤ d)
    (hinside : k = 0 ∨ k < p.text.length) :
    p.Retraces .inner k (fun _ => .inner) k (fieldRest g key)
      (fieldRest g' (key.relocate p.relocate))
      (Member.relocate p.relocate) := by
  have hinner := Mode.inner_tight p
  have hend : ∀ (value : Option Expr) {j : Nat}, j ≤ k →
      p.Retraces .inner j (fun _ => .inner) k
        (do expectSemicolon; pure (.field key.computed value))
        (do
          expectSemicolon
          pure (.field (key.computed.map (Expr.relocate p.relocate))
            (value.map (Expr.relocate p.relocate)))) (Member.relocate p.relocate) := by
    intro value j hj
    refine .bind (expectSemicolon_retraces hinner hinner.known id id (by omega)) fun _ => ?_
    exact .pure (by simp [Member.relocate]) hj
  unfold fieldRest
  refine .refuse_ite (fun h => h)
    (.eat_ite (Mode.inner_admits p _) False.elim ?_ (hend none le_rfl))
  refine .bind
    (apart_retraces ((hg.assignment hinner (by omega)).withReader (fun _ => rfl) fun _ => rfl))
    fun value => ?_
  exact hend (some value) (by omega)

theorem staticBlock_retraces (hk : 0 < k → 3 * k + 1 ≤ d) :
    p.Retraces pre k (fun _ => .inner) (k - 1) (staticBlock g) (staticBlock g')
      (Member.relocate p.relocate) := by
  have hblock : p.Retraces pre k (fun _ => .inner) (k - 1) (block g) (block g')
      (Block.relocate p.relocate) := block_retraces hg (Mode.inner_admits p _) hk
  unfold staticBlock
  refine .bind (apart_retraces (hblock.withReader (fun _ => rfl) fun _ => rfl)) fun body => ?_
  exact .pure rfl le_rfl

theorem namedMethod_retraces {j : Nat} (start : Nat) (key : KeyText)
    (isAsync isGenerator : Bool) (accessor : Accessor) (isConstructor : Bool)
    (hj : 0 < j → 3 * j + 1 ≤ d) (hle : j ≤ k) :
    p.Retraces .inner j (fun _ => .inner) (k - 1)
      (namedMethod g start key isAsync isGenerator accessor isConstructor)
      (namedMethod g' (p.relocate start) (key.relocate p.relocate) isAsync isGenerator
        (accessor.relocate p.relocate) isConstructor)
      fun found => (found.1.relocate p.relocate, found.2) :=
  .bind (method_retraces hg _ _ rfl hj) fun _ => .pure rfl (by omega)

theorem classMemberRest_retraces (start : Nat) (isStatic : Bool) (hk : 0 < k → 3 * k + 3 ≤ d) :
    p.Retraces pre k (fun _ => .inner) (k - 1) (classMemberRest g start isStatic)
      (classMemberRest g' (p.relocate start) isStatic)
      fun found => (found.1.relocate p.relocate, found.2) := by
  have hbound := hg.bound
  have hinner := Mode.inner_tight p
  unfold classMemberRest
  refine .of_inner ?_
  refine .bind (isPunctuator_retraces id _) fun opens => .ite (fun _ => ?_) fun _ => ?_
  · exact .bind (staticBlock_retraces hg (by omega)) fun member => .pure rfl le_rfl
  refine .eat_ite (Mode.inner_admits p _) False.elim ?_ ?_
  · refine .bind (propertyKey_retraces hg true hinner (by omega)) fun key => ?_
    exact .complain_ite (fun h => h)
      (namedMethod_retraces hg start key false true .none false (by omega) (by omega))
  refine .bind (propertyKey_retraces hg true hinner (by omega)) fun key => ?_
  refine .isPunctuator_ite False.elim (.of_inner ?_) ?_
  · exact namedMethod_retraces hg start key false false .none _ (by omega) (by omega)
  have hword : (key.relocate p.relocate).word.map (·.name) = key.word.map (·.name) := by
    rw [KeyText.relocate, Option.map_map]
    rfl
  dsimp only
  rw [hword]
  -- the key may have been one of the words that change what kind of member follows
  refine .bind (atFieldEnd_retraces id) fun ends => ?_
  refine .bind (afterNewline_retraces id (by omega)) fun newline => ?_
  refine .bind (isPunctuator_retraces id _) fun star => ?_
  refine .bind (atFieldEnd_retraces id) fun closes => ?_
  refine .bind (atSemicolon_retraces id (by omega)) fun ended => ?_
  refine .ite (fun _ => ?_) fun _ => .ite (fun _ => ?_) fun _ => ?_
  · exact .bind (fieldRest_retraces hg key (by omega) (by omega)) fun member => .pure rfl le_rfl
  · refine .bind (propertyKey_retraces hg true hinner (by omega)) fun named => ?_
    refine .complain_ite (fun h => h) ?_
    have hmethod := namedMethod_retraces (k := k) hg start named false false
      (if key.word.map (·.name) == some "get" then .getter key.start else .setter key.start) false
      (by omega : 0 < k - 1 - 1 → _) (by omega)
    rw [apply_ite (Accessor.relocate p.relocate)] at hmethod
    exact hmethod
  refine .bind (afterNewline_retraces id (by omega)) fun newline => .ite (fun _ => ?_) fun _ => ?_
  · refine .bind (eat_retraces _) fun isGenerator => ?_
    refine .bind (propertyKey_retraces hg true hinner (by omega)) fun named => ?_
    refine .refuse_ite (fun h => h) ?_
    exact namedMethod_retraces hg start named true isGenerator .none false (by omega) (by omega)
  · exact unexpected_retraces

theorem classMember_retraces (hk : 0 < k → 3 * k + 3 ≤ d) :
    p.Retraces pre k (fun _ => .inner) (k - 1) (classMember g) (classMember g')
      (Option.map (relocateEntry p.relocate)) := by
  have hbound := hg.bound
  unfold classMember
  refine .of_inner (.eat_ite (Mode.inner_admits p _) False.elim (.pure rfl le_rfl) ?_)
  refine .bind (here_retraces id) fun start => .bind (here_retraces id) fun wordStart => ?_
  refine .eatWord_ite (Mode.inner_admits p _) False.elim ?_ ?_
  · refine .isPunctuator_ite False.elim (.of_inner ?_) ?_
    · exact .bind (method_retraces hg _ _ rfl (by omega)) fun member => .pure rfl (by omega)
    refine .bind (atFieldEnd_retraces id) fun ends => .ite (fun _ => ?_) fun _ => ?_
    · exact .bind
        (fieldRest_retraces hg ⟨none, none, some "static", wordStart⟩ (by omega) (by omega))
        fun member => .pure rfl le_rfl
    · exact .bind (classMemberRest_retraces hg start true (by omega)) fun found =>
        .pure rfl (by omega)
  · exact .bind (classMemberRest_retraces hg start false (by omega)) fun found => .pure rfl le_rfl

theorem classBody_retraces (hmode : mode.Admits p (.punctuator "\x7d"))
    (hk : 0 < k → 3 * k + 1 ≤ d) :
    p.Retraces pre k (fun _ => mode) (k - 1) (classBody g) (classBody g')
      (List.map (Member.relocate p.relocate)) := by
  have hbound := hg.bound
  unfold classBody
  refine .bind (expect_retraces (Mode.inner_admits p _)) fun _ => ?_
  refine .bind (repeatUntil_closing "\x7d" (by omega) fun j hj =>
    classMember_retraces hg (by omega)) fun found => ?_
  refine .bind (expect_retraces hmode) fun _ => ?_
  generalize hmembers : found.filterMap id = members
  have hmoved : (found.map (Option.map (relocateEntry p.relocate))).filterMap id =
      members.map (relocateEntry p.relocate) := by
    rw [← hmembers, List.filterMap_map, List.map_filterMap]
    rfl
  have hcomplains : p.Retraces mode (k - 1 - 1) (fun _ => mode) (k - 1 - 1)
      (((members.filter (·.2.1)).drop 1).forM fun entry => complain entry.2.2)
      ((((members.map (relocateEntry p.relocate)).filter (·.2.1)).drop 1).forM fun entry =>
        complain entry.2.2) id := by
    rw [List.filter_map, ← List.map_drop]
    exact forM_retraces (f := relocateEntry p.relocate) (fun entry => complain_retraces _ _) _
  dsimp only
  rw [hmoved]
  refine .bind hcomplains fun _ => .pure ?_ (Nat.sub_le _ _)
  rw [List.map_map, List.map_map]
  rfl

theorem classExpression_retraces {lhs lhs' : Parser Expr}
    (hmode : mode.Admits p (.punctuator "\x7d")) (hadvances : ∀ s, Advances s lhs)
    (hlhs : ∀ j < k,
      p.Retraces .inner j (fun _ => .inner) (j - 1) lhs lhs' (Expr.relocate p.relocate))
    (hk : 0 < k → 3 * k + 1 ≤ d) :
    p.Retraces pre k (fun _ => mode) (k - 1) (classExpression g lhs) (classExpression g' lhs')
      (Expr.relocate p.relocate) := by
  have hbound := hg.bound
  refine .of_advances (fun _ => hmode.2)
    (fun s _ => classExpression_advances s hg.advancing hadvances) ?_
  intro setting s s' hstands _
  have hpos := hstands.pos
  refine hstands.here_bind (hstands.follows ?_)
  refine .bind (expectWord_retraces (Mode.inner_admits p _)) fun _ => ?_
  refine .bind optionalName_retraces fun name => ?_
  have hrest : ∀ {j : Nat} (heritage : Option Expr), j ≤ k - 1 →
      p.Retraces .inner j (fun _ => mode) (k - 1)
        (do
          let members ← classBody g
          pure (.classExpr name heritage members (← spanFrom s.current.span.start)))
        (do
          let members ← classBody g'
          pure (.classExpr (name.map (Ident.relocate p.relocate))
            (heritage.map (Expr.relocate p.relocate)) members
            (← spanFrom (p.relocate s.current.span.start)))) (Expr.relocate p.relocate) := by
    intro j heritage hj
    refine .bind (classBody_retraces hg hmode (by omega)) fun members => ?_
    refine .bind (spanFrom_retraces rfl (by omega)) fun span => .pure ?_ (by omega)
    simp [Expr.relocate]
  refine .eatWord_ite (Mode.inner_admits p _) False.elim ?_ (hrest none le_rfl)
  exact .bind (hlhs _ (by omega)) fun heritage => hrest (some heritage) (by omega)

end Grammar

end Passage

end Parser
end Script
end ScriptBundler
