import ScriptBundler.Proofs.Script.LoopPassages

/-!
# Reading a passage again: the whole grammar

Any statement retraces a passage, however deep both parsers may nest, if the second one may nest
deep enough for the text.
-/

namespace ScriptBundler
namespace Script
namespace Parser

open Mark Std.Do Text

set_option mvcgen.warning false

variable {p : Passage} {pre mode : Mode} {k d : Nat}

/-- Reads a statement that starts with `async`. -/
def asyncStatement (g : Grammar) (start : Nat) : Parser Stmt := do
  let next ← peek
  if next.token == .word "function" false && !next.afterNewline then
    advance
    functionDeclaration g start true
  else expressionStatement g

theorem asyncStatement_advances {g : Grammar} {s : State} (hadvancing : g.Advancing) (start : Nat)
    (hproper : s.current.token.isProper = true) : Advances s (asyncStatement g start) := by
  refine triple_of fun holds hholds => ?_
  mvcgen [asyncStatement] <;> grind -ring -linarith

namespace Passage

section Grammar

variable {g g' : Grammar} (hg : p.Reaches d g g')

include hg

/-! ## Statements that start with a word -/

theorem importExpressionStatement_retraces (hk : 0 < k → 3 * k + 3 ≤ d) :
    p.Retraces (.before (· = .word "import" false)) k (Mode.behind p) (k - 1)
      (importExpressionStatement g) (importExpressionStatement g') (Stmt.relocate p.relocate) := by
  have hbound := hg.bound
  have hroom := p.room
  refine .of_advances (fun _ _ => trivial)
    (fun s _ => importExpressionStatement_advances s hg.advancing) ?_
  intro setting s s' hstands htoken
  have hpos := hstands.pos
  have hplain : ∀ text, s.current.token = .punctuator text → text = "(" := by
    intro text h
    rw [htoken] at h
    contradiction
  -- the next token is the same for both, unless the text ends with `import`, and then what the
  -- first parser reads is more than the text
  rcases hstands.peeks hplain (by omega) with hdoomed | ⟨hnext, -⟩ | hend
  · exact .of_doomed hdoomed (fun _ _ hrun => (of_triple
      (importExpressionStatement_advances s hg.advancing) hrun).leads) fun _ _ => trivial
  · refine hstands.here_bind (.peek_bind ?_)
    have hvalue : p.Retraces .inner k (Mode.behind p) (k - 1)
        (do
          let value ← g.fullExpression
          discard (eat ";")
          pure (.expression value (← spanFrom s.current.span.start)))
        (do
          let value ← g'.fullExpression
          discard (eat ";")
          pure (.expression value (← spanFrom (p.relocate s.current.span.start))))
        (Stmt.relocate p.relocate) :=
      .bind (fullExpression_retraces hg (Mode.outer_tight p) hk) fun value =>
        .bind discard_retraces fun _ => .bind (spanFrom_retraces rfl (by omega)) fun span =>
          pure_ended rfl rfl le_rfl
    rw [hnext]
    generalize s.advanced.current.token = next
    split
    · exact hstands.follows hvalue
    · exact hstands.follows hvalue
    · exact hstands.follows (refuse_retraces _)
  · have hpartial : s.current.token.isPartial = true := by
      rw [htoken]
      rfl
    exact .of_overreads hend (importExpressionStatement_falters hg.advancing
      (fun _ hbudget => hg.falters hpartial hbudget)
      (hstands.budget ▸ Nat.zero_lt_of_lt hroom.1)).overreads fun _ _ => trivial

/-- A function may be asynchronous, if its keyword stands on the same line as `async`. -/
theorem asyncStatement_retraces (start : Nat) (hk : 0 < k → 3 * k + 3 ≤ d) :
    p.Retraces (.before (· = .word "async" false)) k (Mode.behind p) (k - 1)
      (asyncStatement g start)
      (asyncStatement g' (p.relocate start)) (Stmt.relocate p.relocate) := by
  have hbound := hg.bound
  have hadvances := fun (s : State) (htoken : s.current.token = .word "async" false) =>
    asyncStatement_advances (s := s) hg.advancing start (htoken ▸ rfl)
  refine .of_advances (fun _ _ => trivial) hadvances ?_
  intro setting s s' hstands htoken
  have hpos := hstands.pos
  have hexpression := hstands.follows (expressionStatement_retraces hg hk)
  have hplain : ∀ text, s.current.token = .punctuator text → text = "(" := by
    intro text h
    rw [htoken] at h
    contradiction
  rcases hstands.peeks hplain (by omega) with hdoomed | ⟨hnext, hnewline⟩ | hend
  · exact .of_doomed hdoomed (fun _ _ hrun => (of_triple (hadvances s htoken) hrun).leads)
      fun _ _ => trivial
  · refine .peek_bind ?_
    rw [hnext, hnewline]
    split
    · refine hstands.follows_of_eq htoken
        (.bind (advance_retraces rfl (Mode.inner_admits p _)) fun _ => ?_)
      exact (functionDeclaration_retraces hg start true (by omega)).mono (by omega)
    · exact hexpression
  · -- the name ends the text, and what comes behind it does not belong to it
    intro value t hrun
    have hapart : asyncStatement g' (p.relocate start) (p.setting setting) s' =
        expressionStatement g' (p.setting setting) s' := by
      rw [asyncStatement, run_bind run_peek, if_neg]
      rw [hend.newCurrent]
      rcases p.newApart with hnewline | hfinish
      · simp [hnewline]
      · simp [hfinish]
    rw [hapart]
    rw [asyncStatement, run_bind run_peek] at hrun
    split at hrun
    · refine FollowsAt.of_overreads hend (.of_bind (fun _ u hfirst => ?_) fun _ u =>
        triple_of fun holds hholds => ?_) (fun _ _ => trivial) value t hrun
      · obtain ⟨-, rfl⟩ := Prod.mk.inj (Except.ok.inj hfirst)
        exact Or.inr rfl
      · have hadvancing := hg.advancing
        mvcgen <;> grind -ring -linarith
    · exact hexpression value t hrun

/-- What starts with any other word is a declaration or an expression. -/
theorem wordDeclaration_retraces (declarations : Bool) (hk : 0 < k → 3 * k + 3 ≤ d) :
    p.Retraces .inner k (Mode.behind p) (k - 1) (wordDeclaration g declarations)
      (wordDeclaration g' declarations) (Stmt.relocate p.relocate) := by
  have hbound := hg.bound
  have hroom := p.room
  have hadvancing := hg.advancing
  have hadvances : ∀ s, Advances s (wordDeclaration g declarations) := by
    refine fun s => triple_of fun holds hholds => ?_
    mvcgen [wordDeclaration] <;> grind -ring -linarith
  refine .of_advances (fun _ _ => trivial) (fun s _ => hadvances s) ?_
  intro setting s s' hstands _
  have hpos := hstands.pos
  have hexpression := hstands.follows (expressionStatement_retraces hg hk)
  refine hstands.declarationKind_bind (by omega) (fun _ _ => trivial) (hadvances s) ?_
    fun kind => ?_
  -- a text does not end with `let`, for the first parser would have to go on behind it
  · intro escaped hlet
    have hfalters : Overreads s (expressionStatement g setting s) :=
      (expressionStatement_falters hadvancing (fun _ => hg.falters (by rw [hlet]; rfl))
        (hstands.budget ▸ Nat.zero_lt_of_lt hroom.1)).overreads
    rw [run_bind (run_declarationKind _ _)]
    cases declaredKind s.current.token s.advanced.current.token with
    | none => exact hfalters
    | some kind =>
        dsimp only
        split
        · exact variableDeclaration_overreads hadvancing kind false
        · exact hfalters
  · cases kind with
    | none => exact hexpression
    | some kind =>
        dsimp only
        split
        · exact hstands.follows_of_eq rfl
            (variableDeclaration_retraces hg kind (fun _ h => h ▸ hstands.proper) id hk)
        · exact hexpression

theorem wordStatement_retraces (declarations : Bool) (name : String) (hk : 0 < k → 3 * k + 3 ≤ d) :
    p.Retraces (.before (· = .word name false)) k (Mode.behind p) (k - 1)
      (wordStatement g declarations name) (wordStatement g' declarations name)
      (Stmt.relocate p.relocate) := by
  have hbound := hg.bound
  refine .bind (here_retraces id) fun start => ?_
  have hexpression : ∀ {pre}, p.Retraces pre k (Mode.behind p) (k - 1) (expressionStatement g)
      (expressionStatement g') (Stmt.relocate p.relocate) :=
    .of_inner (expressionStatement_retraces hg hk)
  have hloop : ∀ {j} (test : Expr), j ≤ k - 1 → p.Retraces .inner j (Mode.behind p) (k - 1)
      (do
        let body ← loopBody g
        pure (.whileLoop test body (← spanFrom start)))
      (do
        let body ← loopBody g'
        pure (.whileLoop (test.relocate p.relocate) body (← spanFrom (p.relocate start))))
      (Stmt.relocate p.relocate) := fun test hj =>
    .bind (loopBody_retraces hg (by omega)) fun body =>
      .bind (spanFrom_retraces rfl (by omega)) fun span => pure_behind rfl rfl (by omega)
  split
  · exact jumpStatement_retraces true (by omega)
  · exact jumpStatement_retraces false (by omega)
  · refine .bind (advance_retraces rfl ((Mode.outer_tight p).admits nofun)) fun _ => ?_
    refine .bind (end_retraces (by omega)) fun _ => ?_
    exact .bind (spanFrom_retraces rfl (by omega)) fun span => pure_ended rfl rfl le_rfl
  · exact doStatement_retraces hg hk
  · exact forStatement_retraces hg hk
  · exact .complain_ite (fun h => h) (functionDeclaration_retraces hg start false (by omega))
  · exact .complain_ite (fun h => h) (classDeclaration_retraces hg hk)
  · exact ifStatement_retraces hg hk
  · exact returnStatement_retraces hg hk
  · exact switchStatement_retraces hg hk
  · exact throwStatement_retraces hg hk
  · exact tryStatement_retraces hg hk
  · refine .bind (complain_retraces _ _) fun _ => ?_
    refine .bind (advance_retraces rfl (Mode.inner_admits p _)) fun _ => ?_
    refine .bind (condition_retraces hg (Mode.inner_admits p _) (by omega)) fun subject => ?_
    refine .bind (hg.statement false (by omega)) fun body => ?_
    exact .bind (spanFrom_retraces rfl (by omega)) fun span => pure_behind rfl rfl (by omega)
  · refine .bind (advance_retraces rfl (Mode.inner_admits p _)) fun _ => ?_
    refine .bind (condition_retraces hg (Mode.inner_admits p _) (by omega)) fun test => ?_
    exact hloop test (by omega)
  · exact importExpressionStatement_retraces hg hk
  · exact asyncStatement_retraces hg start hk
  · exact .of_inner (wordDeclaration_retraces hg declarations hk)

theorem statement_retraces (declarations : Bool) (hk : 0 < k → 3 * k + 3 ≤ d) :
    p.Retraces pre k (Mode.behind p) (k - 1) (statement g declarations)
      (statement g' declarations) (Stmt.relocate p.relocate) := by
  have hbound := hg.bound
  refine .of_advances (fun _ _ => trivial)
    (fun s _ => statement_advances s hg.advancing declarations) ?_
  intro setting s s' hstands _
  refine hstands.requireToken_bind (hstands.here_bind (hstands.token_bind ?_))
  -- every kind of statement ends with its pending faults being settled
  have hsettles : ∀ result : Stmt, p.Retraces (Mode.behind p result) (k - 1) (Mode.behind p) (k - 1)
      (do
        settlePending s.current.span.start
        pure result)
      (do
        settlePending (p.relocate s.current.span.start)
        pure (result.relocate p.relocate)) (Stmt.relocate p.relocate) := fun result =>
    .bind (settlePending_retraces hstands.start_le) fun _ => .pure_of rfl le_rfl
  generalize htoken : s.current.token = found
  split
  · refine hstands.follows_of_eq htoken
      (.bind (advance_retraces rfl (Mode.ended_admits p _)) fun _ => ?_)
    refine .bind (spanFrom_retraces rfl (by omega)) fun span => ?_
    exact .bind (pure_ended rfl rfl le_rfl) hsettles
  · refine hstands.follows (.bind (block_retraces hg (Mode.when_admits True p _) (by omega))
      fun body => ?_)
    exact .bind (pure_closed rfl rfl le_rfl) hsettles
  · exact hstands.follows_of_eq htoken
      (.bind (wordStatement_retraces hg declarations _ hk) hsettles)
  · exact hstands.follows (.bind (expressionStatement_retraces hg hk) hsettles)

end Grammar

/-! ## The knot -/

/-- What a first parser reads, the second one reads if it may nest deep enough. -/
theorem reaches_grammarOfDepth : ∀ {d : Nat} (depth : Nat) {depth' : Nat},
    d ≤ 3 * p.text.length + 3 → d ≤ depth' →
      p.Reaches d (grammarOfDepth depth) (grammarOfDepth depth') := by
  intro d
  induction d with
  | zero =>
      intro depth depth' _ _
      have hadvancing := grammarOfDepth_advancing depth
      -- without depth there is no text that could be read
      have hnone : ∀ {k c : Nat}, (0 < k → 3 * k + c ≤ 0) → k = 0 := by omega
      constructor
      · exact hadvancing
      · exact fun hpartial hbudget => (grammarOfDepth_falters hpartial depth).2 _ hbudget
      · exact Nat.zero_le _
      · intro pre mode k hmode hk
        obtain rfl := hnone hk
        exact .zero (fun _ => hmode.known) hadvancing.unary
      · intro pre mode k hmode hk
        obtain rfl := hnone hk
        exact .zero (fun _ => hmode.known) hadvancing.assignment
      · intro pre k declarations hk
        obtain rfl := hnone hk
        exact .zero (fun _ _ => trivial) (hadvancing.statement declarations)
      · intro pre mode k hmode hk
        obtain rfl := hnone hk
        exact .zero (fun _ => hmode.known) hadvancing.bindingTarget
  | succ d ih =>
      intro depth depth' hbound hdepth
      obtain ⟨depth', rfl⟩ := Nat.exists_eq_succ_of_ne_zero (Nat.ne_zero_of_lt hdepth)
      have hadvancing := grammarOfDepth_advancing depth
      have hfalters : ∀ {s : State} {setting : Setting}, s.current.token.isPartial = true →
          0 < setting.budget → Falters s ((grammarOfDepth depth).assignment setting s) :=
        fun hpartial hbudget => (grammarOfDepth_falters hpartial depth).2 _ hbudget
      cases depth with
      | zero =>
          exact ⟨hadvancing, hfalters, hbound, fun _ _ => unexpected_retraces,
            fun _ _ => unexpected_retraces, fun _ _ => unexpected_retraces,
            fun _ _ => unexpected_retraces⟩
      | succ depth =>
          have hg := @ih depth depth' (by omega) (by omega)
          exact ⟨hadvancing, hfalters, hbound,
            fun hmode hk => unary_retraces hg hmode (by omega),
            fun hmode hk => assignment_retraces hg hmode (by omega),
            fun declarations hk => statement_retraces hg declarations (by omega),
            fun hmode hk => bindingTarget_retraces hg hmode (by omega)⟩

end Passage

end Parser
end Script
end ScriptBundler
