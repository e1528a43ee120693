import ScriptBundler.Proofs.Script.OperatorPassages

/-!
# Reading a passage again: statements

A statement may end the text without a semicolon only if what follows the text stands apart.  Behind
a brace or a semicolon it does not matter what follows.
-/

namespace ScriptBundler
namespace Script
namespace Parser

open Mark Std.Do Text

set_option mvcgen.warning false

/-- The mode in which the end of the text is kept up with if it counts at all. -/
def Mode.when (kept : Prop) : Mode :=
  ⟨kept, kept, fun _ => True⟩

/-- The mode of an expression that ends a statement. -/
def Mode.outer (p : Passage) : Mode :=
  ⟨p.Apart, p.Apart ∨ p.text.getLast? = some ';', fun _ => True⟩

/-- The mode behind a statement that needs a semicolon. -/
def Mode.ended (p : Passage) : Mode :=
  .when (p.Apart ∨ p.text.getLast? = some ';')

variable {α γ : Type} {p : Passage} {pre mode : Mode} {k later d : Nat}

theorem Mode.outer_tight (p : Passage) : (Mode.outer p).Tight p :=
  ⟨id, id, fun _ => trivial⟩

theorem Mode.when_admits (kept : Prop) (p : Passage) (token : Token) :
    (Mode.when kept).Admits p token :=
  ⟨Or.inl, fun _ => trivial⟩

theorem Mode.ended_admits (p : Passage) (token : Token) : (Mode.ended p).Admits p token :=
  Mode.when_admits _ p token

namespace Passage

/-- Less of the end of the text may count. -/
theorem Retraces.weaken {post : α → Mode} {kept : α → Prop} {step : Parser α} {step' : Parser γ}
    {f : α → γ} (hstep : p.Retraces pre k post later step step' f)
    (hkept : ∀ value, kept value → (post value).wants) :
    p.Retraces pre k (fun value => .when (kept value)) later step step' f :=
  hstep.relax (fun value hvalue => ⟨hkept value hvalue, fun _ => hvalue⟩) fun _ _ _ => trivial

theorem pure_when {kept : Prop} {post : α → Mode} {value : α} {value' : γ} {f : α → γ}
    (hvalue : value' = f value) (hpost : post value = .when kept) (hle : k ≤ later) :
    p.Retraces (.when kept) k post later (pure value) (pure value') f :=
  hpost ▸ .pure_of hvalue hle

/-- A statement that its semicolon ends. -/
theorem pure_ended {value : Stmt} {value' : Stmt} (hvalue : value' = value.relocate p.relocate)
    (hopen : value.isClosed = false) (hle : k ≤ later) :
    p.Retraces (.ended p) k (Mode.behind p) later (pure value) (pure value')
      (Stmt.relocate p.relocate) := by
  refine pure_when hvalue ?_ hle
  simp [Mode.behind, Mode.when, hopen]

/-- A statement that a brace ends. -/
theorem pure_closed {value : Stmt} {value' : Stmt} (hvalue : value' = value.relocate p.relocate)
    (hclosed : value.isClosed = true) (hle : k ≤ later) :
    p.Retraces (.when True) k (Mode.behind p) later (pure value) (pure value')
      (Stmt.relocate p.relocate) := by
  refine pure_when hvalue ?_ hle
  simp [Mode.behind, Mode.when, hclosed]

/-- A statement that another one ends. -/
theorem pure_behind {body value value' : Stmt} (hvalue : value' = value.relocate p.relocate)
    (hsame : value.isClosed = body.isClosed) (hle : k ≤ later) :
    p.Retraces (Mode.behind p body) k (Mode.behind p) later (pure value) (pure value')
      (Stmt.relocate p.relocate) := by
  refine pure_when hvalue ?_ hle
  simp [Mode.behind, Mode.when, hsame]

/-! ## Parts that may be missing -/

theorem unlessAt_retraces {stop : Parser Bool} {step : Parser α} {step' : Parser γ} {f : α → γ}
    {post : Option α → Mode} (test : Token → Bool)
    (hstop : ∀ setting s, stop setting s = .ok (test s.current.token, s))
    (hend : mode.keeps → test p.newNext.token = true) (hnone : post none = mode) (hle : k ≤ later)
    (hstep : p.Retraces (.before fun token => test token = false) k (fun value => post (some value))
      later step step' f) :
    p.Retraces mode k post later (unlessAt stop step) (unlessAt stop step') (Option.map f) := by
  refine .test_bind test true hstop hend (.bind hstep fun value => .pure_of rfl le_rfl) ?_
  exact hnone ▸ .pure_of rfl hle

/-- What is read unless a punctuator stands here. -/
theorem unlessAt_inner (text : String) {step : Parser α} {step' : Parser γ} {f : α → γ}
    (hstep : p.Retraces .inner k (fun _ => .inner) (k - 1) step step' f) :
    p.Retraces .inner k (fun _ => .inner) k (unlessAt (isPunctuator text) step)
      (unlessAt (isPunctuator text) step') (Option.map f) :=
  unlessAt_retraces (· == .punctuator text) (fun _ _ => rfl) False.elim rfl le_rfl
    (.of_inner (hstep.mono (Nat.sub_le _ _)))

/-- A choice by a word. -/
theorem eatWord_bind {name : String} {post : α → Mode} {next : Bool → Parser α}
    {next' : Bool → Parser γ} {f : α → γ}
    (hyes : p.Retraces .inner (k - 1) post later (next true) (next' true) f)
    (hno : p.Retraces .inner k post later (next false) (next' false) f) :
    p.Retraces .inner k post later (eatWord name >>= next) (eatWord name >>= next') f := by
  have hchoice : ∀ {β : Type} (next : Bool → Parser β), eatWord name >>= next =
      eatWord name >>= fun found => if found = true then next true else next false := by
    refine fun next => congrArg (eatWord name >>= ·) (funext fun found => ?_)
    cases found <;> rfl
  rw [hchoice, hchoice next']
  exact .eatWord_ite (Mode.inner_admits p _) False.elim hyes hno

/-- A word that no statement starts with is not behind the text. -/
theorem next_ne_of_word {name : String} (hstray : (Token.word name false).isStray = true) :
    p.newNext.token ≠ .word name false := by
  intro hnext
  have hother := p.newStray
  simp_all

/-- The semicolon of a statement, or what stands for it. -/
theorem end_retraces (hk : k = 0 ∨ k < p.text.length) :
    p.Retraces (.outer p) k (fun _ => .ended p) k expectSemicolon expectSemicolon id :=
  expectSemicolon_retraces (Mode.outer_tight p) (fun _ => trivial) id id hk

/-- A semicolon that may be missing anywhere. -/
theorem discard_retraces :
    p.Retraces (.outer p) k (fun _ => .ended p) k (discard (eat ";")) (discard (eat ";")) id := by
  have hchoice : discard (eat ";") =
      eat ";" >>= fun found => if found = true then pure PUnit.unit else pure PUnit.unit := by
    change (eat ";" >>= fun _ => pure PUnit.unit) = _
    refine congrArg (eat ";" >>= ·) (funext fun found => ?_)
    cases found <;> rfl
  rw [hchoice]
  refine .eat_ite (Mode.when_admits _ p _) ((Mode.outer_tight p).next_ne rfl)
    (.pure rfl (Nat.sub_le _ _)) ?_
  have hplain : p.Retraces (.outer p) k (fun _ => .outer p) k (pure PUnit.unit)
    (pure PUnit.unit) id :=
    .pure rfl le_rfl
  exact hplain.weaken fun _ => id

section Grammar

variable {g g' : Grammar} (hg : p.Reaches d g g')

include hg

/-! ## Branches and jumps -/

theorem condition_retraces (hmode : mode.Admits p (.punctuator ")")) (hk : 0 < k → 3 * k + 3 ≤ d) :
    p.Retraces pre k (fun _ => mode) (k - 1) (condition g) (condition g')
      (Expr.relocate p.relocate) := by
  refine .bind (expect_retraces (Mode.inner_admits p _)) fun _ => ?_
  refine .bind (fullExpression_retraces hg (Mode.inner_tight p) (by omega)) fun test => ?_
  exact .bind (expect_retraces hmode) fun _ => .pure rfl (by omega)

theorem loopBody_retraces (hk : 0 < k → 3 * k + 4 ≤ d) :
    p.Retraces pre k (Mode.behind p) (k - 1) (loopBody g) (loopBody g')
      (Stmt.relocate p.relocate) :=
  (hg.statement false hk).withReader (fun _ => rfl) fun _ => rfl

theorem doStatement_retraces (hk : 0 < k → 3 * k + 3 ≤ d) :
    p.Retraces (.before (· = .word "do" false)) k (Mode.behind p) (k - 1) (doStatement g)
      (doStatement g') (Stmt.relocate p.relocate) := by
  have hbound := hg.bound
  refine .bind (here_retraces id) fun start => ?_
  refine .bind (advance_retraces rfl (Mode.inner_admits p _)) fun _ => ?_
  refine .bind (loopBody_retraces hg (by omega)) fun body => ?_
  refine .bind (expectWord_retraces (Mode.inner_admits p _)) fun _ => ?_
  refine .bind (condition_retraces hg ((Mode.outer_tight p).admits (by decide)) (by omega))
    fun test => ?_
  refine .bind discard_retraces fun _ => ?_
  refine .bind (spanFrom_retraces rfl (by omega)) fun span => ?_
  exact pure_ended rfl rfl (by omega)

theorem ifStatement_retraces (hk : 0 < k → 3 * k + 3 ≤ d) :
    p.Retraces (.before (· = .word "if" false)) k (Mode.behind p) (k - 1) (ifStatement g)
      (ifStatement g') (Stmt.relocate p.relocate) := by
  have hbound := hg.bound
  refine .bind (here_retraces id) fun start => ?_
  refine .bind (advance_retraces rfl (Mode.inner_admits p _)) fun _ => ?_
  refine .bind (condition_retraces hg (Mode.inner_admits p _) (by omega)) fun test => ?_
  refine .bind (hg.statement false (by omega)) fun yes => ?_
  have hno : p.Retraces (Mode.behind p yes) (k - 1 - 1 - 1)
      (fun no => Mode.behind p (.ifElse test yes no ⟨0, 0⟩)) (k - 1 - 1 - 1)
      (unlessAt (do pure !(← isWord "else")) do
        advance
        g.statement false)
      (unlessAt (do pure !(← isWord "else")) do
        advance
        g'.statement false) (Option.map (Stmt.relocate p.relocate)) := by
    refine unlessAt_retraces (fun token => !(token == .word "else" false)) (fun _ _ => rfl) ?_ rfl
      le_rfl ?_
    · simpa using fun _ => next_ne_of_word rfl
    · refine .bind (advance_inner fun token (htoken : (!(_ == _)) = false) => ?_) fun _ => ?_
      · obtain rfl : token = .word "else" false := by simpa using htoken
        rfl
      · exact (hg.statement false (by omega)).mono (by omega)
  refine .bind hno fun no => .bind (spanFrom_retraces rfl (by omega)) fun span => ?_
  refine pure_behind ?_ ?_ (by omega)
  · simp [Stmt.relocate]
  · cases no <;> rfl

/-! ## Switches -/

theorem switchCase_retraces (hasDefault : Bool) (hk : 0 < k → 3 * k + 3 ≤ d) :
    p.Retraces .inner k (fun _ => .inner) (k - 1) (switchCase g hasDefault)
      (switchCase g' hasDefault)
      (fun found => (found.1.relocate p.relocate, found.2)) := by
  have hbound := hg.bound
  have hrest : ∀ {j : Nat} test (isDefault : Bool), j ≤ k - 1 →
      p.Retraces .inner j (fun _ => .inner) (k - 1)
      (do
        expect ":"
        let body ← repeatUntil (do
          pure ((← isWord "case") || (← isWord "default") || (← isPunctuator "\x7d") || (← atEnd)))
          (g.statement true)
        pure (Stmt.switchCase test body, isDefault))
      (do
        expect ":"
        let body ← repeatUntil (do
          pure ((← isWord "case") || (← isWord "default") || (← isPunctuator "\x7d") || (← atEnd)))
          (g'.statement true)
        pure (Stmt.switchCase (test.map (Expr.relocate p.relocate)) body, isDefault))
      (fun found => (found.1.relocate p.relocate, found.2)) := by
    intro j test isDefault hj
    refine .bind (expect_retraces (Mode.inner_admits p _)) fun _ => ?_
    refine .bind (repeatUntil_retraces (fun token => token == .word "case" false ||
      token == .word "default" false || token == .punctuator "\x7d" || token == .finish)
      (fun _ _ => rfl) False.elim (fun j hj => statement_inner hg true (by omega)) (by omega))
      fun body => .pure ?_ (by omega)
    simp [Stmt.relocate]
  refine eatWord_bind ?_ ?_
  · exact .unexpected_ite (fun h => h) (hrest none true le_rfl)
  · refine .bind (expectWord_retraces (Mode.inner_admits p _)) fun _ => ?_
    refine .bind (fullExpression_retraces hg (Mode.inner_tight p) (by omega)) fun test => ?_
    exact hrest (some test) false (by omega)

theorem switchCases_retraces (rounds : Nat) : ∀ {rounds' k : Nat} (hasDefault : Bool),
    (0 < k → 3 * k + 3 ≤ d) → k < rounds' →
      p.Retraces .inner k (fun _ => .inner) k (switchCases g rounds hasDefault)
        (switchCases g' rounds' hasDefault) (List.map (Stmt.relocate p.relocate)) := by
  induction rounds with
  | zero => exact fun _ _ _ => unexpected_retraces
  | succ rounds ih =>
      intro rounds' k hasDefault hk hrounds
      obtain ⟨rounds', rfl⟩ := Nat.exists_eq_succ_of_ne_zero (Nat.ne_zero_of_lt hrounds)
      rw [switchCases, switchCases]
      refine .bind (isWord_retraces id _) fun isCase => .bind (isWord_retraces id _)
        fun isDefault => ?_
      refine .ite (fun _ => ?_) fun _ => .pure rfl le_rfl
      have hround : ∀ {more : Nat}, k - 1 < more → p.Retraces .inner k (fun _ => .inner) k
          (do
            let found ← switchCase g hasDefault
            let rest ← switchCases g rounds (hasDefault || found.2)
            pure (found.1 :: rest))
          (do
            let found ← switchCase g' hasDefault
            let rest ← switchCases g' more (hasDefault || found.2)
            pure (found.1 :: rest)) (List.map (Stmt.relocate p.relocate)) := fun hmore =>
        .bind (switchCase_retraces hg hasDefault hk) fun found =>
          .bind (ih (hasDefault || found.2) (by omega) hmore) fun _ => .pure rfl (by omega)
      rcases Nat.eq_zero_or_pos k with rfl | hpos
      · exact .at_zero id (hround (Nat.lt_succ_self _))
      · exact hround (by omega)

theorem switchStatement_retraces (hk : 0 < k → 3 * k + 3 ≤ d) :
    p.Retraces (.before (· = .word "switch" false)) k (Mode.behind p) (k - 1) (switchStatement g)
      (switchStatement g') (Stmt.relocate p.relocate) := by
  have hbound := hg.bound
  have hroom := p.room
  refine .bind (here_retraces id) fun start => ?_
  refine .bind (advance_retraces rfl (Mode.inner_admits p _)) fun _ => ?_
  refine .bind (condition_retraces hg (Mode.inner_admits p _) (by omega)) fun subject => ?_
  refine .bind (expect_retraces (Mode.inner_admits p _)) fun _ => ?_
  have hcases : p.Retraces .inner (k - 1 - 1 - 1) (fun _ => .inner) (k - 1 - 1 - 1)
      (do switchCases g (← read).budget false) (do switchCases g' (← read).budget false)
      (List.map (Stmt.relocate p.relocate)) :=
    .read_bind fun setting hbudget => switchCases_retraces hg _ false (by omega)
      (by change _ < p.newBudget; omega)
  refine .bind (hcases.withReader (fun _ => rfl) fun _ => rfl) fun cases => ?_
  refine .bind (expect_retraces (Mode.when_admits True p _)) fun _ => ?_
  refine .bind (spanFrom_retraces rfl (by omega)) fun span => ?_
  exact pure_closed (by simp [Stmt.relocate]) rfl (by omega)

/-! ## Handlers -/

theorem catchClause_retraces (hk : 0 < k → 3 * k + 1 ≤ d) :
    p.Retraces .inner k (fun handler => .when (handler ≠ [])) k (catchClause g) (catchClause g')
      (List.map (Stmt.relocate p.relocate)) := by
  have hbound := hg.bound
  refine .bind (here_retraces id) fun start => ?_
  refine .eatWord_ite (Mode.inner_admits p _) False.elim ?_ ?_
  · have hparam : p.Retraces .inner (k - 1) (fun _ => .inner) (k - 1)
        (unlessAt (do pure !(← isPunctuator "(")) do
          advance
          let param ← g.bindingTarget
          expect ")"
          pure param)
        (unlessAt (do pure !(← isPunctuator "(")) do
          advance
          let param ← g'.bindingTarget
          expect ")"
          pure param) (Option.map (Pattern.relocate p.relocate)) := by
      refine unlessAt_retraces (fun token => !(token == .punctuator "("))
        (fun _ _ => rfl) False.elim
        rfl le_rfl ?_
      refine .bind (advance_inner fun token (htoken : (!(_ == _)) = false) => ?_) fun _ => ?_
      · obtain rfl : token = .punctuator "(" := by simpa using htoken
        rfl
      refine .bind (hg.bindingTarget (Mode.inner_tight p) (by omega)) fun param => ?_
      exact .bind (expect_retraces (Mode.inner_admits p _)) fun _ => .pure rfl (by omega)
    refine .bind hparam fun param => ?_
    refine .bind (block_retraces hg (Mode.when_admits True p _) (by omega)) fun body => ?_
    refine .bind (spanFrom_retraces rfl (by omega)) fun span => pure_when ?_ ?_ (by omega)
    · simp [Stmt.relocate]
    · simp
  · exact pure_when rfl (by simp) le_rfl

theorem finallyClause_retraces (kept : Prop) (hk : 0 < k → 3 * k + 1 ≤ d) :
    p.Retraces (.when kept) k (fun cleanup => .when (kept ∨ cleanup ≠ [])) k (finallyClause g)
      (finallyClause g') (List.map (Stmt.relocate p.relocate)) := by
  refine .eatWord_ite (Mode.inner_admits p _) (fun _ => next_ne_of_word rfl) ?_ ?_
  · refine .bind (block_retraces hg (Mode.when_admits True p _) (by omega)) fun body => ?_
    exact pure_when (by simp [Stmt.relocate]) (by simp) (by omega)
  · exact pure_when rfl (by simp) le_rfl

theorem tryStatement_retraces (hk : 0 < k → 3 * k + 3 ≤ d) :
    p.Retraces (.before (· = .word "try" false)) k (Mode.behind p) (k - 1) (tryStatement g)
      (tryStatement g') (Stmt.relocate p.relocate) := by
  have hbound := hg.bound
  refine .bind (here_retraces id) fun start => ?_
  refine .bind (advance_retraces rfl (Mode.inner_admits p _)) fun _ => ?_
  refine .bind (block_retraces hg (Mode.inner_admits p _) (by omega)) fun body => ?_
  refine .bind (here_retraces id) fun clauseStart => ?_
  refine .bind (catchClause_retraces hg (by omega)) fun handler => ?_
  refine .bind (finallyClause_retraces hg _ (by omega)) fun cleanup => ?_
  dsimp only
  rw [← List.map_append, List.isEmpty_map]
  have hspan : p.Retraces (.when True) (k - 1 - 1) (Mode.behind p) (k - 1)
      (do pure (.tryCatch body (handler ++ cleanup) (← spanFrom start)))
      (do
        pure (.tryCatch (body.relocate p.relocate)
          ((handler ++ cleanup).map (Stmt.relocate p.relocate)) (← spanFrom (p.relocate start))))
      (Stmt.relocate p.relocate) :=
    .bind (spanFrom_retraces rfl (by omega)) fun span =>
      pure_closed (by simp [Stmt.relocate]) rfl (by omega)
  split
  · refine .of_faulty (fun _ _ => trivial) fun setting s value t hrun => ?_
    obtain ⟨-, rfl⟩ := Prod.mk.inj (Except.ok.inj hrun)
    simp [State.mark]
  · rename_i hclauses
    have hkept : handler ≠ [] ∨ cleanup ≠ [] := by
      by_contra hnone
      simp_all
    simpa [hkept] using hspan

/-! ## Jumps -/

omit hg in
theorem unlessAt_eatSemicolon (step : Parser α) :
    unlessAt eatSemicolon step =
      eat ";" >>= fun found => if found = true then pure none else
        atSemicolon >>= fun ended => if ended = true then pure none else
          step >>= fun value => pure (some value) := by
  rw [unlessAt, eatSemicolon, bind_assoc]
  refine congrArg (eat ";" >>= ·) (funext fun found => ?_)
  cases found <;> rfl

omit hg in
theorem jumpStatement_retraces {name : String} (isBreak : Bool) (hk : k ≤ p.text.length) :
    p.Retraces (.before (· = .word name false)) k (Mode.behind p) (k - 1) (jumpStatement isBreak)
      (jumpStatement isBreak) (Stmt.relocate p.relocate) := by
  refine .bind (here_retraces id) fun start => ?_
  refine .bind (advance_retraces rfl ((Mode.outer_tight p).admits nofun)) fun _ => ?_
  have hlabel : p.Retraces (.outer p) (k - 1) (fun _ => .ended p) (k - 1)
      (unlessAt eatSemicolon do
        let id ← identifier
        expectSemicolon
        pure id)
      (unlessAt eatSemicolon do
        let id ← identifier
        expectSemicolon
        pure id) (Option.map (Ident.relocate p.relocate)) := by
    rw [unlessAt_eatSemicolon]
    refine .eat_ite (Mode.when_admits _ p _) ((Mode.outer_tight p).next_ne rfl)
      (.pure rfl (Nat.sub_le _ _)) ?_
    refine atSemicolon_ite rfl (fun _ => trivial) (fun _ => id) id (by omega) le_rfl ?_
    refine .bind (.bind (identifier_retraces (Mode.outer_tight p)) fun id => ?_)
      fun id => .pure rfl le_rfl
    exact .bind (end_retraces (by omega)) fun _ => .pure rfl (Nat.sub_le _ _)
  refine .bind hlabel fun label => .read_bind fun setting _ => ?_
  have hspan : p.Retraces (.ended p) (k - 1) (Mode.behind p) (k - 1)
      (do pure (.simple (← spanFrom start))) (do pure (.simple (← spanFrom (p.relocate start))))
      (Stmt.relocate p.relocate) :=
    .bind (spanFrom_retraces rfl (by omega)) fun span => pure_ended rfl rfl le_rfl
  cases label <;> exact .complain_ite (fun h => h) hspan

theorem returnStatement_retraces (hk : 0 < k → 3 * k + 3 ≤ d) :
    p.Retraces (.before (· = .word "return" false)) k (Mode.behind p) (k - 1) (returnStatement g)
      (returnStatement g') (Stmt.relocate p.relocate) := by
  have hbound := hg.bound
  refine .bind (here_retraces id) fun start => ?_
  refine .bind (advance_retraces rfl ((Mode.outer_tight p).admits nofun)) fun _ => ?_
  have hvalue : p.Retraces (.outer p) (k - 1) (fun _ => .outer p) (k - 1)
      (unlessAt atSemicolon g.fullExpression) (unlessAt atSemicolon g'.fullExpression)
      (Option.map (Expr.relocate p.relocate)) := by
    refine atSemicolon_ite rfl (fun _ => trivial) (fun h _ => h) id (by omega) le_rfl ?_
    refine .bind (fullExpression_retraces hg (Mode.outer_tight p) (by omega)) fun value => ?_
    exact .pure rfl (Nat.sub_le _ _)
  refine .bind hvalue fun value => .bind (end_retraces (by omega)) fun _ => .read_bind
    fun setting _ => ?_
  refine .complain_ite (fun h => h) (.bind (spanFrom_retraces rfl (by omega)) fun span => ?_)
  exact pure_ended (by simp [Stmt.relocate]) rfl le_rfl

theorem throwStatement_retraces (hk : 0 < k → 3 * k + 3 ≤ d) :
    p.Retraces (.before (· = .word "throw" false)) k (Mode.behind p) (k - 1) (throwStatement g)
      (throwStatement g') (Stmt.relocate p.relocate) := by
  have hbound := hg.bound
  refine .bind (here_retraces id) fun start => ?_
  refine .bind (advance_retraces rfl (Mode.inner_admits p _)) fun _ => ?_
  refine .bind (afterNewline_retraces id (by omega)) fun newline => .unexpected_ite (fun h => h) ?_
  refine .bind (fullExpression_retraces hg (Mode.outer_tight p) (by omega)) fun value => ?_
  refine .bind (end_retraces (by omega)) fun _ => ?_
  exact .bind (spanFrom_retraces rfl (by omega)) fun span => pure_ended rfl rfl (by omega)

/-! ## Declarations and expression statements -/

theorem functionDeclaration_retraces (start : Nat) (isAsync : Bool) (hk : 0 < k → 3 * k + 1 ≤ d) :
    p.Retraces pre k (Mode.behind p) (k - 1) (functionDeclaration g start isAsync)
      (functionDeclaration g' (p.relocate start) isAsync) (Stmt.relocate p.relocate) := by
  refine .bind (functionHead_retraces hg start isAsync (Mode.when_admits True p _)
    (fun j hj => (bindingIdentifier_retraces (Mode.inner_tight p)).mono (Nat.sub_le _ _)) hk)
    fun found => ?_
  exact pure_closed rfl rfl le_rfl

theorem classDeclaration_retraces (hk : 0 < k → 3 * k + 3 ≤ d) :
    p.Retraces (.before (· = .word "class" false)) k (Mode.behind p) (k - 1) (classDeclaration g)
      (classDeclaration g') (Stmt.relocate p.relocate) := by
  have hbound := hg.bound
  have hroom := p.room
  refine .bind (here_retraces id) fun start => ?_
  refine .bind (advance_retraces rfl (Mode.inner_admits p _)) fun _ => ?_
  refine .bind (bindingIdentifier_retraces (Mode.inner_tight p)) fun name => ?_
  have hrest : p.Retraces .inner (k - 1 - 1) (fun _ => .when True) (k - 1) (classRest g)
      (classRest g') fun found =>
        (found.1.map (Expr.relocate p.relocate), found.2.map (Member.relocate p.relocate)) := by
    have hheritage : p.Retraces .inner (k - 1 - 1) (fun _ => .inner) (k - 1 - 1)
        (unlessAt (do pure !(← isWord "extends")) do
          advance
          leftHandSide g (← read).budget)
        (unlessAt (do pure !(← isWord "extends")) do
          advance
          leftHandSide g' (← read).budget) (Option.map (Expr.relocate p.relocate)) := by
      refine unlessAt_retraces (fun token => !(token == .word "extends" false)) (fun _ _ => rfl)
        False.elim rfl le_rfl ?_
      refine .bind (advance_inner fun token (htoken : (!(_ == _)) = false) => ?_) fun _ => ?_
      · obtain rfl : token = .word "extends" false := by simpa using htoken
        rfl
      refine .read_bind fun setting hbudget => ?_
      exact (leftHandSide_retraces hg _ (Mode.inner_tight p) (by omega)
        (by change _ < p.newBudget; omega)).mono (by omega)
    refine .bind hheritage fun heritage => ?_
    refine .bind (classBody_retraces hg (Mode.when_admits True p _) (by omega)) fun members => ?_
    exact .pure rfl (by omega)
  refine .bind hrest fun found => .bind (spanFrom_retraces rfl (by omega)) fun span => ?_
  exact pure_closed (by simp [Stmt.relocate]) rfl le_rfl

theorem labelledStatement_retraces (label : Ident) (hk : 0 < k → 3 * k + 4 ≤ d)
    (hinside : k = 0 ∨ k < p.text.length) :
    p.Retraces .inner k (Mode.behind p) k (labelledStatement g label)
      (labelledStatement g' (label.relocate p.relocate)) (Stmt.relocate p.relocate) := by
  refine .read_bind fun setting _ => .complain_ite (fun h => h) ?_
  have hbody : p.Retraces .inner k (Mode.behind p) k
      (do
        if ← isWord "function" then complain (← here)
        g.statement (← isWord "function"))
      (do
        if ← isWord "function" then complain (← here)
        g'.statement (← isWord "function")) (Stmt.relocate p.relocate) := by
    have hstatement : p.Retraces .inner k (Mode.behind p) k
        (do g.statement (← isWord "function")) (do g'.statement (← isWord "function"))
        (Stmt.relocate p.relocate) :=
      .bind (isWord_retraces id _) fun found => (hg.statement found hk).mono (Nat.sub_le _ _)
    refine .bind (isWord_retraces id _) fun found => .ite (fun _ => ?_) fun _ => hstatement
    exact .bind (here_retraces id) fun place => .bind (complain_retraces _ _) fun _ => hstatement
  refine .bind (hbody.withReader (fun _ => rfl) fun _ => rfl) fun body => ?_
  refine .bind (spanFrom_retraces rfl hinside) fun span => ?_
  exact pure_behind rfl rfl le_rfl

theorem expressionStatement_retraces (hk : 0 < k → 3 * k + 3 ≤ d) :
    p.Retraces .inner k (Mode.behind p) (k - 1) (expressionStatement g) (expressionStatement g')
      (Stmt.relocate p.relocate) := by
  have hbound := hg.bound
  refine .bind (here_retraces id) fun start => ?_
  refine .bind (fullExpression_retraces hg (Mode.outer_tight p) hk) fun value => ?_
  have hrest : p.Retraces (.outer p) (k - 1) (Mode.behind p) (k - 1)
      (do
        expectSemicolon
        pure (.expression value (← spanFrom start)))
      (do
        expectSemicolon
        pure (.expression (value.relocate p.relocate) (← spanFrom (p.relocate start))))
      (Stmt.relocate p.relocate) :=
    .bind (end_retraces (by omega)) fun _ => .bind (spanFrom_retraces rfl (by omega)) fun span =>
      pure_ended rfl rfl le_rfl
  cases value with
  | ident label =>
      refine .eat_ite (Mode.inner_admits p _) (fun _ => (next_ne_of_stray rfl).2) ?_ hrest
      exact (labelledStatement_retraces hg label (by omega) (by omega)).mono (by omega)
  | _ => exact hrest

end Grammar

end Passage

end Parser
end Script
end ScriptBundler
