import ScriptBundler.Proofs.Script.Retracing

/-!
# Reading a passage again: patterns, functions and blocks

Each part of the grammar retraces a passage, given that the parts that it calls in turn do.
-/

namespace ScriptBundler
namespace Script

/-- Whether a statement ends in a brace, so that nothing goes on with it. -/
def Stmt.isClosed : Stmt → Bool
  | .function _ _ | .classDecl _ _ _ _ | .block _ | .switchOn _ _ _ | .tryCatch _ _ _ => true
  | .ifElse _ _ (some no) _ => no.isClosed
  | .ifElse _ body none _ | .forLoop _ _ _ body _ | .forEach _ _ body _
  | .forEachTarget _ _ body _ | .whileLoop _ body _ | .labelled _ body _ => body.isClosed
  | _ => false

namespace Parser

open Mark Std.Do

set_option mvcgen.warning false

/-- A key that has been moved. -/
def KeyText.relocate (move : Nat → Nat) (key : KeyText) : KeyText :=
  ⟨key.computed.map (Expr.relocate move), key.word.map (Ident.relocate move), key.name,
    move key.start⟩

/-- An accessor that has been moved. -/
def Accessor.relocate (move : Nat → Nat) : Accessor → Accessor
  | .none => .none
  | .getter key => .getter (move key)
  | .setter key => .setter (move key)

/-- The mode behind a statement. -/
def Mode.behind (p : Passage) (value : Stmt) : Mode :=
  let closed := p.Apart ∨ p.text.getLast? = some ';' ∨ value.isClosed = true
  ⟨closed, closed, fun _ => True⟩

variable {p : Passage} {pre mode : Mode} {k d : Nat}

namespace Passage

/-- Whether each part that a grammar is tied together from retraces a passage, as long as it does
not nest too deep.  Each character that is read takes three levels of nesting, as a statement starts
with an assignment expression, and that with a unary one. -/
structure Reaches (p : Passage) (d : Nat) (g g' : Grammar) : Prop where
  advancing : g.Advancing
  falters : ∀ {s : State} {setting : Setting}, s.current.token.isPartial = true →
    0 < setting.budget → Falters s (g.assignment setting s)
  bound : d ≤ 3 * p.text.length + 3
  unary : ∀ {pre mode : Mode} {k : Nat}, mode.Tight p → (0 < k → 3 * k + 2 ≤ d) →
    p.Retraces pre k (fun _ => mode) (k - 1) g.unary g'.unary (Expr.relocate p.relocate)
  assignment : ∀ {pre mode : Mode} {k : Nat}, mode.Tight p → (0 < k → 3 * k + 3 ≤ d) →
    p.Retraces pre k (fun _ => mode) (k - 1) g.assignment g'.assignment (Expr.relocate p.relocate)
  statement : ∀ {pre : Mode} {k : Nat} (declarations : Bool), (0 < k → 3 * k + 4 ≤ d) →
    p.Retraces pre k (Mode.behind p) (k - 1) (g.statement declarations) (g'.statement declarations)
      (Stmt.relocate p.relocate)
  bindingTarget : ∀ {pre mode : Mode} {k : Nat}, mode.Tight p → (0 < k → 3 * k + 2 ≤ d) →
    p.Retraces pre k (fun _ => mode) (k - 1) g.bindingTarget g'.bindingTarget
      (Pattern.relocate p.relocate)

/-! ## Names -/

theorem bindingIdentifier_retraces (hmode : mode.Tight p) :
    p.Retraces pre k (fun _ => mode) (k - 1) bindingIdentifier bindingIdentifier
      (Ident.relocate p.relocate) := by
  unfold bindingIdentifier
  refine .bind (identifier_retraces hmode) fun id => ?_
  exact .complain_ite (fun h => h) (.pure rfl le_rfl)

theorem identifierName_retraces (hmode : mode.Tight p) :
    p.Retraces pre k (fun _ => mode) (k - 1) identifierName identifierName
      (Ident.relocate p.relocate) := by
  refine .of_advances (fun _ => hmode.known) (fun s _ => identifierName_advances s) ?_
  intro setting s s' hstands _
  refine hstands.requireToken_bind (hstands.token_bind ?_)
  cases htoken : s.current.token with
  | word name escaped =>
      refine .get_bind (hstands.follows_of_eq htoken ?_)
      refine .bind (advance_retraces rfl (hmode.admits nofun)) fun _ => .pure ?_ le_rfl
      exact congrArg (Ident.mk name) hstands.span
  | _ => exact hstands.follows unexpected_retraces

/-- The name after `#` stands right behind it in both sources, or in none of them. -/
theorem privateName_retraces (hmode : mode.Tight p) (hk : k ≤ p.text.length) :
    p.Retraces pre k (fun _ => mode) (k - 1) privateName privateName id := by
  unfold privateName
  refine .bind (expect_retraces (Mode.inner_admits p _)) fun _ => ?_
  refine .mono ?_ (Nat.sub_le _ 1)
  refine .of_advances (fun _ => hmode.known) (fun s _ => triple_of fun holds hholds => ?_) ?_
  · mvcgen <;> grind -ring -linarith
  intro setting s s' hstands _
  refine hstands.here_bind (.get_bind ?_)
  have hgap : (s'.previous.stop != p.relocate s.current.span.start) =
      (s.previous.stop != s.current.span.start) := by
    rw [(hstands.inner (by omega)).2.2, Bool.eq_iff_iff, bne_iff_ne, bne_iff_ne]
    exact not_congr (relocate_inj hstands.start_le)
  dsimp only
  rw [hgap]
  refine hstands.follows (.bind (identifierName_retraces hmode) fun id => ?_)
  exact .ite (fun _ => refuse_retraces _) fun _ => .pure rfl le_rfl

theorem optionalName_retraces :
    p.Retraces .inner k (fun _ => .inner) k optionalName optionalName
      (Option.map (Ident.relocate p.relocate)) := by
  unfold optionalName
  refine .bind (token_retraces id) fun found => .of_inner ?_
  dsimp only [id]
  split
  · exact .pure rfl le_rfl
  · exact .bind (bindingIdentifier_retraces (Mode.inner_tight p))
      fun id => .pure rfl (Nat.sub_le _ _)
  · exact .pure rfl le_rfl

/-! ## Notes about patterns -/

theorem checkRests_retraces (elements : List Pattern) :
    p.Retraces pre k (fun _ => pre) k (checkRests elements)
      (checkRests (elements.map (Pattern.relocate p.relocate))) id := by
  unfold checkRests
  rw [← List.map_dropLast]
  refine forM_retraces (fun element => ?_) _
  cases element with
  | rest inner span => exact complain_retraces _ _
  | _ => exact .pure rfl le_rfl

theorem checkAccessor_retraces (accessor : Accessor) (params : List Pattern) :
    p.Retraces pre k (fun _ => pre) k (checkAccessor accessor params)
      (checkAccessor (accessor.relocate p.relocate) (params.map (Pattern.relocate p.relocate)))
      id := by
  cases accessor with
  | none => exact .pure rfl le_rfl
  | getter key =>
      cases params with
      | nil => exact .pure rfl le_rfl
      | cons => exact complain_retraces _ _
  | setter key =>
      rcases params with _ | ⟨param, _ | ⟨_, _⟩⟩
      · exact complain_retraces _ _
      · cases param with
        | rest => exact complain_retraces _ _
        | _ => exact .pure rfl le_rfl
      · cases param <;> exact complain_retraces _ _

section Grammar

variable {g g' : Grammar} (hg : p.Reaches d g g')

include hg

/-! ## Expressions -/

theorem value_retraces (hmode : mode.Tight p) (hk : 0 < k → 3 * k + 3 ≤ d) :
    p.Retraces pre k (fun _ => mode) (k - 1) g.value g'.value (Expr.relocate p.relocate) :=
  (hg.assignment hmode hk).withIn

theorem expression_retraces (hmode : mode.Tight p) (hk : 0 < k → 3 * k + 3 ≤ d) :
    p.Retraces pre k (fun _ => mode) (k - 1) g.expression g'.expression
      (Expr.relocate p.relocate) := by
  have hbound := hg.bound
  unfold Grammar.expression
  refine .of_inner (.bind (here_retraces id) fun start => ?_)
  refine .bind (hg.assignment hmode hk) fun first => ?_
  refine .isPunctuator_ite (hmode.next_ne rfl) ?_ (.pure rfl le_rfl)
  have hround : ∀ j ≤ k - 1,
      p.Retraces (.before fun token => (!(token == .punctuator ",")) = false) j (fun _ => mode)
        (j - 1)
        (do advance; g.assignment) (do advance; g'.assignment) (Expr.relocate p.relocate) := by
    intro j hj
    have hcomma : ∀ token : Token,
        (!(token == .punctuator ",")) = false → token.isProper = true := by
      intro token htoken
      obtain rfl : token = .punctuator "," := by simpa using htoken
      rfl
    exact .bind (advance_inner hcomma) fun _ =>
      (hg.assignment hmode (by omega)).mono (Nat.sub_le _ _)
  refine .bind (repeatUntil_of_known (fun token => !(token == .punctuator ",")) (fun _ _ => rfl)
    (fun hkeeps => by simpa using hmode.next_ne rfl hkeeps) hround
    (fun _ htoken => by rw [htoken]; rfl) (by omega)) fun rest => ?_
  refine .bind (spanFrom_retraces rfl (by omega)) fun span => .pure ?_ le_rfl
  simp [Expr.relocate]

theorem fullExpression_retraces (hmode : mode.Tight p) (hk : 0 < k → 3 * k + 3 ≤ d) :
    p.Retraces pre k (fun _ => mode) (k - 1) g.fullExpression g'.fullExpression
      (Expr.relocate p.relocate) :=
  (expression_retraces hg hmode hk).withIn

/-! ## Patterns -/

theorem propertyKey_retraces (inClass : Bool) (hmode : mode.Tight p) (hk : 0 < k → 3 * k + 1 ≤ d) :
    p.Retraces pre k (fun _ => mode) (k - 1) (propertyKey g inClass) (propertyKey g' inClass)
      (KeyText.relocate p.relocate) := by
  have hbound := hg.bound
  refine .of_advances (fun _ => hmode.known)
    (fun s _ => propertyKey_advances s hg.advancing inClass) ?_
  intro setting s s' hstands _
  refine hstands.requireToken_bind (hstands.here_bind (hstands.token_bind ?_))
  generalize htoken : s.current.token = found
  split
  · exact hstands.follows (.bind (identifierName_retraces hmode) fun id => .pure rfl le_rfl)
  · exact hstands.follows_of_eq htoken
      (.bind (advance_retraces rfl (hmode.admits nofun)) fun _ => .pure rfl le_rfl)
  · exact hstands.follows_of_eq htoken
      (.bind (advance_retraces rfl (hmode.admits nofun)) fun _ => .pure rfl le_rfl)
  · refine hstands.follows_of_eq htoken
      (.bind (advance_retraces rfl (Mode.inner_admits p _)) fun _ => ?_)
    refine .bind (value_retraces hg (Mode.inner_tight p) (by omega)) fun key => ?_
    exact .bind (expect_retraces (hmode.admits (by decide))) fun _ => .pure rfl (by omega)
  · refine hstands.follows ?_
    dsimp only
    exact .unexpected_ite (fun h => h)
      (.bind (privateName_retraces hmode (by omega)) fun _ => .pure rfl le_rfl)
  · exact hstands.follows unexpected_retraces

theorem bindingElement_retraces (hmode : mode.Tight p) (hk : 0 < k → 3 * k + 2 ≤ d)
    (hend : mode.keeps → p.newNext.token ≠ .punctuator "=") :
    p.Retraces pre k (fun _ => mode) (k - 1) (bindingElement g) (bindingElement g')
      (Pattern.relocate p.relocate) := by
  have hbound := hg.bound
  unfold bindingElement
  refine .of_inner (.bind (here_retraces id) fun start => ?_)
  refine .bind (hg.bindingTarget hmode hk) fun target => ?_
  refine .eat_ite (Mode.inner_admits p _) hend ?_ (.pure rfl le_rfl)
  refine .bind (value_retraces hg hmode (by omega)) fun value => ?_
  exact .bind (spanFrom_retraces rfl (by omega)) fun span => .pure rfl (by omega)

theorem arrayPatternElement_retraces (hk : 0 < k → 3 * k + 2 ≤ d) :
    p.Retraces pre k (fun _ => .inner) (k - 1) (arrayPatternElement g) (arrayPatternElement g')
      (Pattern.relocate p.relocate) := by
  have hbound := hg.bound
  have hinner := Mode.inner_tight p
  unfold arrayPatternElement
  refine .of_inner (.eat_ite (Mode.inner_admits p _) False.elim (.pure rfl le_rfl) ?_)
  refine .bind (here_retraces id) fun start => .bind (eat_retraces _) fun isRest => ?_
  dsimp only [id]
  have hrest : ∀ element, p.Retraces .inner (k - 1) (fun _ => .inner) (k - 1)
      (do
        if !(← isPunctuator "]") then
          let comma ← here
          expect ","
          if isRest && (← isPunctuator "]") then complain comma
        pure element)
      (do
        if !(← isPunctuator "]") then
          let comma ← here
          expect ","
          if isRest && (← isPunctuator "]") then complain comma
        pure (element.relocate p.relocate)) (Pattern.relocate p.relocate) := by
    intro element
    dsimp only
    rw [bind_ite_not, bind_ite_not]
    refine .isPunctuator_ite False.elim (.of_inner (.pure rfl le_rfl)) ?_
    refine .bind (here_retraces id) fun comma => .bind (expect_retraces (Mode.inner_admits p _))
      fun _ => ?_
    exact .bind (isPunctuator_retraces id _)
      fun _ => .complain_ite (fun h => h) (.pure rfl (by omega))
  refine .ite (fun _ => ?_) fun _ => ?_
  · refine .bind (hg.bindingTarget hinner hk) fun inner => ?_
    refine .bind (spanFrom_retraces rfl (by omega)) fun span => ?_
    exact hrest (.rest inner span)
  · exact .bind (bindingElement_retraces hg hinner hk False.elim) hrest

theorem objectPatternMember_retraces (hk : 0 < k → 3 * k + 2 ≤ d) :
    p.Retraces pre k (fun _ => .inner) (k - 1) (objectPatternMember g) (objectPatternMember g')
      (Pattern.relocate p.relocate) := by
  have hbound := hg.bound
  have hinner := Mode.inner_tight p
  unfold objectPatternMember
  refine .of_inner (.bind (here_retraces id) fun start => ?_)
  refine .eat_ite (Mode.inner_admits p _) False.elim ?_ ?_
  · refine .bind (here_retraces id) fun innerStart => ?_
    refine .bind (hg.bindingTarget hinner (by omega)) fun inner => ?_
    cases inner with
    | ident id => exact .bind (spanFrom_retraces rfl (by omega)) fun span => .pure rfl (by omega)
    | _ => exact refuse_retraces _
  · refine .bind (propertyKey_retraces hg false hinner (by omega)) fun key => ?_
    refine .eat_ite (Mode.inner_admits p _) False.elim ?_ ?_
    · exact .bind (bindingElement_retraces hg hinner (by omega) False.elim) fun value =>
        .pure (by simp [Pattern.relocate, KeyText.relocate]) (by omega)
    · rcases key with ⟨computed, _ | id, name, place⟩
      · exact unexpected_retraces
      · refine .eat_ite (Mode.inner_admits p _) False.elim ?_ ?_
        · exact .bind (value_retraces hg hinner (by omega)) fun value => .pure rfl (by omega)
        · exact .complain_ite (fun h => h) (.pure rfl le_rfl)

theorem bindingTarget_retraces (hmode : mode.Tight p) (hk : 0 < k → 3 * k + 1 ≤ d) :
    p.Retraces pre k (fun _ => mode) (k - 1) (bindingTarget g) (bindingTarget g')
      (Pattern.relocate p.relocate) := by
  have hbound := hg.bound
  refine .of_advances (fun _ => hmode.known) (fun s _ => bindingTarget_advances s hg.advancing) ?_
  intro setting s s' hstands _
  refine hstands.requireToken_bind (hstands.here_bind (hstands.token_bind ?_))
  generalize htoken : s.current.token = found
  split
  · exact hstands.follows (.bind (bindingIdentifier_retraces hmode) fun id => .pure rfl le_rfl)
  · refine hstands.follows_of_eq htoken
      (.bind (advance_retraces rfl (Mode.inner_admits p _)) fun _ => ?_)
    refine .bind (repeatUntil_closing "]" (by omega) fun k hk =>
      arrayPatternElement_retraces hg (by omega)) fun elements => ?_
    refine .bind (expect_retraces (hmode.admits (by decide))) fun _ => ?_
    refine .bind (checkRests_retraces _) fun _ => .bind (spanFrom_retraces rfl (by omega))
      fun span => ?_
    exact .pure (by simp [Pattern.relocate]) (by omega)
  · refine hstands.follows_of_eq htoken
      (.bind (advance_retraces rfl (Mode.inner_admits p _)) fun _ => ?_)
    refine .bind (commaList_retraces (by omega) (hmode.admits (by decide)) fun k hk =>
      objectPatternMember_retraces hg (by omega)) fun found => ?_
    rcases found with ⟨members, comma⟩
    refine .bind (checkRests_retraces _) fun _ => ?_
    -- a comma behind the rest of an object is noted as a fault, and nothing else depends on it
    have hspan : p.Retraces mode (k - 1 - 1) (fun _ => mode) (k - 1)
        (do pure (.object members (← spanFrom s.current.span.start)))
        (do pure (.object (members.map (Pattern.relocate p.relocate))
          (← spanFrom (p.relocate s.current.span.start)))) (Pattern.relocate p.relocate) :=
      .bind (spanFrom_retraces rfl (by omega)) fun span =>
        .pure (by simp [Pattern.relocate]) (by omega)
    dsimp only
    rw [List.getLast?_map]
    rcases members.getLast? with _ | last
    · exact hspan
    · cases last with
      | rest inner span =>
          rcases comma with _ | comma
          · exact hspan
          · exact .bind (complain_retraces _ _) fun _ => hspan
      | _ => exact hspan
  · exact hstands.follows unexpected_retraces

/-! ## Blocks and functions -/

/-- A statement that something else has to follow. -/
theorem statement_inner (declarations : Bool) (hk : 0 < k → 3 * k + 4 ≤ d) :
    p.Retraces pre k (fun _ => .inner) (k - 1) (g.statement declarations)
      (g'.statement declarations)
      (Stmt.relocate p.relocate) :=
  (hg.statement declarations hk).relax (fun _ => False.elim) fun _ _ => id

omit hg in
/-- What is a directive stays one. -/
theorem directiveSpan_relocate {first first' : Lexeme} (htoken : first'.token = first.token)
    (hspan : first'.span = first.span.relocate p.relocate) (hstart : p.start ≤ first.span.start)
    (hstop : p.start ≤ first.span.stop) (statement : Stmt) :
    (directiveSpan first' (statement.relocate p.relocate)).isSome =
      (directiveSpan first statement).isSome := by
  have hsame : ∀ span : Span, span.relocate p.relocate = first'.span ↔ span = first.span := by
    rintro ⟨start, stop⟩
    rw [hspan]
    change Span.mk _ _ = Span.mk _ _ ↔ Span.mk _ _ = Span.mk _ _
    rw [Span.mk.injEq, Span.mk.injEq]
    exact and_congr (relocate_inj hstart) (relocate_inj hstop)
  unfold directiveSpan
  rw [htoken]
  generalize first.token = found
  cases found with
  | quoted text =>
      cases statement with
      | expression value extent =>
          cases value with
          | atom span =>
              simp only [Stmt.relocate, Expr.relocate, hsame]
              split <;> rfl
          | _ => rfl
      | _ => rfl
  | _ => rfl

/-- The statements of a function, up to its closing brace. -/
theorem functionStatements_retraces (simple : Bool) (rounds : Nat) :
    ∀ {rounds' k : Nat} (directives : Bool), (0 < k → 3 * k + 4 ≤ d) → k < rounds' →
      p.Retraces .inner k (fun _ => .inner) k (functionStatements g simple rounds directives)
        (functionStatements g' simple rounds' directives)
        (List.map (Stmt.relocate p.relocate)) := by
  have hbound := hg.bound
  induction rounds with
  | zero => exact fun _ _ _ => unexpected_retraces
  | succ rounds ih =>
      intro rounds' k directives hk hrounds
      obtain ⟨rounds', rfl⟩ := Nat.exists_eq_succ_of_ne_zero (Nat.ne_zero_of_lt hrounds)
      rw [functionStatements, functionStatements]
      refine .bind (isPunctuator_retraces id _) fun closing => .bind (atEnd_retraces id)
        fun ending => ?_
      refine .ite (fun _ => .pure rfl le_rfl) fun _ => ?_
      refine .of_advances (fun _ _ => trivial) (fun s _ => triple_of fun holds hholds => ?_) ?_
      · have hg := hg.advancing
        mvcgen <;> grind -ring -linarith
      intro setting s s' hstands _
      refine .get_bind (hstands.follows ?_)
      have hpos := hstands.pos
      have hlength := hstands.span_length
      refine .bind (statement_inner hg true hk) fun statement => ?_
      dsimp only
      rw [directiveSpan_relocate hstands.token hstands.span hstands.start_le hstands.start_le_stop,
        hstands.token, hlength]
      refine .complain_ite (fun h => h) ?_
      exact .bind (ih _ (by omega) (by omega)) fun rest => .pure rfl (Nat.sub_le _ _)

theorem block_retraces (hmode : mode.Admits p (.punctuator "\x7d")) (hk : 0 < k → 3 * k + 1 ≤ d) :
    p.Retraces pre k (fun _ => mode) (k - 1) (block g) (block g') (Block.relocate p.relocate) := by
  have hbound := hg.bound
  unfold block
  refine .of_inner (.bind (here_retraces id) fun start => ?_)
  refine .bind (expect_retraces (Mode.inner_admits p _)) fun _ => ?_
  refine .bind (repeatUntil_closing "\x7d" (by omega) fun k hk =>
    statement_inner hg true (by omega)).withIn fun body => ?_
  refine .bind (expect_retraces hmode) fun _ => ?_
  refine .bind (spanFrom_retraces rfl (by omega)) fun span => .pure ?_ (by omega)
  simp [Block.relocate]

theorem functionBlock_retraces (simple : Bool) (hmode : mode.Admits p (.punctuator "\x7d"))
    (hk : 0 < k → 3 * k + 1 ≤ d) :
    p.Retraces pre k (fun _ => mode) (k - 1) (functionBlock g simple) (functionBlock g' simple)
      (Block.relocate p.relocate) := by
  have hbound := hg.bound
  have hroom := p.room
  unfold functionBlock
  refine .of_inner (.bind (here_retraces id) fun start => ?_)
  refine .bind (expect_retraces (Mode.inner_admits p _)) fun _ => ?_
  have hbody : p.Retraces .inner (k - 1) (fun _ => .inner) (k - 1)
      (do functionStatements g simple (← read).budget true)
      (do functionStatements g' simple (← read).budget true)
      (List.map (Stmt.relocate p.relocate)) :=
    .read_bind fun _ _ => functionStatements_retraces hg simple _ true (by omega)
      (show k - 1 < p.newBudget by omega)
  refine .bind hbody.withIn fun body => ?_
  refine .bind (expect_retraces hmode) fun _ => ?_
  refine .bind (spanFrom_retraces rfl (by omega)) fun span => .pure ?_ (by omega)
  simp [Block.relocate]

theorem formalParameter_retraces (hk : 0 < k → 3 * k + 2 ≤ d) :
    p.Retraces pre k (fun _ => .inner) (k - 1) (formalParameter g) (formalParameter g')
      (Pattern.relocate p.relocate) := by
  have hbound := hg.bound
  have hinner := Mode.inner_tight p
  unfold formalParameter
  refine .of_inner (.bind (here_retraces id) fun start => ?_)
  refine .eat_ite (Mode.inner_admits p _) False.elim ?_ ?_
  · refine .bind (hg.bindingTarget hinner (by omega)) fun inner => ?_
    dsimp only
    refine .eat_ite (Mode.inner_admits p _) False.elim ?_ ?_
    · refine .bind (value_retraces hg hinner (by omega)).discard fun _ => ?_
      refine .bind (complain_retraces _ _) fun _ => ?_
      exact .bind (spanFrom_retraces rfl (by omega)) fun span => .pure rfl (by omega)
    · exact .bind (spanFrom_retraces rfl (by omega)) fun span => .pure rfl (by omega)
  · exact bindingElement_retraces hg hinner hk False.elim

theorem functionRest_retraces {accessor accessor' : Accessor} {start start' : Nat}
    (isAsync isGenerator isMethod : Bool)
    (hstart : start' = p.relocate start) (haccessor : accessor' = accessor.relocate p.relocate)
    (hmode : mode.Admits p (.punctuator "\x7d")) (hk : 0 < k → 3 * k + 1 ≤ d) :
    p.Retraces pre k (fun _ => mode) (k - 1)
      (functionRest g start isAsync isGenerator isMethod accessor)
      (functionRest g' start' isAsync isGenerator isMethod accessor')
      (Function.relocate p.relocate) := by
  have hbound := hg.bound
  subst hstart haccessor
  refine apart_retraces (.withReader ?_ (fun _ => rfl) fun _ => rfl)
  refine .bind (expect_retraces (Mode.inner_admits p _)) fun _ => ?_
  have hparams : p.Retraces .inner (k - 1) (fun _ => .inner) (k - 1 - 1)
      (commaList ")" (formalParameter g)) (commaList ")" (formalParameter g'))
      fun found => (found.1.map (Pattern.relocate p.relocate), found.2.map p.relocate) :=
    commaList_retraces (by omega) (Mode.inner_admits p _) fun j hj =>
      formalParameter_retraces hg (show 0 < j → 3 * j + 2 ≤ d by omega)
  refine .bind (hparams.withReader (fun _ => rfl) fun _ => rfl) fun found => ?_
  rcases found with ⟨params, comma⟩
  refine .bind (checkRests_retraces _) fun _ => ?_
  -- what follows the parameters is the same with and without a comma behind the last one
  have hrest : p.Retraces .inner (k - 1 - 1) (fun _ => mode) (k - 1)
      (do
        checkAccessor accessor params
        let body ← withReader (·.inBody isAsync isGenerator false)
          (functionBlock g (areSimple params))
        pure (.block params body (← spanFrom start)))
      (do
        checkAccessor (accessor.relocate p.relocate) (params.map (Pattern.relocate p.relocate))
        let body ← withReader (·.inBody isAsync isGenerator false)
          (functionBlock g' (areSimple (params.map (Pattern.relocate p.relocate))))
        pure (.block (params.map (Pattern.relocate p.relocate)) body
          (← spanFrom (p.relocate start))))
      (Function.relocate p.relocate) := by
    refine .bind (checkAccessor_retraces accessor params) fun _ => ?_
    rw [areSimple_relocate]
    refine .bind
      ((functionBlock_retraces hg _ hmode (by omega)).withReader (fun _ => rfl) fun _ => rfl)
      fun body => ?_
    refine .bind (spanFrom_retraces rfl (by omega)) fun span => .pure ?_ (by omega)
    simp [Function.relocate]
  dsimp only
  rw [List.getLast?_map]
  rcases params.getLast? with _ | last
  · exact hrest
  · cases last with
    | rest inner span =>
        rcases comma with _ | comma
        · exact hrest
        · exact .bind (complain_retraces _ _) fun _ => hrest
    | _ => exact hrest

theorem arrowRest_retraces (start : Nat) (isAsync : Bool) (params : List Pattern)
    (hmode : mode.Tight p) (hk : 0 < k → 3 * k + 3 ≤ d) :
    p.Retraces pre k (fun _ => mode) (k - 1) (arrowRest g start isAsync params)
      (arrowRest g' (p.relocate start) isAsync (params.map (Pattern.relocate p.relocate)))
      (Expr.relocate p.relocate) := by
  have hbound := hg.bound
  refine apart_retraces (.withReader (.of_inner (.isPunctuator_ite False.elim (.of_inner ?_) ?_))
    (fun _ => rfl) fun _ => rfl)
  · rw [areSimple_relocate]
    refine .bind (functionBlock_retraces hg _ (hmode.admits (by decide)) (by omega)) fun body => ?_
    refine .bind (spanFrom_retraces rfl (by omega)) fun span => .pure ?_ le_rfl
    simp [Expr.relocate, Function.relocate]
  · refine .bind (hg.assignment hmode (by omega)) fun value => ?_
    refine .bind (spanFrom_retraces rfl (by omega)) fun span => .pure ?_ le_rfl
    simp [Expr.relocate, Function.relocate]

theorem functionHead_retraces {α γ : Type} {name : Parser α} {name' : Parser γ} {f : α → γ}
    (start : Nat) (isAsync : Bool) (hmode : mode.Admits p (.punctuator "\x7d"))
    (hname : ∀ j ≤ k, p.Retraces .inner j (fun _ => .inner) j name name' f)
    (hk : 0 < k → 3 * k + 1 ≤ d) :
    p.Retraces pre k (fun _ => mode) (k - 1) (functionHead g start isAsync name)
      (functionHead g' (p.relocate start) isAsync name')
      fun found => (f found.1, found.2.relocate p.relocate) := by
  unfold functionHead
  refine .bind (expectWord_retraces (Mode.inner_admits p _)) fun _ => ?_
  refine .bind (eat_retraces _) fun isGenerator => .bind (hname _ (Nat.sub_le _ _)) fun name => ?_
  refine .bind (functionRest_retraces hg _ _ _ rfl rfl hmode (by omega))
    fun body => .pure rfl (Nat.sub_le _ _)

end Grammar

end Passage

end Parser
end Script
end ScriptBundler
