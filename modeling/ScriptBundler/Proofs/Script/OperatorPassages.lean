import ScriptBundler.Proofs.Script.ExpressionPassages

/-!
# Reading a passage again: operators
-/

namespace ScriptBundler
namespace Script
namespace Parser

open Mark Std.Do Text

set_option mvcgen.warning false

variable {p : Passage} {pre mode : Mode} {k d : Nat}

/-- What is read behind `start` of an operator that stands before its operand. -/
def prefixOperation (g : Grammar) (start : Nat) (operator : String) : Parser Expr := do
  advance
  let operand ← g.unary
  match operator, operand with
  | "delete", .ident id => complain id.span.start
  | _, _ => pure ()
  pure (.compound (.unary operator) [operand] (← spanFrom start))

/-- What is read behind `start` of an increment that stands before its operand. -/
def prefixUpdate (g : Grammar) (start : Nat) (operator : String) : Parser Expr := do
  advance
  let operand ← g.unary
  checkSimpleTarget operand
  pure (.update operator operand (← spanFrom start))

/-- What is read behind an operand: an increment on its line, or nothing. -/
def postfixUpdate (start : Nat) (operand : Expr) : Parser Expr := do
  if isArrow operand || (← afterNewline) then pure operand
  else if ← isPunctuator "++" then
    checkSimpleTarget operand
    advance
    pure (.update "++" operand (← spanFrom start))
  else if ← isPunctuator "--" then
    checkSimpleTarget operand
    advance
    pure (.update "--" operand (← spanFrom start))
  else pure operand

/-- What is read behind `yield`. -/
def yieldRest (g : Grammar) (start : Nat) : Parser Expr := do
  if ← atSemicolon then return .compound .yield [] (← spanFrom start)
  if ← eat "*" then
    let operand ← g.assignment
    return .compound .yield [operand] (← spanFrom start)
  if startsOperand (← token) then
    let operand ← g.assignment
    return .compound .yield [operand] (← spanFrom start)
  pure (.compound .yield [] (← spanFrom start))

/-- The pattern that an operator other than `=` assigns to. -/
def updatedTarget : Expr → Pattern
  | .ident id => .ident id
  | left => .target left

/-- What is read behind the left side of an assignment, if there is one. -/
def assignmentRest (g : Grammar) (start : Nat) (left : Expr) : Parser Expr := do
  match ← token with
  | .punctuator "=" =>
    let target ← asPattern .whole left
    advance
    let value ← g.assignment
    pure (.assign "=" target value (← spanFrom start))
  | .punctuator operator =>
    if assignmentOperators.contains operator then
      checkSimpleTarget left
      advance
      let value ← g.assignment
      pure (.assign operator (updatedTarget left) value (← spanFrom start))
    else pure left
  | _ => pure left

namespace Passage

section Grammar

variable {g g' : Grammar} (hg : p.Reaches d g g')

include hg

/-! ## Unary operators -/

omit hg in
/-- What is awaited or yielded within the text is noted by both parsers. -/
theorem suspend_retraces {start : Nat} (hstart : p.start ≤ start) (hstop : start < p.stop) :
    p.Retraces pre k (fun _ => pre) k
      (modify fun state => { state with suspension := some start })
      (modify fun state => { state with suspension := some (p.relocate start) }) (fun _ => ()) :=
  .modify (fun _ => rfl) (fun _ => ⟨rfl, rfl⟩) fun _ _ halike =>
    { halike with suspension := carries_cons hstart hstop (carries_nil []) }

omit hg in
/-- An increment stands behind its operand on the same line. -/
theorem postfixUpdate_retraces (start : Nat) (operand : Expr) (hmode : mode.Tight p)
    (hinside : k = 0 ∨ k < p.text.length) :
    p.Retraces mode k (fun _ => mode) k (postfixUpdate start operand)
      (postfixUpdate (p.relocate start) (operand.relocate p.relocate))
      (Expr.relocate p.relocate) := by
  refine .of_tail (fun _ => operand) (fun _ => operand.relocate p.relocate) hmode.known
    (fun s => triple_of fun holds hholds => ?_) (fun setting s s' hstands => ?_) ?_ fun _ _ _ => rfl
  · mvcgen [postfixUpdate] <;> grind -ring -linarith
  · have hincrement : ∀ operator, Token.punctuator operator ≠ .punctuator ";" →
        p.Retraces (.before (· = .punctuator operator)) k (fun _ => mode) k
        (do
          checkSimpleTarget operand
          advance
          pure (.update operator operand (← spanFrom start)))
        (do
          checkSimpleTarget (operand.relocate p.relocate)
          advance
          pure (.update operator (operand.relocate p.relocate) (← spanFrom (p.relocate start))))
        (Expr.relocate p.relocate) := by
      intro operator hplain
      refine .bind (checkSimpleTarget_retraces operand) fun _ => ?_
      refine .bind (advance_retraces rfl (hmode.admits hplain)) fun _ => ?_
      exact .bind (spanFrom_retraces rfl (by omega)) fun span => .pure rfl (Nat.sub_le _ _)
    unfold postfixUpdate
    rw [isArrow_relocate]
    refine hstands.afterNewline_bind hinside ?_
    split
    · exact hstands.pure (hmode.known _) rfl le_rfl
    refine hstands.isPunctuator_bind _ ?_
    split
    · rename_i hsame
      exact hstands.follows_of_eq (eq_of_beq hsame) (hincrement "++" (by decide))
    refine hstands.isPunctuator_bind _ ?_
    split
    · rename_i hsame
      exact hstands.follows_of_eq (eq_of_beq hsame) (hincrement "--" (by decide))
    · exact hstands.pure (hmode.known _) rfl le_rfl
  · -- behind a line end, `++` and `--` belong to what comes next
    intro hkeeps setting s hcurrent
    rw [postfixUpdate, run_bind run_afterNewline]
    split
    · rfl
    · rename_i hsame
      have hfinish : s.current.token = .finish :=
        (hcurrent ▸ p.newApart).resolve_left (by simp_all)
      rw [run_bind (run_isPunctuator _), hfinish, if_neg (by decide),
        run_bind (run_isPunctuator _), hfinish, if_neg (by decide)]
      rfl

omit hg in
theorem exists_ident_of_relocate {move : Nat → Nat} {value : Expr} {id : Ident}
    (hvalue : value.relocate move = .ident id) : ∃ old, value = .ident old := by
  cases value with
  | ident old => exact ⟨old, rfl⟩
  | _ => simp [Expr.relocate] at hvalue

theorem prefixOperation_retraces {found : Token} (hproper : found.isProper = true)
    (start : Nat) (operator : String) (hmode : mode.Tight p) (hk : 0 < k → 3 * k + 1 ≤ d) :
    p.Retraces (.before (· = found)) k (fun _ => mode) (k - 1) (prefixOperation g start operator)
      (prefixOperation g' (p.relocate start) operator) (Expr.relocate p.relocate) := by
  have hbound := hg.bound
  refine .bind (advance_inner fun _ h => h ▸ hproper) fun _ => ?_
  refine .bind ((hg.unary hmode (by omega)).mono (Nat.sub_le _ _)) fun operand => ?_
  have hspan : p.Retraces mode (k - 1) (fun _ => mode) (k - 1)
      (do pure (.compound (.unary operator) [operand] (← spanFrom start)))
      (do pure (.compound (.unary operator) [operand.relocate p.relocate]
        (← spanFrom (p.relocate start)))) (Expr.relocate p.relocate) :=
    .bind (spanFrom_retraces rfl (by omega)) fun span => .pure (by simp [Expr.relocate]) le_rfl
  refine hspan.of_complains ?_
  split
  · exact Or.inr ⟨_, rfl⟩
  · rename_i hother
    refine Or.inl ⟨rfl, ?_⟩
    split
    · rename_i id hid
      obtain ⟨old, rfl⟩ := exists_ident_of_relocate hid
      exact absurd rfl (hother old rfl)
    · rfl

theorem prefixUpdate_retraces {found : Token} (hproper : found.isProper = true)
    (start : Nat) (operator : String) (hmode : mode.Tight p) (hk : 0 < k → 3 * k + 1 ≤ d) :
    p.Retraces (.before (· = found)) k (fun _ => mode) (k - 1) (prefixUpdate g start operator)
      (prefixUpdate g' (p.relocate start) operator) (Expr.relocate p.relocate) := by
  have hbound := hg.bound
  refine .bind (advance_inner fun _ h => h ▸ hproper) fun _ => ?_
  refine .bind ((hg.unary hmode (by omega)).mono (Nat.sub_le _ _)) fun operand => ?_
  refine .bind (checkSimpleTarget_retraces operand) fun _ => ?_
  exact .bind (spanFrom_retraces rfl (by omega)) fun span => .pure (by simp [Expr.relocate]) le_rfl

theorem unary_retraces (hmode : mode.Tight p) (hk : 0 < k → 3 * k + 1 ≤ d) :
    p.Retraces pre k (fun _ => mode) (k - 1) (unary g) (unary g') (Expr.relocate p.relocate) := by
  have hbound := hg.bound
  have hroom := p.room
  refine .of_advances (fun _ => hmode.known) (fun s _ => unary_advances (s := s) hg.advancing) ?_
  intro setting s s' hstands _
  have hpos := hstands.pos
  have hproper := hstands.proper
  refine hstands.here_bind (hstands.token_bind ?_)
  generalize hstart : s.current.span.start = start
  generalize htoken : s.current.token = found at hproper ⊢
  have hoperation := fun operator =>
    prefixOperation_retraces (k := k) hg hproper start operator hmode (by omega)
  have hupdate := fun operator =>
    prefixUpdate_retraces (k := k) hg hproper start operator hmode (by omega)
  split
  · exact hstands.follows_of_eq htoken (hupdate "++")
  · exact hstands.follows_of_eq htoken (hupdate "--")
  · exact hstands.follows_of_eq htoken (hoperation "+")
  · exact hstands.follows_of_eq htoken (hoperation "-")
  · exact hstands.follows_of_eq htoken (hoperation "!")
  · exact hstands.follows_of_eq htoken (hoperation "~")
  · exact hstands.follows_of_eq htoken (hoperation "delete")
  · exact hstands.follows_of_eq htoken (hoperation "void")
  · exact hstands.follows_of_eq htoken (hoperation "typeof")
  · refine hstands.follows_of_eq htoken (.read_bind fun setting _ => ?_)
    refine .bind (advance_inner fun _ h => h ▸ hproper) fun _ => .complain_ite (fun h => h) ?_
    refine .bind (suspend_retraces (hstart ▸ hstands.start_le) (hstart ▸ hstands.lt_stop))
      fun _ => ?_
    refine .bind (isPunctuator_retraces id _) fun round => ?_
    refine .bind (isPunctuator_retraces id _) fun square => .refuse_ite (fun h => h) ?_
    refine .bind ((hg.unary hmode (by omega)).mono (Nat.sub_le _ _)) fun operand => ?_
    exact .bind (spanFrom_retraces rfl (by omega))
      fun span => .pure (by simp [Expr.relocate]) le_rfl
  · refine hstands.follows (.read_bind fun setting hbudget => ?_)
    refine .bind (leftHandSide_retraces hg _ hmode hk (by change k < p.newBudget; omega))
      fun operand => ?_
    exact postfixUpdate_retraces start operand hmode (by omega)

/-! ## Binary operators and conditions -/

omit hg in
theorem exists_compound_of_relocate {move : Nat → Nat} {value : Expr} {operation : Operation}
    {parts : List Expr} {span : Span}
    (hvalue : value.relocate move = .compound operation parts span) :
    ∃ parts span, value = .compound operation parts span := by
  cases value with
  | compound other parts span =>
      obtain ⟨rfl, -, -⟩ := Expr.compound.inj hvalue
      exact ⟨parts, span, rfl⟩
  | _ => simp [Expr.relocate] at hvalue

omit hg in
theorem checkOperand_retraces (operator : String) (left : Bool) (operand : Expr) :
    p.Retraces pre k (fun _ => pre) k (checkOperand operator left operand)
      (checkOperand operator left (operand.relocate p.relocate)) id := by
  unfold checkOperand
  split
  case h_7 hunary hawait hor hand horElse handElse =>
    split
    case h_7 => exact .pure rfl le_rfl
    all_goals
      rename_i hoperand
      obtain ⟨parts, span, rfl⟩ := exists_compound_of_relocate hoperand
    · exact (hunary _ _ _ rfl rfl).elim
    · exact (hawait _ _ rfl rfl).elim
    · exact (hor _ _ rfl rfl).elim
    · exact (hand _ _ rfl rfl).elim
    · exact (horElse _ _ rfl rfl).elim
    · exact (handElse _ _ rfl rfl).elim
  all_goals simp only [Expr.relocate]
  all_goals first
    | exact complain_retraces _ _
    | exact .ite (fun _ => complain_retraces _ _) fun _ => .pure rfl le_rfl

/-- The binary operator that a token is. -/
def operatorOf (allowIn : Bool) (token : Token) : Option (String × Nat) := do
  let operator? : Option String :=
    match token with
    | .punctuator text => some text
    | .word "in" false => if allowIn then some "in" else none
    | .word "instanceof" false => some "instanceof"
    | _ => none
  let operator ← operator?
  let level ← precedence operator
  pure (operator, level)

omit hg in
theorem Stands.binaryOperator_bind {setting : Setting} {s s' : State} {α γ : Type} {post : α → Mode}
    {later : Nat} {next : Option (String × Nat) → Parser α}
    {next' : Option (String × Nat) → Parser γ} {f : α → γ} (hstands : p.Stands setting k s s')
    (hnext : ∀ found, p.FollowsAt setting s s' post later (next found) (next' found) f) :
    p.FollowsAt setting s s' post later (binaryOperator >>= next) (binaryOperator >>= next') f := by
  have hread : binaryOperator setting s =
      .ok (operatorOf setting.allowIn s.current.token, s) := rfl
  have hread' : binaryOperator (p.setting setting) s' =
      .ok (operatorOf setting.allowIn s.current.token, s') :=
    congrArg (fun token => Except.ok (operatorOf setting.allowIn token, s')) hstands.token
  exact .bind_of_reads (f := id) hread hread' (hnext _)

theorem binaryRest_retraces (rounds : Nat) : ∀ {rounds' k start level : Nat} {mode : Mode}
    (left : Expr),
    mode.Tight p → (0 < k → 3 * k + 2 ≤ d) → k < rounds → k < rounds' → k = 0 ∨ k < p.text.length →
      p.Retraces mode k (fun _ => mode) k (binaryRest g start rounds level left)
        (binaryRest g' (p.relocate start) rounds' level (left.relocate p.relocate))
        (Expr.relocate p.relocate) := by
  induction rounds with
  | zero => exact fun _ _ _ hrounds => absurd hrounds (Nat.not_lt_zero _)
  | succ rounds ih =>
      intro rounds' k start level mode left hmode hk hrounds hrounds' hinside
      obtain ⟨rounds', rfl⟩ := Nat.exists_eq_succ_of_ne_zero (Nat.ne_zero_of_lt hrounds')
      refine .of_tail (fun _ => left) (fun _ => left.relocate p.relocate) hmode.known
        (fun s => triple_of fun holds hholds => ?_) (fun setting s s' hstands => ?_) ?_
        fun _ _ _ => rfl
      · have hadvancing := hg.advancing
        have hleads := fun s start => binaryRest_leads (s := s) hadvancing start rounds
        clear ih
        mvcgen [binaryRest, hleads, -binaryRest_leads] <;> grind -ring -linarith
      · have hpos := hstands.pos
        rw [binaryRest, binaryRest]
        refine hstands.binaryOperator_bind fun found => ?_
        rcases found with _ | ⟨operator, binding⟩
        · exact hstands.pure (hmode.known _) rfl le_rfl
        dsimp only
        split
        · exact hstands.pure (hmode.known _) rfl le_rfl
        have hproper := hstands.proper
        generalize htoken : s.current.token = found at hproper
        refine hstands.follows_of_eq htoken
          (.bind (checkOperand_retraces operator true left) fun _ => ?_)
        refine .bind (advance_inner fun _ h => h ▸ hproper) fun _ => ?_
        refine .bind (here_retraces id) fun rightStart => ?_
        refine .bind (hg.unary hmode (by omega)) fun operand => ?_
        rw [isArrow_relocate]
        refine .refuse_ite (fun h => h) ?_
        refine .bind (ih operand hmode (by omega) (by omega) (by omega) (by omega)) fun right => ?_
        refine .bind (checkOperand_retraces operator false right) fun _ => ?_
        refine .bind (spanFrom_retraces rfl (by omega)) fun span => ?_
        -- the operation is the left operand of what follows it
        have hwhole := @ih rounds' (k - 1 - 1) start level mode
          (.compound (.binary operator) [left, right] span) hmode (by omega) (by omega) (by omega)
          (by omega)
        simpa [Expr.relocate] using hwhole.mono (by omega)
      · intro hkeeps setting s hcurrent
        refine run_binaryRest _ _ _ _ ?_
        rw [hcurrent]
        exact (hmode.next_rests hkeeps).2.1

theorem binary_retraces (hmode : mode.Tight p) (hk : 0 < k → 3 * k + 2 ≤ d) :
    p.Retraces pre k (fun _ => mode) (k - 1) (binary g) (binary g') (Expr.relocate p.relocate) := by
  have hbound := hg.bound
  have hroom := p.room
  refine .of_inner (.bind (here_retraces id) fun start => .bind (hg.unary hmode hk) fun left => ?_)
  rw [isArrow_relocate]
  refine .ite (fun _ => .pure rfl le_rfl) fun _ => .read_bind fun setting hbudget => ?_
  exact binaryRest_retraces hg _ left hmode (by omega) (by omega) (by change _ < p.newBudget; omega)
    (by omega)

theorem conditional_retraces (hmode : mode.Tight p) (hk : 0 < k → 3 * k + 2 ≤ d) :
    p.Retraces pre k (fun _ => mode) (k - 1) (conditional g) (conditional g')
      (Expr.relocate p.relocate) := by
  have hbound := hg.bound
  refine .of_inner (.bind (here_retraces id) fun start => ?_)
  refine .bind (binary_retraces hg hmode hk) fun test => ?_
  rw [isArrow_relocate]
  refine .ite (fun _ => .pure rfl le_rfl) fun _ => ?_
  refine .eat_ite (Mode.inner_admits p _) (hmode.next_ne rfl) ?_ (.pure rfl le_rfl)
  refine .bind (value_retraces hg (Mode.inner_tight p) (by omega)) fun yes => ?_
  refine .bind (expect_retraces (Mode.inner_admits p _)) fun _ => ?_
  refine .bind (hg.assignment hmode (by omega)) fun no => ?_
  refine .bind (spanFrom_retraces rfl (by omega)) fun span => .pure ?_ (by omega)
  simp [Expr.relocate]

/-! ## Assignments -/

/-- What is yielded stands on the same line. -/
theorem yieldRest_retraces (start : Nat) (hmode : mode.Tight p) (hk : 0 < k → 3 * k + 3 ≤ d)
    (hinside : k = 0 ∨ k < p.text.length) :
    p.Retraces mode k (fun _ => mode) k (yieldRest g start) (yieldRest g' (p.relocate start))
      (Expr.relocate p.relocate) := by
  have hadvancing := hg.advancing
  refine .of_tail (fun s => .compound .yield [] ⟨start, s.previous.stop⟩)
    (fun s => .compound .yield [] ⟨p.relocate start, s.previous.stop⟩) hmode.known
    (fun s => triple_of fun holds hholds => ?_) (fun setting s s' hstands => ?_) ?_ ?_
  · mvcgen [yieldRest] <;> grind -ring -linarith
  · have hpos := hstands.pos
    have hnone : p.Retraces mode k (fun _ => mode) k
        (do pure (.compound .yield [] (← spanFrom start)))
        (do pure (.compound .yield [] (← spanFrom (p.relocate start))))
        (Expr.relocate p.relocate) :=
      .bind (spanFrom_retraces rfl hinside) fun span => .pure (by simp [Expr.relocate]) le_rfl
    have hoperand : ∀ {j}, j ≤ k → p.Retraces .inner j (fun _ => mode) k
        (do
          let operand ← g.assignment
          return .compound .yield [operand] (← spanFrom start))
        (do
          let operand ← g'.assignment
          return .compound .yield [operand] (← spanFrom (p.relocate start)))
        (Expr.relocate p.relocate) := fun hj =>
      .bind (hg.assignment hmode (by omega)) fun operand =>
        .bind (spanFrom_retraces rfl (by omega))
          fun span => .pure (by simp [Expr.relocate]) (by omega)
    have hplain := hnone.follows _ _ _ hstands.budget (hstands.abreast (hmode.known _))
    refine hstands.atSemicolon_bind hinside fun ended => ?_
    split
    · exact hplain
    rw [eat_ite, eat_ite]
    refine hstands.isPunctuator_bind _ ?_
    split
    · rename_i hstar
      exact hstands.follows_of_eq (eq_of_beq hstar)
        (.bind (advance_retraces rfl (Mode.inner_admits p _)) fun _ => hoperand (Nat.sub_le _ _))
    refine hstands.token_bind ?_
    split
    · exact hstands.follows (hoperand le_rfl)
    · exact hplain
  · intro hkeeps setting s hcurrent
    rw [yieldRest, run_bind (run_atSemicolon (hcurrent ▸ p.newApart))]
    rfl
  · intro s s' hend
    rw [hend.previous, hend.newPrevious, ← relocate_stop]
    simp [Expr.relocate, Span.relocate]

theorem yieldExpression_retraces (hmode : mode.Tight p) (hk : 0 < k → 3 * k + 2 ≤ d) :
    p.Retraces (.before (· = .word "yield" false)) k (fun _ => mode) (k - 1) (yieldExpression g)
      (yieldExpression g') (Expr.relocate p.relocate) := by
  have hbound := hg.bound
  have hadvances : ∀ s : State, s.current.token = .word "yield" false →
      Advances s (yieldExpression g) := fun s htoken =>
    yieldExpression_advances (s := s) hg.advancing (htoken ▸ rfl)
  refine .of_advances (fun _ => hmode.known) hadvances ?_
  intro setting s s' hstands htoken
  have hpos := hstands.pos
  refine hstands.here_bind (hstands.follows_of_eq htoken ?_)
  refine .bind (advance_retraces rfl (hmode.admits nofun)) fun _ => .read_bind fun setting _ => ?_
  refine .refuse_ite (fun h => h) ?_
  refine .bind (suspend_retraces hstands.start_le hstands.lt_stop) fun _ => ?_
  exact yieldRest_retraces hg _ hmode (by omega) (by omega)

omit hg in
theorem updatedTarget_relocate (left : Expr) :
    updatedTarget (left.relocate p.relocate) = (updatedTarget left).relocate p.relocate := by
  cases left <;> simp [updatedTarget, Expr.relocate, Pattern.relocate]

theorem assignmentRest_retraces (start : Nat) (left : Expr) (hmode : mode.Tight p)
    (hk : 0 < k → 3 * k + 3 ≤ d) (hinside : k = 0 ∨ k < p.text.length) :
    p.Retraces mode k (fun _ => mode) k (assignmentRest g start left)
      (assignmentRest g' (p.relocate start) (left.relocate p.relocate))
      (Expr.relocate p.relocate) := by
  have hadvancing := hg.advancing
  refine .of_tail (fun _ => left) (fun _ => left.relocate p.relocate) hmode.known
    (fun s => triple_of fun holds hholds => ?_) (fun setting s s' hstands => ?_) ?_ fun _ _ _ => rfl
  · mvcgen [assignmentRest] <;> grind -ring -linarith
  · have hpos := hstands.pos
    refine hstands.token_bind ?_
    generalize htoken : s.current.token = found
    split
    · refine hstands.follows_of_eq htoken (.bind (asPattern_retraces .whole left) fun target => ?_)
      refine .bind (advance_retraces rfl (Mode.inner_admits p _)) fun _ => ?_
      refine .bind (hg.assignment hmode (by omega)) fun value => ?_
      exact .bind (spanFrom_retraces rfl (by omega)) fun span => .pure rfl (by omega)
    · split
      · refine hstands.follows_of_eq htoken (.bind (checkSimpleTarget_retraces left) fun _ => ?_)
        rw [updatedTarget_relocate]
        refine .bind (advance_retraces rfl (Mode.inner_admits p _)) fun _ => ?_
        refine .bind (hg.assignment hmode (by omega)) fun value => ?_
        exact .bind (spanFrom_retraces rfl (by omega)) fun span => .pure rfl (by omega)
      · exact hstands.pure (hmode.known _) rfl le_rfl
    · exact hstands.pure (hmode.known _) rfl le_rfl
  · intro hkeeps setting s hcurrent
    have hother := (hmode.next_rests hkeeps).2.2
    rw [assignmentRest, run_bind run_token, hcurrent]
    generalize p.newNext.token = next at hother
    unfold Token.isAssignment at hother
    split
    · contradiction
    · rw [if_neg (by simp_all)]
      rfl
    · rfl

theorem assignment_retraces (hmode : mode.Tight p) (hk : 0 < k → 3 * k + 2 ≤ d) :
    p.Retraces pre k (fun _ => mode) (k - 1) (assignment g) (assignment g')
      (Expr.relocate p.relocate) := by
  have hbound := hg.bound
  refine .of_advances (fun _ => hmode.known)
    (fun s _ => assignment_advances (s := s) hg.advancing) ?_
  intro setting s s' hstands _
  unfold assignment
  refine .bind_of_reads (f := p.setting) run_read run_read (hstands.isWord_bind _ ?_)
  rw [show (p.setting setting).inGenerator = setting.inGenerator from rfl]
  split
  · rename_i hyield
    exact hstands.follows_of_eq (eq_of_beq (Bool.and_eq_true_iff.mp hyield).2)
      (yieldExpression_retraces hg hmode hk)
  · refine hstands.follows (.bind (requireToken_retraces id) fun _ => ?_)
    refine .bind (here_retraces id) fun start => ?_
    refine .bind ((conditional_retraces hg hmode hk).withReader (fun _ => rfl) fun _ => rfl)
      fun left => ?_
    rw [isOperation_relocate]
    refine .ite (fun _ => .pure rfl le_rfl) fun _ => ?_
    exact assignmentRest_retraces hg start left hmode (by omega) (by omega)

end Grammar

end Passage

end Parser
end Script
end ScriptBundler
