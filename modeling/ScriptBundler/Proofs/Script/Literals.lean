import ScriptBundler.Proofs.Script.Extents

/-!
# Modules that start with a literal

A literal that a module starts with is a statement of its own if the next token stands on a line of
its own and does not go on with an expression.  If it does go on with one, it is read as a part of
the first statement, line end or not.

Each level of expressions is followed through: it reads the literal and nothing else, or it reads
more if and only if the next token is one that this level or a lower one goes on with.
-/

namespace ScriptBundler
namespace Script

open Text Std.Do ScriptBundler.Script.Parser ScriptBundler.Script.Parser.Mark

set_option mvcgen.warning false

/-! ## Tokens that go on with a statement -/

namespace Token

/-- Whether a token makes an access or a call of the operand before it. -/
def opensAccess : Token → Bool
  | .punctuator "." | .punctuator "[" | .punctuator "?." | .punctuator "("
  | .punctuator "\x60" => true
  | _ => false

/-- Whether a token is a binary operator. -/
def isBinary : Token → Bool
  | .punctuator text => (precedence text).isSome
  | .word "in" false | .word "instanceof" false => true
  | _ => false

/-- Whether a token is an assignment operator. -/
def isAssignment : Token → Bool
  | .punctuator text => text == "=" || assignmentOperators.contains text
  | _ => false

/-- Whether a token goes on with the expression before it. -/
def continuesExpression (token : Token) : Bool :=
  token.opensAccess || token.isBinary || token == .punctuator "?" || token.isAssignment ||
    token == .punctuator ","

/-- Whether a token goes on with the expression before it, or ends its statement. -/
def continuesStatement (token : Token) : Bool :=
  token.continuesExpression || token == .punctuator ";"

end Token

/-- Whether a line ends before a token, or there is none. -/
def Lexeme.StandsApart (lexeme : Lexeme) : Prop :=
  lexeme.afterNewline = true ∨ lexeme.token = .finish

namespace Parser

/-- The state behind the current token. -/
def State.advanced (s : State) : State :=
  let next := nextLexeme ⟨s.current.rest, s.current.span.stop⟩ false
  { s with
    current := next
    previous := ⟨s.current.span.start, s.current.span.stop⟩
    comments := next.comments.reverse ++ s.comments
    fault := s.fault.or next.legacyComment }

variable {α β : Type} {setting : Setting} {s : State}

/-! ## Runs of single steps -/

theorem run_bind {step : Parser α} {next : α → Parser β} {value : α} {after : State}
    (hstep : step setting s = .ok (value, after)) :
    (step >>= next) setting s = next value setting after := by
  show (step setting s >>= fun result => next result.1 setting result.2) = _
  rw [hstep]
  rfl

theorem exists_of_bind {step : Parser α} {next : α → Parser β} {value : β} {after : State}
    (hrun : (step >>= next) setting s = .ok (value, after)) :
    ∃ middle between, step setting s = .ok (middle, between) ∧
      next middle setting between = .ok (value, after) := by
  cases hfirst : step setting s with
  | error fault =>
      change (step setting s >>= fun result => next result.1 setting result.2) = _ at hrun
      rw [hfirst] at hrun
      contradiction
  | ok result =>
      rw [run_bind hfirst] at hrun
      exact ⟨result.1, result.2, rfl, hrun⟩

/-- A step that fails does not end. -/
theorem not_run_of_fails {step : Parser α}
    (hfails : ⦃fun _ state => ⌜state = s⌝⦄ step ⦃⇓? _ _ _ => ⌜False⌝⦄) {value : α} {after : State} :
    step setting s ≠ .ok (value, after) := by
  intro hrun
  have hfalse := of_triple hfails hrun
  exact hfalse

theorem run_pure (value : α) : (pure value : Parser α) setting s = .ok (value, s) := rfl

theorem run_read : (read : Parser Setting) setting s = .ok (setting, s) := rfl

theorem run_token : token setting s = .ok (s.current.token, s) := rfl

theorem run_here : here setting s = .ok (s.current.span.start, s) := rfl

theorem run_requireToken (hproper : s.current.token.isProper = true) :
    requireToken setting s = .ok ((), s) := by
  rw [requireToken, run_bind run_token]
  cases htoken : s.current.token with
  | invalid | finish => rw [htoken] at hproper; contradiction
  | _ => rfl

theorem run_afterNewline : afterNewline setting s = .ok (s.current.afterNewline, s) := rfl

theorem run_isPunctuator (text : String) :
    isPunctuator text setting s = .ok (s.current.token == .punctuator text, s) := rfl

theorem run_isWord (name : String) :
    isWord name setting s = .ok (s.current.token == .word name false, s) := rfl

theorem run_atEnd : atEnd setting s = .ok (s.current.token == .finish, s) := rfl

theorem run_advance : advance setting s = .ok ((), s.advanced) := rfl

theorem run_atom : atom setting s = .ok (.atom s.current.span, s.advanced) := rfl

theorem run_eat {text : String} (hother : (s.current.token == .punctuator text) = false) :
    eat text setting s = .ok (false, s) := by
  rw [eat, run_bind (run_isPunctuator text), hother]
  rfl

theorem run_eat_of_beq {text : String} (hsame : (s.current.token == .punctuator text) = true) :
    eat text setting s = .ok (true, s.advanced) := by
  rw [eat, run_bind (run_isPunctuator text), hsame]
  rfl

/-- Behind a line end a statement may end, and so may the last one. -/
theorem run_atSemicolon (hapart : s.current.StandsApart) :
    atSemicolon setting s = .ok (true, s) := by
  rw [atSemicolon, run_bind run_token]
  rcases hapart with hnewline | hfinish
  · have hline : afterNewline setting s = .ok (true, s) := by rw [run_afterNewline, hnewline]
    generalize s.current.token = next
    split
    · rfl
    · rfl
    · rfl
    · exact hline
  · rw [hfinish]
    rfl

/-- Behind a line end a statement needs no semicolon, and neither does the last one. -/
theorem run_expectSemicolon (hother : (s.current.token == .punctuator ";") = false)
    (hapart : s.current.StandsApart) : expectSemicolon setting s = .ok ((), s) := by
  have heat : eatSemicolon setting s = .ok (true, s) := by
    rw [eatSemicolon, run_bind (run_eat hother)]
    exact run_atSemicolon hapart
  rw [expectSemicolon, run_bind heat]
  rfl

theorem run_settlePending {start : Nat} (hpending : s.pending = []) :
    settlePending start setting s = .ok ((), s) := by
  have hsame : { s with pending := [] } = s := by rw [← hpending]
  have hget : (get : Parser State) setting s = .ok (s, s) := rfl
  have hmodify : (modify fun state => { state with pending := [] } : Parser PUnit) setting s =
      .ok ((), s) := congrArg (fun state => Except.ok ((), state)) hsame
  rw [settlePending, run_bind hget, hpending]
  exact run_bind hmodify

theorem not_isArrow_atom (span : Span) : ¬isArrow (.atom span) = true :=
  Bool.false_ne_true

/-! ## Runs that read more than a literal -/

/-- Whether a run reads something behind a state, if it ends. -/
def MovesFrom (start : State) (result : Except Nat (α × State)) : Prop :=
  ∀ value after, result = .ok (value, after) → Moves start.mark after.mark

theorem MovesFrom.of_advances {step : Parser α} (hstep : Advances s step) :
    MovesFrom s (step setting s) :=
  fun _ _ hrun => of_triple hstep hrun

theorem MovesFrom.bind {start : State} {step : Parser α} {next : α → Parser β}
    (hstep : MovesFrom start (step setting s)) (hnext : ∀ value s, Proceeds s (next value)) :
    MovesFrom start ((step >>= next) setting s) := by
  intro value after hrun
  obtain ⟨middle, between, hfirst, hrest⟩ := exists_of_bind hrun
  exact (hstep middle between hfirst).trans (of_triple (hnext middle between) hrest)

theorem eat_movesFrom {text : String} (hsame : (s.current.token == .punctuator text) = true) :
    MovesFrom s (eat text setting s) := by
  intro value after hrun
  rw [run_eat_of_beq hsame] at hrun
  obtain ⟨rfl, rfl⟩ := Prod.mk.inj (Except.ok.inj hrun)
  refine of_triple (advance_moves s ?_) (run_advance : advance setting s = _)
  rw [eq_of_beq hsame]
  rfl

/-- A repeated step reads something if its first round does. -/
theorem repeatUntil_movesFrom {stop : Parser Bool} {step : Parser α} (hbudget : 0 < setting.budget)
    (hstop : stop setting s = .ok (false, s)) (hstep : MovesFrom s (step setting s))
    (hround : ∀ s, Proceeds s (round stop step)) :
    MovesFrom s (repeatUntil stop step setting s) := by
  obtain ⟨rounds, hrounds⟩ := Nat.exists_eq_succ_of_ne_zero hbudget.ne'
  rw [repeatUntil, run_bind run_read, hrounds, repeatUntil.loop, run_bind hstop,
    if_neg Bool.false_ne_true]
  refine hstep.bind fun first s => ?_
  have hloop := loop_leads s hround rounds
  mvcgen [hloop]

/-- Whether the current token is read as an expression, and more than that if and only if the next
token goes on with it. -/
def ReadsAtom (continues : Token → Bool) (s : State) (result : Except Nat (Expr × State)) : Prop :=
  if continues s.advanced.current.token = true then MovesFrom s.advanced result
  else result = .ok (.atom s.current.span, s.advanced)

/-- If what comes behind an expression does not go back, the next token goes on with it if it does
so with the expression or with what comes behind. -/
theorem ReadsAtom.bind {lower upper : Token → Bool} {step : Parser Expr} {next : Expr → Parser Expr}
    (hstep : ReadsAtom lower s (step setting s)) (hnext : ∀ value s, Proceeds s (next value))
    (hmore : upper s.advanced.current.token = true →
      MovesFrom s.advanced (next (.atom s.current.span) setting s.advanced))
    (hother : upper s.advanced.current.token = false →
      next (.atom s.current.span) setting s.advanced = .ok (.atom s.current.span, s.advanced)) :
    ReadsAtom (fun token => lower token || upper token) s ((step >>= next) setting s) := by
  unfold ReadsAtom at hstep ⊢
  split at hstep
  · rename_i hlower
    rw [if_pos (by simp [hlower])]
    exact hstep.bind hnext
  · rename_i hlower
    rw [run_bind hstep]
    cases hupper : upper s.advanced.current.token with
    | true =>
        rw [if_pos (by simp [hupper])]
        exact hmore hupper
    | false =>
        rw [if_neg (by simp [hlower, hupper])]
        exact hother hupper

/-! ## The levels of expressions -/

variable {g : Grammar}

theorem run_subscripts (start rounds : Nat) (calls chain : Bool) (base : Expr)
    (hother : s.current.token.opensAccess = false) :
    subscripts g start calls rounds chain base setting s = .ok (base, s) := by
  cases rounds with
  | zero => rfl
  | succ rounds =>
      rw [subscripts, run_bind run_token]
      generalize s.current.token = next at hother
      unfold Token.opensAccess at hother
      split at hother
      case h_6 => simp [*, run_pure]
      all_goals contradiction

theorem subscripts_advances (hg : g.Advancing) (start rounds : Nat) (base : Expr)
    (haccess : s.current.token.opensAccess = true) :
    Advances s (subscripts g start true (rounds + 1) false base) := by
  refine triple_of fun holds hholds => ?_
  rw [subscripts]
  mvcgen <;> grind -ring -linarith [Token.opensAccess]

theorem precedence_pos {operator : String} {level : Nat}
    (hlevel : precedence operator = some level) : 0 < level := by
  have htable : ∀ entry ∈ ([("??", 1), ("||", 1), ("&&", 2), ("|", 3), ("^", 4), ("&", 5), ("==", 6),
      ("!=", 6), ("===", 6), ("!==", 6), ("<", 7), (">", 7), ("<=", 7), (">=", 7), ("in", 7),
      ("instanceof", 7), ("<<", 8), (">>", 8), (">>>", 8), ("+", 9), ("-", 9), ("*", 10), ("/", 10),
      ("%", 10), ("**", 11)] : List (String × Nat)), 0 < entry.2 := by
    decide
  obtain ⟨earlier, later, heq, -⟩ := List.lookup_eq_some_iff.mp hlevel
  exact htable (operator, level) (heq ▸ List.mem_append_right _ List.mem_cons_self)

theorem run_binaryOperator (hin : setting.allowIn = true)
    (hbinary : s.current.token.isBinary = true) :
    ∃ operator level, binaryOperator setting s = .ok (some (operator, level + 1), s) ∧
      s.current.token.isProper = true := by
  rw [binaryOperator, run_bind run_read, run_bind run_token]
  generalize s.current.token = next at hbinary
  unfold Token.isBinary at hbinary
  split at hbinary
  case h_1 operator =>
    obtain ⟨level, hlevel⟩ := Option.isSome_iff_exists.mp hbinary
    obtain ⟨lower, rfl⟩ := Nat.exists_eq_succ_of_ne_zero (precedence_pos hlevel).ne'
    exact ⟨operator, lower, by simp [hlevel, run_pure], rfl⟩
  case h_2 => exact ⟨"in", 6, by simp [hin, run_pure]; rfl, rfl⟩
  case h_3 => exact ⟨"instanceof", 6, by simp [run_pure]; rfl, rfl⟩
  case h_4 => contradiction

theorem run_binaryRest (start rounds level : Nat) (left : Expr)
    (hother : s.current.token.isBinary = false) :
    binaryRest g start rounds level left setting s = .ok (left, s) := by
  cases rounds with
  | zero => rfl
  | succ rounds =>
      have hoperator : binaryOperator setting s = .ok (none, s) := by
        rw [binaryOperator, run_bind run_read, run_bind run_token]
        generalize s.current.token = next at hother
        unfold Token.isBinary at hother
        split at hother
        case h_1 =>
          rw [Option.isSome_eq_false_iff, Option.isNone_iff_eq_none] at hother
          simp [hother, run_pure]
        case h_4 => simp [*, run_pure]
        all_goals contradiction
      rw [binaryRest, run_bind hoperator]
      rfl

theorem binaryRest_movesFrom (hg : g.Advancing) (start rounds : Nat) (left : Expr)
    (hin : setting.allowIn = true) (hbinary : s.current.token.isBinary = true) :
    MovesFrom s (binaryRest g start (rounds + 1) 0 left setting s) := by
  obtain ⟨operator, level, hoperator, hproper⟩ := run_binaryOperator hin hbinary
  rw [binaryRest, run_bind hoperator]
  dsimp only
  rw [if_neg (by omega)]
  refine .of_advances (triple_of fun holds hholds => ?_)
  mvcgen <;> grind -ring -linarith

section Levels

variable (hg : g.Advancing) {continues : Token → Bool}

include hg

theorem binary_readsAtom (hin : setting.allowIn = true) (hbudget : 0 < setting.budget)
    (hunary : ReadsAtom continues s (g.unary setting s)) :
    ReadsAtom (fun next => continues next || next.isBinary) s (binary g setting s) := by
  obtain ⟨rounds, hrounds⟩ := Nat.exists_eq_succ_of_ne_zero hbudget.ne'
  rw [binary, run_bind run_here]
  refine hunary.bind (fun value s => triple_of fun holds hholds => ?_) (fun hbinary => ?_)
    fun hother => ?_
  · mvcgen <;> grind -ring -linarith
  · rw [if_neg (not_isArrow_atom _), run_bind run_read, hrounds]
    exact binaryRest_movesFrom hg _ _ _ hin hbinary
  · rw [if_neg (not_isArrow_atom _), run_bind run_read]
    exact run_binaryRest _ _ _ _ hother

theorem conditional_readsAtom (hbinary : ReadsAtom continues s (binary g setting s)) :
    ReadsAtom (fun next => continues next || next == .punctuator "?") s
      (conditional g setting s) := by
  rw [conditional, run_bind run_here]
  refine hbinary.bind (fun value s => triple_of fun holds hholds => ?_) (fun hmark => ?_)
    fun hother => ?_
  · mvcgen <;> grind -ring -linarith
  · rw [if_neg (not_isArrow_atom _)]
    refine (eat_movesFrom hmark).bind fun value s => triple_of fun holds hholds => ?_
    mvcgen <;> grind -ring -linarith
  · rw [if_neg (not_isArrow_atom _), run_bind (run_eat hother)]
    rfl

theorem expression_readsAtom (hbudget : 0 < setting.budget)
    (hassignment : ReadsAtom continues s (g.assignment setting s)) :
    ReadsAtom (fun next => continues next || next == .punctuator ",") s
      (g.expression setting s) := by
  rw [Grammar.expression, run_bind run_here]
  refine hassignment.bind (fun value s => triple_of fun holds hholds => ?_) (fun hcomma => ?_)
    fun hother => ?_
  · mvcgen <;> grind -ring -linarith
  · have hproper : s.advanced.current.token.isProper = true := by
      rw [eq_of_beq hcomma]
      rfl
    rw [run_bind (run_isPunctuator _), hcomma]
    -- the first round of the loop reads the comma
    have hfirst : MovesFrom s.advanced ((do advance; g.assignment) setting s.advanced) :=
      (MovesFrom.of_advances (advance_moves _ hproper)).bind fun _ s =>
        triple_of fun holds hholds => by mvcgen <;> grind -ring -linarith
    refine (repeatUntil_movesFrom hbudget ?_ hfirst fun s => triple_of fun holds hholds => ?_).bind
      fun value s => triple_of fun holds hholds => ?_
    · rw [run_bind (run_isPunctuator _), hcomma]
      rfl
    · mvcgen [round] <;> grind -ring -linarith
    · mvcgen
      grind -ring -linarith
  · rw [run_bind (run_isPunctuator _), hother]
    rfl

end Levels

section Quoted

variable {text : String} (hquoted : s.current.token = .quoted text)

include hquoted

theorem run_isWord_of_quoted (name : String) : isWord name setting s = .ok (false, s) := by
  rw [run_isWord, hquoted]
  rfl

theorem run_primary {lhs : Parser Expr} :
    primary g lhs setting s = .ok (.atom s.current.span, s.advanced) := by
  rw [primary, run_bind (run_requireToken (hquoted ▸ rfl)), run_bind run_here, run_bind run_read,
    run_bind run_token, hquoted]
  exact run_atom

theorem leftHandSide_readsAtom (hg : g.Advancing) (depth : Nat) (hbudget : 0 < setting.budget) :
    ReadsAtom Token.opensAccess s (leftHandSide g (depth + 1) setting s) := by
  obtain ⟨rounds, hrounds⟩ := Nat.exists_eq_succ_of_ne_zero hbudget.ne'
  rw [leftHandSide, run_bind run_here]
  simp only [run_bind (run_isWord_of_quoted hquoted _), Bool.false_eq_true, if_false,
    run_bind (run_primary hquoted)]
  rw [if_neg (not_isArrow_atom _), withSubscripts, run_bind run_read, hrounds]
  unfold ReadsAtom
  split
  · rename_i haccess
    exact .of_advances (subscripts_advances hg _ _ _ haccess)
  · rename_i hother
    exact run_subscripts _ _ _ _ _ (Bool.eq_false_iff.mpr hother)

theorem unary_readsAtom (hg : g.Advancing) (hbudget : 0 < setting.budget)
    (hapart : s.advanced.current.StandsApart) :
    ReadsAtom Token.opensAccess s (unary g setting s) := by
  obtain ⟨rounds, hrounds⟩ := Nat.exists_eq_succ_of_ne_zero hbudget.ne'
  have hlower := leftHandSide_readsAtom hquoted hg rounds hbudget
  rw [unary, run_bind run_here, run_bind run_token, hquoted]
  dsimp only
  rw [run_bind run_read, hrounds]
  -- behind a line end, `++` and `--` belong to what comes next
  refine (funext fun next : Token => Bool.or_false next.opensAccess) ▸
    @ReadsAtom.bind _ _ _ (fun _ => false) _ _ hlower
      (fun value s => triple_of fun holds hholds => ?_)
      (fun h => ?_) fun _ => ?_
  · mvcgen <;> grind -ring -linarith
  · contradiction
  · rw [run_bind run_afterNewline]
    split
    · rfl
    · rename_i hsame
      have hfinish := hapart.resolve_left (by simpa [isArrow] using hsame)
      rw [run_bind (run_isPunctuator _), hfinish, if_neg (by decide),
        run_bind (run_isPunctuator _), hfinish, if_neg (by decide)]
      rfl

theorem assignment_readsAtom (hg : g.Advancing) {continues : Token → Bool}
    (hconditional : ReadsAtom continues s
      (conditional g { setting with arrowStart := some s.current.span.start } s)) :
    ReadsAtom (fun next => continues next || next.isAssignment) s (assignment g setting s) := by
  have hoperation : ¬isOperation (.atom s.current.span) = true := Bool.false_ne_true
  rw [assignment, run_bind run_read, run_bind (run_isWord_of_quoted hquoted _), Bool.and_false,
    if_neg Bool.false_ne_true, run_bind (run_requireToken (hquoted ▸ rfl)), run_bind run_here]
  refine @ReadsAtom.bind _ _ _ _ (withReader _ (conditional g)) _ hconditional
    (fun value s => triple_of fun holds hholds => ?_) (fun hassignment => ?_) fun hother => ?_
  · mvcgen <;> grind -ring -linarith
  · rw [if_neg hoperation]
    refine .of_advances (triple_of fun holds hholds => ?_)
    mvcgen <;> grind -ring -linarith [Token.isAssignment]
  · rw [if_neg hoperation, run_bind run_token]
    cases hnext : s.advanced.current.token with
    | punctuator operator =>
        simp only [hnext, Token.isAssignment, Bool.or_eq_false_iff, beq_eq_false_iff_ne,
          List.contains_eq_mem, decide_eq_false_iff_not] at hother
        simp [hother, run_pure]
    | word | number | quoted | invalid | finish => rfl

/-! ## Statements -/

section Statements

variable (depth : Nat) (hbudget : 0 < setting.budget) (hapart : s.advanced.current.StandsApart)

include hbudget hapart

theorem fullExpression_readsAtom :
    ReadsAtom Token.continuesExpression s
      ((grammarOfDepth (depth + 2)).fullExpression setting s) := by
  have hg := grammarOfDepth_advancing
  have hbudget : 0 < ({ setting with allowIn := true } : Setting).budget := hbudget
  refine expression_readsAtom (hg _) hbudget ?_
  refine assignment_readsAtom hquoted (hg _) ?_
  refine conditional_readsAtom (hg _) ?_
  refine binary_readsAtom (hg _) rfl hbudget ?_
  exact unary_readsAtom hquoted (hg _) hbudget hapart

theorem expressionStatement_movesFrom
    (hcontinues : s.advanced.current.token.continuesStatement = true) :
    MovesFrom s.advanced (expressionStatement (grammarOfDepth (depth + 2)) setting s) := by
  have hg := grammarOfDepth_advancing (depth + 2)
  have hvalue := fullExpression_readsAtom hquoted depth hbudget hapart
  rw [expressionStatement, run_bind run_here]
  unfold ReadsAtom at hvalue
  split at hvalue
  · refine hvalue.bind fun value s => triple_of fun holds hholds => ?_
    mvcgen <;> grind -ring -linarith
  · rename_i hother
    -- what goes on with the statement but not with the expression is a semicolon
    have hsemicolon := (Bool.or_eq_true_iff.mp hcontinues).resolve_left hother
    have hexpect : MovesFrom s.advanced (expectSemicolon setting s.advanced) := by
      rw [expectSemicolon, eatSemicolon]
      refine ((eat_movesFrom hsemicolon).bind ?_).bind ?_
      all_goals
        refine fun value s => triple_of fun holds hholds => ?_
        mvcgen <;> grind -ring -linarith
    rw [run_bind hvalue]
    refine hexpect.bind fun value s => triple_of fun holds hholds => ?_
    mvcgen
    grind -ring -linarith

theorem run_expressionStatement
    (hother : s.advanced.current.token.continuesStatement = false) :
    expressionStatement (grammarOfDepth (depth + 2)) setting s =
      .ok (.expression (.atom s.current.span) s.current.span, s.advanced) := by
  have hvalue := fullExpression_readsAtom hquoted depth hbudget hapart
  obtain ⟨hexpression, hsemicolon⟩ := Bool.or_eq_false_iff.mp hother
  rw [ReadsAtom, if_neg (Bool.eq_false_iff.mp hexpression)] at hvalue
  rw [expressionStatement, run_bind run_here, run_bind hvalue]
  exact run_bind (run_expectSemicolon hsemicolon hapart)

omit hbudget hapart in
theorem statement_of_quoted (g : Grammar) (declarations : Bool) :
    statement g declarations setting s =
      (do
        let result ← expressionStatement g
        settlePending s.current.span.start
        pure result : Parser Stmt) setting s := by
  rw [statement, run_bind (run_requireToken (hquoted ▸ rfl)), run_bind run_here, run_bind run_token,
    hquoted]

/-- A token that goes on with the literal before it is read as part of the same statement. -/
theorem moduleItem_movesFrom (hcontinues : s.advanced.current.token.continuesStatement = true) :
    MovesFrom s.advanced (moduleItem (grammarOfDepth (depth + 3)) setting s) := by
  have hstatement :
      MovesFrom s.advanced ((grammarOfDepth (depth + 3)).statement true setting s) := by
    show MovesFrom s.advanced (statement (grammarOfDepth (depth + 2)) true setting s)
    rw [statement_of_quoted hquoted]
    refine (expressionStatement_movesFrom hquoted depth hbudget hapart hcontinues).bind
      fun value s => triple_of fun holds hholds => ?_
    mvcgen
    grind -ring -linarith
  rw [moduleItem, run_bind run_here]
  simp only [run_bind (run_isWord_of_quoted hquoted _), Bool.false_eq_true, if_false]
  refine hstatement.bind fun value s => triple_of fun holds hholds => ?_
  mvcgen
  grind -ring -linarith

/-- A literal that the next token does not go on with is a statement of its own. -/
theorem run_moduleItem (hpending : s.pending = [])
    (hother : s.advanced.current.token.continuesStatement = false) :
    moduleItem (grammarOfDepth (depth + 3)) setting s =
      .ok (⟨.statement (.expression (.atom s.current.span) s.current.span), s.current.span⟩,
        s.advanced) := by
  have hstatement : (grammarOfDepth (depth + 3)).statement true setting s =
      .ok (.expression (.atom s.current.span) s.current.span, s.advanced) := by
    show statement (grammarOfDepth (depth + 2)) true setting s = _
    rw [statement_of_quoted hquoted,
      run_bind (run_expressionStatement hquoted depth hbudget hapart hother)]
    exact run_bind (s := s.advanced) (run_settlePending hpending)
  rw [moduleItem, run_bind run_here]
  simp only [run_bind (run_isWord_of_quoted hquoted _), Bool.false_eq_true, if_false]
  rw [run_bind hstatement, run_bind (run_pure _)]
  exact run_bind (s := s.advanced) (run_settlePending hpending)

end Statements

/-- What is read behind a literal is behind its end. -/
theorem MovesFrom.lt {source : List Char} (hright : s.mark.Right source)
    {result : Except Nat (α × State)} (hmoves : MovesFrom s.advanced result) {value : α}
    {after : State} (hrun : result = .ok (value, after)) :
    s.current.span.stop < after.previous.stop := by
  have hends : s.mark.Ends ⟨s.current.rest, s.current.span.stop⟩ :=
    .token (by rw [show s.mark.current = s.current from rfl, hquoted]; rfl)
  have hmark : s.advanced.mark =
      s.mark.resumed s.current.span.start ⟨s.current.rest, s.current.span.stop⟩ := by
    simp [State.advanced, State.mark, Mark.resumed]
  have hnext := hmark ▸ hright.resumed s.current.span.start hends
  obtain ⟨-, -, rest, hcloses, -⟩ := (hmoves value after hrun).reads hnext
  obtain ⟨front, -, hlexeme⟩ := hnext.current
  exact Nat.lt_of_le_of_lt hlexeme.start.le hcloses.lt

end Quoted

end Parser

/-! ## Modules -/

/-- A module that starts with a literal has it as its first statement if and only if the next token,
which stands apart from it, does not go on with it. -/
theorem parse_items_iff {source : List Char} {tree : Tree} (hparse : parse source = .ok tree)
    {text : String} {s : State} (hstart : State.ofSource source = s)
    (hquoted : s.current.token = .quoted text) (hapart : s.advanced.current.StandsApart) :
    (∃ rest, tree.items =
        ⟨.statement (.expression (.atom s.current.span) s.current.span), s.current.span⟩ :: rest) ↔
      s.advanced.current.token.continuesStatement = false := by
  have hright := hstart ▸ ofSource_right source
  have hpending : s.pending = [] := hstart ▸ rfl
  have hend : atEnd (.top (source.length + 2)) s = .ok (false, s) := by
    rw [run_atEnd, hquoted]
    rfl
  obtain ⟨depth, hdepth⟩ : ∃ depth, 4 * (source.length + 2) = depth + 3 :=
    ⟨4 * source.length + 5, by omega⟩
  have hbudget : 0 < (Setting.top (source.length + 2)).budget := Nat.succ_pos _
  unfold parse at hparse
  dsimp only at hparse
  rw [hstart, hdepth] at hparse
  split at hparse
  · contradiction
  rename_i items state hrun
  split at hparse
  · contradiction
  obtain rfl := Except.ok.inj hparse
  -- the first round of the loop over the statements
  rw [Parser.module, repeatUntil, run_bind run_read] at hrun
  change repeatUntil.loop atEnd _ (source.length + 1 + 1) _ _ = _ at hrun
  rw [repeatUntil.loop, run_bind hend, if_neg Bool.false_ne_true] at hrun
  obtain ⟨first, between, hfirst, hrest⟩ := exists_of_bind hrun
  obtain ⟨rest, last, -, hlast⟩ := exists_of_bind hrest
  obtain ⟨rfl, -⟩ := Prod.mk.inj (Except.ok.inj hlast)
  constructor
  · rintro ⟨others, heq⟩
    obtain ⟨rfl, -⟩ := List.cons.inj heq
    by_contra hcontinues
    have hmoves := moduleItem_movesFrom hquoted depth hbudget hapart
      (Bool.not_eq_false _ ▸ hcontinues)
    have hspan := (of_triple (moduleItem_advances s (grammarOfDepth_advancing _)) hfirst).2
    exact absurd (congrArg Span.stop hspan) (hmoves.lt hquoted hright hfirst).ne
  · intro hother
    rw [run_moduleItem hquoted depth hbudget hapart hpending hother] at hfirst
    obtain ⟨rfl, -⟩ := Prod.mk.inj (Except.ok.inj hfirst)
    exact ⟨rest, rfl⟩

/-! ## Literals in single quotes -/

/-- Whether a character stands for itself in a literal in single quotes. -/
def isPlain (c : Char) : Bool :=
  c != '\'' && c != '\n' && c != '\r' && c != '\\'

theorem scanString_plain {chars : List Char} (hplain : ∀ c ∈ chars, isPlain c = true)
    (opening : Nat) (rest : List Char) (offset : Nat) (read : List Char) :
    scanString '\'' opening (chars ++ '\'' :: rest) offset none read =
      (.quoted (String.ofList (read.reverse ++ chars)), ⟨rest, offset + byteLength chars + 1⟩) := by
  induction chars generalizing offset read with
  | nil =>
      rw [List.nil_append, scanString.eq_def]
      simp
  | cons c chars ih =>
      obtain ⟨hfirst, hrest⟩ := List.forall_mem_cons.mp hplain
      simp only [isPlain, Bool.and_eq_true, bne_iff_ne] at hfirst
      obtain ⟨⟨⟨hquote, hline⟩, hreturn⟩, hescape⟩ := hfirst
      rw [List.cons_append, scanString.eq_def]
      simp only [beq_iff_eq, hquote, hline, hreturn, hescape, if_false, Bool.or_eq_true, or_self]
      rw [ih hrest]
      simp [byteLength_cons, Nat.add_assoc]

theorem nextLexeme_quote {chars : List Char} (hplain : ∀ c ∈ chars, isPlain c = true)
    (rest : List Char) (offset : Nat) (first : Bool) :
    nextLexeme ⟨'\'' :: (chars ++ '\'' :: rest), offset⟩ first =
      { token := .quoted (String.ofList chars), span := ⟨offset, offset + byteLength chars + 2⟩
        afterNewline := first, start := '\'' :: (chars ++ '\'' :: rest), rest
        comments := [], legacyComment := none } := by
  have hgap : skipGap .between ('\'' :: (chars ++ '\'' :: rest)) offset first [] none =
      ⟨⟨'\'' :: (chars ++ '\'' :: rest), offset⟩, first, [], none, none⟩ := by
    have hquote : isGap '\'' = false := by decide
    rw [skipGap.eq_def]
    simp [hquote]
  have hword : ¬(isIdentifierStart '\'' || '\'' == '\\') = true := by
    rw [isIdentifierStart, if_pos (by decide)]
    decide
  have htoken : scanToken ('\'' :: (chars ++ '\'' :: rest)) offset =
      (.quoted (String.ofList chars), ⟨rest, offset + 1 + byteLength chars + 1⟩) := by
    rw [scanToken, if_neg hword, if_neg (by decide), if_pos (by decide), scanString_plain hplain]
    rfl
  unfold nextLexeme
  rw [hgap]
  dsimp only
  rw [htoken]
  simp
  omega

/-- A line end that has been skipped is not forgotten. -/
theorem newline_skipGap (gap : Gap) (text : List Char) (offset : Nat) (comments : List Comment)
    (legacy : Option Nat) : (skipGap gap text offset true comments legacy).newline = true := by
  generalize hnewline : true = newline
  fun_induction skipGap gap text offset newline comments legacy <;> simp_all

theorem afterNewline_nextLexeme (text : List Char) (offset : Nat) (first : Bool) :
    (nextLexeme ⟨'\n' :: text, offset⟩ first).afterNewline = true := by
  have hgap : skipGap .between ('\n' :: text) offset first [] none =
      skipGap .between text (offset + 1) true [] none := by
    rw [skipGap.eq_def]
    simp [show isGap '\n' = true by decide, show isLineEnd '\n' = true by decide]
    rfl
  unfold nextLexeme
  rw [hgap]
  exact newline_skipGap _ _ _ _ _

end Script
end ScriptBundler
