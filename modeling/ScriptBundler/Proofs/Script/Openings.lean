import ScriptBundler.Proofs.Script.Literals

/-!
# Tokens that are no expression by themselves

Some tokens start no expression, and `let` is refused as one; `import` starts one, which goes on
behind it.  So an expression that starts with such a token does not end with it, unless a fault is
noted.
-/

namespace ScriptBundler
namespace Script

open Std.Do

set_option mvcgen.warning false

/-- Punctuators that start no statement, but may go on with one. -/
def strayPunctuators : List String :=
  ["=>", ":", ")", "?", ">", ">=", ">>", ">>=", ">>>", ">>>="]

/-- Whether a token starts no statement, but may go on with one. -/
def Token.isStray : Token → Bool
  | .punctuator text => strayPunctuators.contains text
  | .word name _ => ["in", "else", "catch", "finally"].contains name
  | _ => false

/-- Whether a token is no expression by itself. -/
def Token.isPartial (token : Token) : Bool :=
  token.isStray || match token with
    | .word name _ => name == "let" || name == "import"
    | _ => false

theorem Token.isPartial_of_isStray {token : Token} (hstray : token.isStray = true) :
    token.isPartial = true := by
  unfold Token.isPartial
  rw [hstray, Bool.true_or]

namespace Parser

open Mark

variable {α β : Type} {setting : Setting} {s : State} {g : Grammar}

/-- Whether a run notes a fault or goes on behind `import`, if it ends. -/
def Falters (s : State) (result : Except Nat (α × State)) : Prop :=
  ∀ value t, result = .ok (value, t) → t.mark.faulty = true ∨
    s.current.token = .word "import" false ∧ Moves s.advanced.mark t.mark

theorem Falters.bind {step : Parser α} {next : α → Parser β} (hstep : Falters s (step setting s))
    (hnext : ∀ value s, Proceeds s (next value)) : Falters s ((step >>= next) setting s) := by
  intro value t hrun
  obtain ⟨middle, u, hfirst, hrest⟩ := exists_of_bind hrun
  have hleads := of_triple (hnext middle u) hrest
  refine (hstep middle u hfirst).imp (fun hfaulty => ?_) (And.imp_right (·.trans hleads))
  by_contra hclean
  rw [hleads.faulty (Bool.eq_false_iff.mpr hclean)] at hfaulty
  contradiction

theorem Falters.settles {step : Parser Stmt} (hstep : Falters s (step setting s)) (start : Nat) :
    Falters s ((do
      let result ← step
      settlePending start
      pure result : Parser Stmt) setting s) := by
  refine hstep.bind fun value s => triple_of fun holds hholds => ?_
  mvcgen
  grind -ring -linarith

theorem Falters.of_faulty {step : Parser α}
    (hstep : ⦃fun _ state => ⌜state = s⌝⦄ step ⦃⇓? _ _ state => ⌜state.mark.faulty = true⌝⦄) :
    Falters s (step setting s) :=
  fun _ _ hrun => Or.inl (of_triple hstep hrun)

/-- Whether a run notes a fault or reads more than the current token, if it ends. -/
def Overreads (s : State) (result : Except Nat (α × State)) : Prop :=
  ∀ value t, result = .ok (value, t) → t.mark.faulty = true ∨ Moves s.advanced.mark t.mark

theorem Falters.overreads {result : Except Nat (α × State)} (hfalters : Falters s result) :
    Overreads s result :=
  fun value t hrun => (hfalters value t hrun).imp_right And.right

/-- A run reads more than the current token if it goes on behind it. -/
theorem Overreads.of_bind {step : Parser α} {next : α → Parser β}
    (hstep : ∀ value u, step setting s = .ok (value, u) → u.mark.faulty = true ∨ u = s.advanced)
    (hnext : ∀ value u, ⦃fun _ state => ⌜state = u⌝⦄ next value
      ⦃⇓? _ _ state => ⌜state.mark.faulty = true ∨ Moves u.mark state.mark⌝⦄) :
    Overreads s ((step >>= next) setting s) := by
  intro value t hrun
  obtain ⟨middle, u, hfirst, hrest⟩ := exists_of_bind hrun
  rcases of_triple (hnext middle u) hrest with hfaulty | hmoves
  · exact Or.inl hfaulty
  rcases hstep middle u hfirst with hfaulty | rfl
  · refine Or.inl ?_
    by_contra hclean
    rw [hmoves.leads.faulty (Bool.eq_false_iff.mpr hclean)] at hfaulty
    contradiction
  · exact Or.inr hmoves

theorem Overreads.bind {step : Parser α} {next : α → Parser β}
    (hstep : Overreads s (step setting s)) (hnext : ∀ value s, Proceeds s (next value)) :
    Overreads s ((step >>= next) setting s) := by
  intro value t hrun
  obtain ⟨middle, u, hfirst, hrest⟩ := exists_of_bind hrun
  have hleads := of_triple (hnext middle u) hrest
  refine (hstep middle u hfirst).imp (fun hfaulty => ?_) (·.trans hleads)
  by_contra hclean
  rw [hleads.faulty (Bool.eq_false_iff.mpr hclean)] at hfaulty
  contradiction

theorem run_peek : peek setting s = .ok (s.advanced.current, s) := rfl

theorem current_advanced :
    s.advanced.current = nextLexeme ⟨s.current.rest, s.current.span.stop⟩ false := rfl

theorem faulty_advanced (hfault : s.fault.isSome = true) : s.advanced.mark.faulty = true := by
  obtain ⟨place, hplace⟩ := Option.isSome_iff_exists.mp hfault
  simp [State.advanced, State.mark, hplace]

theorem advance_lands (s : State) :
    ⦃fun _ state => ⌜state = s⌝⦄ advance ⦃⇓? _ _ state => ⌜state = s.advanced⌝⦄ := by
  mvcgen [advance, resume, -advance_moves, -resume_moves]
  subst_vars
  rfl

/-- Behind a name is the next token, unless a fault has been noted. -/
theorem identifier_lands (s : State) :
    ⦃fun _ state => ⌜state = s⌝⦄ identifier
    ⦃⇓? _ _ state => ⌜(state.mark.faulty = true ∨ state = s.advanced) ∧
      state.current = s.advanced.current⌝⦄ := by
  refine triple_of fun holds hholds => ?_
  mvcgen [identifier, advance_lands, -advance_moves, -identifier_advances] <;>
    grind -ring -linarith [faulty_advanced, current_advanced]

/-- Behind `import` something is read, or a parenthesis is left to be read. -/
theorem importReference_reads (s : State) :
    ⦃fun _ state => ⌜state = s⌝⦄ importReference true
    ⦃⇓? base _ state => ⌜Moves s.advanced.mark state.mark ∨ isArrow base = false ∧
      state = s.advanced ∧ s.advanced.current.token = .punctuator "("⌝⦄ := by
  refine triple_of fun holds hholds => ?_
  mvcgen [importReference, advance_lands, -advance_moves, -importReference_advances] <;>
    grind -ring -linarith [isArrow]

/-- A word that is no expression by itself is refused as a name. -/
theorem isFutureWord_or_isReserved {name : String} {escaped : Bool}
    (hpartial : (Token.word name escaped).isPartial = true) :
    isFutureWord name = true ∨ isReserved name = true := by
  have hname : name ∈ ["in", "else", "catch", "finally"] ∨ name = "let" ∨ name = "import" := by
    simpa [Token.isPartial, Token.isStray] using hpartial
  rcases hname with hstray | rfl | rfl
  · simp only [List.mem_cons, List.not_mem_nil, or_false] at hstray
    rcases hstray with rfl | rfl | rfl | rfl <;> decide
  · decide
  · decide

/-- The tokens that are no expressions by themselves. -/
theorem exists_of_isPartial {token : Token} (hpartial : token.isPartial = true) :
    (∃ text ∈ strayPunctuators, token = .punctuator text) ∨
      ∃ name escaped, (name ∈ ["in", "else", "catch", "finally"] ∨ name = "let" ∨ name = "import") ∧
        token = .word name escaped := by
  cases token with
  | punctuator text =>
      exact Or.inl ⟨text, by simpa [Token.isPartial, Token.isStray] using hpartial, rfl⟩
  | word name escaped =>
      exact Or.inr ⟨name, escaped, by simpa [Token.isPartial, Token.isStray] using hpartial, rfl⟩
  | number | quoted | invalid | finish => contradiction

theorem proper_of_isPartial {token : Token} (hpartial : token.isPartial = true) :
    token.isProper = true := by
  rcases exists_of_isPartial hpartial with ⟨_, -, rfl⟩ | ⟨_, _, -, rfl⟩ <;> rfl

theorem ne_word_of_isPartial {token : Token} (hpartial : token.isPartial = true) {name : String}
    {escaped : Bool} (hname : name ∉ ["in", "else", "catch", "finally", "let", "import"]) :
    token ≠ .word name escaped := by
  rintro rfl
  rcases exists_of_isPartial hpartial with ⟨_, -, htoken⟩ | ⟨_, _, hother, htoken⟩
  · contradiction
  · obtain ⟨rfl, -⟩ := Token.word.inj htoken
    rcases hother with hstray | rfl | rfl
    · exact hname (List.mem_append_left ["let", "import"] hstray)
    · exact hname (by decide)
    · exact hname (by decide)

/-! ## Names that more may belong to -/

/-- Behind `async` something is read, unless it is a name like any other. -/
theorem asyncOrIdentifier_overreads (hg : g.Advancing) (start : Nat)
    (mayBeArrow : Bool) :
    asyncOrIdentifier g start mayBeArrow setting s =
      identifierOrArrow g start mayBeArrow setting s ∨
      Overreads s (asyncOrIdentifier g start mayBeArrow setting s) := by
  have hname : ∀ id u, identifier setting s = .ok (id, u) → u.mark.faulty = true ∨ u = s.advanced :=
    fun _ _ hrun => (of_triple (identifier_lands s) hrun).1
  rw [asyncOrIdentifier, run_bind run_peek]
  dsimp only
  split
  · refine Or.inr (.of_bind (fun _ u hrun => ?_) fun _ u => triple_of fun holds hholds => ?_)
    · obtain ⟨-, rfl⟩ := Prod.mk.inj (Except.ok.inj hrun)
      exact Or.inr rfl
    · mvcgen
      grind -ring -linarith
  split
  · refine Or.inr (.of_bind hname fun _ u => triple_of fun holds hholds => ?_)
    mvcgen <;> grind -ring -linarith
  generalize s.advanced.current.token = next
  split
  · split
    · refine Or.inr (.of_bind hname fun _ u => triple_of fun holds hholds => ?_)
      mvcgen <;> grind -ring -linarith
    · exact Or.inl rfl
  · exact Or.inl rfl

/-- On a line of its own `async` is a name like any other. -/
theorem asyncOrIdentifier_apart (hapart : s.advanced.current.StandsApart) (start : Nat)
    (mayBeArrow : Bool) :
    asyncOrIdentifier g start mayBeArrow setting s =
      identifierOrArrow g start mayBeArrow setting s := by
  rw [asyncOrIdentifier, run_bind run_peek]
  dsimp only
  rcases hapart with hnewline | hfinish
  · rw [hnewline]
    simp only [Bool.not_true, Bool.and_false, Bool.false_and, Bool.false_eq_true, if_false]
    cases s.advanced.current.token <;> rfl
  · rw [hfinish]
    rw [if_neg (by simp), if_neg (by simp)]

/-- Behind `let` something is declared. -/
theorem variableDeclaration_overreads (hg : g.Advancing) (kind : VariableKind) (inHead : Bool) :
    Overreads s (variableDeclaration g kind inHead setting s) := by
  rw [variableDeclaration, run_bind run_here]
  refine .of_bind (fun _ u hrun => ?_) fun _ u => triple_of fun holds hholds => ?_
  · obtain ⟨-, rfl⟩ := Prod.mk.inj (Except.ok.inj hrun)
    exact Or.inr rfl
  · mvcgen <;> grind -ring -linarith

/-! ## Tokens that are no expressions -/

variable (hpartial : s.current.token.isPartial = true)

include hpartial

theorem identifier_falters : Falters s (identifier setting s) := by
  refine .of_faulty (triple_of fun holds hholds => ?_)
  have hword : ∀ {name escaped}, s.current.token = .word name escaped →
      isFutureWord name = true ∨ isReserved name = true :=
    fun h => isFutureWord_or_isReserved (h ▸ hpartial)
  mvcgen [identifier, -identifier_advances] <;> grind -ring -linarith

theorem identifierOrArrow_falters (hg : g.Advancing) (start : Nat) (mayBeArrow : Bool) :
    Falters s (identifierOrArrow g start mayBeArrow setting s) := by
  refine (identifier_falters hpartial).bind fun id s => triple_of fun holds hholds => ?_
  mvcgen <;> grind -ring -linarith

theorem primary_falters (hg : g.Advancing) (lhs : Parser Expr) :
    Falters s (primary g lhs setting s) := by
  have hrefused : ∀ place, Falters s ((refuse place : Parser Expr) setting s) :=
    fun place _ _ hrun => absurd hrun (not_run_of_fails (refuse_fails s place))
  rw [primary, run_bind (run_requireToken (proper_of_isPartial hpartial)), run_bind run_here,
    run_bind run_read, run_bind run_token]
  rcases exists_of_isPartial hpartial with ⟨text, htext, htoken⟩ | ⟨name, escaped, hname, htoken⟩
  · rw [htoken]
    simp only [strayPunctuators, List.mem_cons, List.not_mem_nil, or_false] at htext
    rcases htext with rfl | rfl | rfl | rfl | rfl | rfl | rfl | rfl | rfl | rfl <;> exact hrefused _
  · rw [htoken]
    rcases hname with hstray | rfl | rfl
    · simp only [List.mem_cons, List.not_mem_nil, or_false] at hstray
      rcases hstray with rfl | rfl | rfl | rfl <;> exact hrefused _
    · exact identifierOrArrow_falters hpartial hg _ _
    · exact hrefused _

theorem leftHandSide_falters (hg : g.Advancing) (depth : Nat) (hbudget : 0 < setting.budget) :
    Falters s (leftHandSide g depth setting s) := by
  cases depth with
  | zero => exact fun _ _ hrun => absurd hrun (not_run_of_fails (unexpected_fails s))
  | succ depth =>
      have hsuper : (s.current.token == .word "super" false) = false :=
        beq_false_of_ne (ne_word_of_isPartial hpartial (by decide))
      have hnew : (s.current.token == .word "new" false) = false :=
        beq_false_of_ne (ne_word_of_isPartial hpartial (by decide))
      rw [leftHandSide, run_bind run_here]
      dsimp only
      rw [run_bind (run_isWord _), run_bind (run_isWord _), run_bind (run_isWord _), hsuper, hnew,
        if_neg Bool.false_ne_true]
      -- `import` is the only one of these tokens that an expression starts with
      by_cases himport : s.current.token = .word "import" false
      · obtain ⟨rounds, hrounds⟩ := Nat.exists_eq_succ_of_ne_zero hbudget.ne'
        rw [beq_iff_eq.mpr himport, if_pos rfl]
        intro value t hrun
        refine Or.inr ⟨himport, ?_⟩
        obtain ⟨base, u, hfirst, hrest⟩ := exists_of_bind hrun
        have hleads : ∀ u, Proceeds u (if isArrow base = true then pure base else
            withSubscripts g s.current.span.start true base) := by
          refine fun u => triple_of fun holds hholds => ?_
          mvcgen <;> grind -ring -linarith
        rcases of_triple (importReference_reads s) hfirst with hmoves | ⟨hbase, rfl, hopen⟩
        · exact hmoves.trans (of_triple (hleads u) hrest)
        · rw [hbase, if_neg Bool.false_ne_true, withSubscripts, run_bind run_read, hrounds] at hrest
          refine of_triple (subscripts_advances hg _ _ _ ?_) hrest
          rw [hopen]
          rfl
      · rw [beq_false_of_ne himport, if_neg Bool.false_ne_true, if_neg Bool.false_ne_true]
        refine (primary_falters hpartial hg _).bind fun base s => triple_of fun holds hholds => ?_
        mvcgen <;> grind -ring -linarith

theorem unary_falters (hg : g.Advancing) (hbudget : 0 < setting.budget) :
    Falters s (unary g setting s) := by
  have hlower : Falters s (leftHandSide g setting.budget setting s) :=
    leftHandSide_falters hpartial hg setting.budget hbudget
  rw [unary, run_bind run_here, run_bind run_token]
  dsimp only
  have hrest : Falters s ((do
      let operand ← leftHandSide g (← read).budget
      if isArrow operand || (← afterNewline) then pure operand
      else if ← isPunctuator "++" then
        checkSimpleTarget operand
        advance
        pure (.update "++" operand (← spanFrom s.current.span.start))
      else if ← isPunctuator "--" then
        checkSimpleTarget operand
        advance
        pure (.update "--" operand (← spanFrom s.current.span.start))
      else pure operand : Parser Expr) setting s) := by
    rw [run_bind run_read]
    refine hlower.bind fun operand s => triple_of fun holds hholds => ?_
    mvcgen <;> grind -ring -linarith
  rcases exists_of_isPartial hpartial with ⟨text, htext, htoken⟩ | ⟨name, escaped, hname, htoken⟩
  · rw [htoken]
    simp only [strayPunctuators, List.mem_cons, List.not_mem_nil, or_false] at htext
    rcases htext with rfl | rfl | rfl | rfl | rfl | rfl | rfl | rfl | rfl | rfl <;> exact hrest
  · rw [htoken]
    rcases hname with hstray | rfl | rfl
    · simp only [List.mem_cons, List.not_mem_nil, or_false] at hstray
      rcases hstray with rfl | rfl | rfl | rfl <;> exact hrest
    · exact hrest
    · exact hrest

omit hpartial in
theorem binary_falters (hg : g.Advancing) (hunary : Falters s (g.unary setting s)) :
    Falters s (binary g setting s) := by
  rw [binary, run_bind run_here]
  refine hunary.bind fun left s => triple_of fun holds hholds => ?_
  mvcgen <;> grind -ring -linarith

omit hpartial in
theorem conditional_falters (hg : g.Advancing) (hunary : Falters s (g.unary setting s)) :
    Falters s (conditional g setting s) := by
  rw [conditional, run_bind run_here]
  refine (binary_falters hg hunary).bind fun test s => triple_of fun holds hholds => ?_
  mvcgen <;> grind -ring -linarith

omit hpartial in
theorem assignment_falters (hg : g.Advancing)
    (hunary : ∀ setting : Setting, 0 < setting.budget → Falters s (g.unary setting s))
    (hbudget : 0 < setting.budget) (hproper : s.current.token.isProper = true)
    (hyield : s.current.token ≠ .word "yield" false) : Falters s (assignment g setting s) := by
  rw [assignment, run_bind run_read, run_bind (run_isWord _), beq_false_of_ne hyield,
    Bool.and_false, if_neg (by decide), run_bind (run_requireToken hproper), run_bind run_here]
  have hleft : Falters s (withReader (fun setting : Setting =>
      { setting with arrowStart := some s.current.span.start }) (conditional g) setting s) :=
    conditional_falters hg (hunary _ hbudget)
  refine hleft.bind fun left s => triple_of fun holds hholds => ?_
  mvcgen <;> grind -ring -linarith

theorem grammarOfDepth_falters (depth : Nat) :
    (∀ setting : Setting, 0 < setting.budget → Falters s ((grammarOfDepth depth).unary setting s)) ∧
      ∀ setting : Setting, 0 < setting.budget →
        Falters s ((grammarOfDepth depth).assignment setting s) := by
  induction depth with
  | zero =>
      have hrefused : ∀ setting : Setting, 0 < setting.budget →
          Falters s ((unexpected : Parser Expr) setting s) :=
        fun _ _ _ _ hrun => absurd hrun (not_run_of_fails (unexpected_fails s))
      exact ⟨hrefused, hrefused⟩
  | succ depth ih =>
      have hg := grammarOfDepth_advancing depth
      exact ⟨fun setting hbudget => unary_falters hpartial hg hbudget,
        fun setting hbudget => assignment_falters hg ih.1 hbudget (proper_of_isPartial hpartial)
          (ne_word_of_isPartial hpartial (by decide))⟩

/-- What is read where a word starts no other statement: a declaration or an expression. -/
def wordDeclaration (g : Grammar) (declarations : Bool) : Parser Stmt := do
  match ← declarationKind with
  | some kind =>
    if kind == .varKind || declarations then variableDeclaration g kind false
    else expressionStatement g
  | none => expressionStatement g

omit hpartial in
theorem expression_falters (hg : g.Advancing) (hassignment : Falters s (g.assignment setting s)) :
    Falters s (g.expression setting s) := by
  rw [Grammar.expression, run_bind run_here]
  refine hassignment.bind fun first s => triple_of fun holds hholds => ?_
  mvcgen <;> grind -ring -linarith

omit hpartial in
theorem expressionStatement_falters (hg : g.Advancing)
    (hassignment : ∀ setting : Setting, 0 < setting.budget → Falters s (g.assignment setting s))
    (hbudget : 0 < setting.budget) : Falters s (expressionStatement g setting s) := by
  rw [expressionStatement, run_bind run_here]
  have hvalue : Falters s (g.fullExpression setting s) :=
    expression_falters hg (hassignment _ hbudget)
  refine hvalue.bind fun value s => triple_of fun holds hholds => ?_
  mvcgen <;> grind -ring -linarith

omit hpartial in
theorem importExpressionStatement_falters (hg : g.Advancing)
    (hassignment : ∀ setting : Setting, 0 < setting.budget → Falters s (g.assignment setting s))
    (hbudget : 0 < setting.budget) : Falters s (importExpressionStatement g setting s) := by
  rw [importExpressionStatement, run_bind run_here, run_bind run_peek]
  have hvalue : Falters s ((do
      let value ← g.fullExpression
      discard (eat ";")
      pure (.expression value (← spanFrom s.current.span.start)) : Parser Stmt) setting s) := by
    have hvalue : Falters s (g.fullExpression setting s) :=
      expression_falters hg (hassignment _ hbudget)
    refine hvalue.bind fun value s => triple_of fun holds hholds => ?_
    mvcgen <;> grind -ring -linarith
  generalize s.advanced.current.token = next
  split
  · exact hvalue
  · exact hvalue
  · exact fun _ _ hrun => absurd hrun (not_run_of_fails (refuse_fails s _))

theorem statement_falters (hg : g.Advancing)
    (hassignment : ∀ setting : Setting, 0 < setting.budget → Falters s (g.assignment setting s))
    (hbudget : 0 < setting.budget) (hlet : s.current.token ≠ .word "let" false)
    (declarations : Bool) :
    Falters s (statement g declarations setting s) := by
  have hexpression := expressionStatement_falters hg hassignment hbudget
  have himport := importExpressionStatement_falters hg hassignment hbudget
  rw [statement, run_bind (run_requireToken (proper_of_isPartial hpartial)), run_bind run_here,
    run_bind run_token]
  rcases exists_of_isPartial hpartial with ⟨text, htext, htoken⟩ | ⟨name, escaped, hname, htoken⟩
  · rw [htoken]
    simp only [strayPunctuators, List.mem_cons, List.not_mem_nil, or_false] at htext
    rcases htext with rfl | rfl | rfl | rfl | rfl | rfl | rfl | rfl | rfl | rfl <;>
      exact hexpression.settles _
  rw [htoken]
  cases escaped with
  | true => exact hexpression.settles _
  | false =>
      refine @Falters.settles _ _ (wordStatement g declarations name) ?_ _
      rw [wordStatement, run_bind run_here]
      rcases hname with hstray | rfl | rfl
      · have hkind : declarationKind setting s = .ok (none, s) := by
          rw [declarationKind, run_bind run_token, htoken]
          simp only [List.mem_cons, List.not_mem_nil, or_false] at hstray
          rcases hstray with rfl | rfl | rfl | rfl <;> rfl
        have hother : Falters s (wordDeclaration g declarations setting s) := by
          rw [wordDeclaration, run_bind hkind]
          exact hexpression
        simp only [List.mem_cons, List.not_mem_nil, or_false] at hstray
        rcases hstray with rfl | rfl | rfl | rfl <;> exact hother
      · exact absurd htoken hlet
      · exact himport

/-! ## Operands that are no expressions -/

omit hpartial in
theorem unary_decrement (hdecrement : s.current.token = .punctuator "--")
    (himport : s.advanced.current.token ≠ .word "import" false)
    (hunary : Falters s.advanced (g.unary setting s.advanced)) : Falters s (unary g setting s) := by
  rw [unary, run_bind run_here, run_bind run_token]
  dsimp only
  rw [hdecrement]
  change Falters s ((do
    advance
    let operand ← g.unary
    checkSimpleTarget operand
    pure (.update "--" operand (← spanFrom s.current.span.start)) : Parser Expr) setting s)
  rw [run_bind run_advance]
  have hrest : ∀ operand t, Proceeds t (do
      checkSimpleTarget operand
      pure (.update "--" operand (← spanFrom s.current.span.start)) : Parser Expr) := by
    refine fun operand t => triple_of fun holds hholds => ?_
    mvcgen
    grind -ring -linarith
  exact fun value t hrun =>
    (hunary.bind hrest value t hrun).imp_right fun h => absurd h.1 himport

omit hpartial in
/-- A statement that starts with `--` before such a token is not read without a fault. -/
theorem statement_decrement (hdecrement : s.current.token = .punctuator "--")
    (hpartial : s.advanced.current.token.isPartial = true)
    (himport : s.advanced.current.token ≠ .word "import" false) (depth : Nat) (declarations : Bool)
    (hbudget : 0 < setting.budget) :
    Falters s ((grammarOfDepth depth).statement declarations setting s) := by
  have hfails : ∀ {α : Type} {setting : Setting}, Falters s ((unexpected : Parser α) setting s) :=
    fun _ _ hrun => absurd hrun (not_run_of_fails (unexpected_fails s))
  have hproper : s.current.token.isProper = true := by rw [hdecrement]; rfl
  have hyield : s.current.token ≠ .word "yield" false := by rw [hdecrement]; exact nofun
  have hunary : ∀ (depth : Nat) (setting : Setting), 0 < setting.budget →
      Falters s ((grammarOfDepth depth).unary setting s)
    | 0, _, _ => hfails
    | depth + 1, _, hbudget =>
      unary_decrement hdecrement himport ((grammarOfDepth_falters hpartial depth).1 _ hbudget)
  have hassignment : ∀ (depth : Nat) (setting : Setting), 0 < setting.budget →
      Falters s ((grammarOfDepth depth).assignment setting s)
    | 0, _, _ => hfails
    | depth + 1, _, hbudget =>
      assignment_falters (grammarOfDepth_advancing depth) (hunary depth) hbudget hproper hyield
  cases depth with
  | zero => exact hfails
  | succ depth =>
      show Falters s (statement (grammarOfDepth depth) declarations setting s)
      rw [statement, run_bind (run_requireToken hproper), run_bind run_here, run_bind run_token,
        hdecrement]
      exact (expressionStatement_falters (grammarOfDepth_advancing depth) (hassignment depth)
        hbudget).settles _

end Parser
end Script
end ScriptBundler
