import ScriptBundler.Proofs.Script.StatementPassages

/-!
# Reading a passage again: variables and loops
-/

namespace ScriptBundler
namespace Script
namespace Parser

open Mark Std.Do Text

set_option mvcgen.warning false

variable {p : Passage} {pre mode : Mode} {k d : Nat}

/-- Whether `let` declares variables before a token. -/
def letKind (next : Token) : Option VariableKind :=
  match next with
  | .word name _ =>
    if ["let", "yield", "await"].contains name || !isReserved name then some .letKind else none
  | .punctuator "[" | .punctuator "\x7b" => some .letKind
  | _ => none

/-- The kind of variables that a token declares before another one. -/
def declaredKind (token next : Token) : Option VariableKind :=
  match token with
  | .word "var" _ => some .varKind
  | .word "const" _ => some .constKind
  | .word "let" _ => letKind next
  | _ => none

/-- What is read behind what a declarator declares. -/
def declaratorValue (g : Grammar) (kind : VariableKind) (start : Nat) (target : Pattern) :
    Parser Pattern := do
  if ← eat "=" then
    let value ← g.assignment
    return .withDefault target value (← spanFrom start)
  if kind == .constKind then
    complain start
    return target
  match target with
  | .ident _ => pure target
  | _ => refuse start

/-- What is read behind the head of a loop over the members or the items of a subject. -/
def eachLoop (g : Grammar) (start : Nat) (stops : Parser Unit)
    (make : Expr → Stmt → Span → Stmt) : Parser Stmt := do
  if ← isWord "in" then stops
  let subject ← forEachSubject g
  let body ← loopBody g
  pure (make subject body (← spanFrom start))

/-- What is read behind the bracket of a loop that declares variables. -/
def declaringLoop (g : Grammar) (start : Nat) (stops : Parser Unit) (kind : VariableKind) :
    Parser Stmt := do
  let head ← variableDeclaration g kind true
  if ← atInOrOf then
    checkLoopDeclaration head
    eachLoop g start stops (.forEach head)
  else
    expect ";"
    stops
    forRest g start (some head)

/-- What is read behind the bracket of a loop that declares none. -/
def plainLoop (g : Grammar) (start : Nat) (stops : Parser Unit) (awaits : Bool) : Parser Stmt := do
  if ← eat ";" then
    stops
    forRest g start none
  else
    let headStart ← here
    let head ← withReader
      (fun setting => { setting with allowIn := false, inLoopHead := !awaits }) g.expression
    if ← atInOrOf then
      let target ← asPattern .whole head
      eachLoop g start stops (.forEachTarget target)
    else
      expect ";"
      stops
      forRest g start (some (.expression head (← spanFrom headStart)))

namespace Passage

section Grammar

variable {g g' : Grammar} (hg : p.Reaches d g g')

include hg

/-! ## Variables -/

theorem declaratorValue_retraces (kind : VariableKind) (start : Nat) (target : Pattern)
    (hmode : mode.Tight p) (hk : 0 < k → 3 * k + 3 ≤ d) :
    p.Retraces mode k (fun _ => mode) k (declaratorValue g kind start target)
      (declaratorValue g' kind (p.relocate start) (target.relocate p.relocate))
      (Pattern.relocate p.relocate) := by
  have hbound := hg.bound
  refine .eat_ite (Mode.inner_admits p _) (hmode.next_ne rfl) ?_ ?_
  · refine .bind (hg.assignment hmode (by omega)) fun value => ?_
    exact .bind (spanFrom_retraces rfl (by omega)) fun span => .pure rfl (by omega)
  · refine .ite (fun _ => .bind (complain_retraces _ _) fun _ => .pure rfl le_rfl) fun _ => ?_
    cases target with
    | ident id => exact .pure rfl le_rfl
    | _ => exact refuse_retraces _

/-- What is declared may lack its first value, as the head of a loop says what it is or as a name
needs none. -/
theorem declarator_retraces (kind : VariableKind) (inHead : Bool) (hmode : mode.Tight p)
    (hhead : inHead = true → mode = .inner) (hk : 0 < k → 3 * k + 3 ≤ d) :
    p.Retraces .inner k (fun _ => mode) (k - 1) (declarator g kind inHead)
      (declarator g' kind inHead) (Pattern.relocate p.relocate) := by
  have hbound := hg.bound
  refine .bind (here_retraces id) fun start => .bind (isWord_retraces id _) fun isLet => ?_
  refine .unexpected_ite (fun h => h) (.bind (hg.bindingTarget hmode (by omega)) fun target => ?_)
  have hrest := declaratorValue_retraces (k := k - 1) hg kind start target hmode (by omega)
  cases inHead with
  | false => exact hrest
  | true =>
      obtain rfl := hhead rfl
      refine .test_bind (fun token => token == .word "in" false || token == .word "of" false) false
        (fun _ _ => rfl) False.elim ?_ hrest
      exact .of_inner (.pure rfl le_rfl)

theorem moreDeclarators_retraces (kind : VariableKind) (inHead : Bool) (hmode : mode.Tight p)
    (hhead : inHead = true → mode = .inner) (rounds : Nat) : ∀ {rounds' k : Nat},
      (0 < k → 3 * k + 3 ≤ d) → k < rounds' →
        p.Retraces mode k (fun _ => mode) k (moreDeclarators g kind inHead rounds)
          (moreDeclarators g' kind inHead rounds') (List.map (Pattern.relocate p.relocate)) := by
  have hadvancing := hg.advancing
  induction rounds with
  | zero => exact fun _ _ => unexpected_retraces
  | succ rounds ih =>
      intro rounds' k hk hrounds
      obtain ⟨rounds', rfl⟩ := Nat.exists_eq_succ_of_ne_zero (Nat.ne_zero_of_lt hrounds)
      refine .of_tail (fun _ => []) (fun _ => []) hmode.known
        (fun s => triple_of fun holds hholds => ?_) (fun setting s s' hstands => ?_) ?_
        fun _ _ _ => rfl
      · have hleads := fun s => moreDeclarators_leads s hadvancing kind inHead rounds
        clear ih
        mvcgen [moreDeclarators, hleads, -moreDeclarators_leads] <;> grind -ring -linarith
      · have hpos := hstands.pos
        rw [moreDeclarators, moreDeclarators]
        refine hstands.here_bind ?_
        rw [eat_ite, eat_ite]
        refine hstands.isPunctuator_bind _ ?_
        split
        · rename_i hcomma
          refine hstands.follows_of_eq (eq_of_beq hcomma) ?_
          refine .bind (advance_retraces rfl (Mode.inner_admits p _)) fun _ => ?_
          refine .bind (isPunctuator_retraces id _) fun ends => .bind (atEnd_retraces id)
            fun finish => ?_
          -- nothing behind the comma is a fault, which a text that is read without one excludes
          refine .ite (fun _ => ?_) fun _ => ?_
          · refine .of_faulty (fun _ => hmode.known) fun setting s value t hrun => ?_
            obtain ⟨-, rfl⟩ := Prod.mk.inj (Except.ok.inj hrun)
            simp [State.mark]
          · refine .bind (declarator_retraces hg kind inHead hmode hhead (by omega)) fun first => ?_
            exact .bind (ih (by omega) (by omega)) fun rest => .pure rfl (by omega)
        · exact hstands.pure (hmode.known _) rfl le_rfl
      · intro hkeeps setting s hcurrent
        rw [moreDeclarators, run_bind run_here, run_bind (run_eat ?_)]
        · rfl
        · rw [hcurrent]
          exact beq_false_of_ne (hmode.next_ne rfl hkeeps)

theorem declarators_retraces (kind : VariableKind) (inHead : Bool) (hmode : mode.Tight p)
    (hhead : inHead = true → mode = .inner) (hk : 0 < k → 3 * k + 3 ≤ d) :
    p.Retraces .inner k (fun _ => mode) (k - 1)
      (withReader (fun setting => { setting with allowIn := kind != .varKind || !inHead }) do
        let first ← declarator g kind inHead
        let rest ← moreDeclarators g kind inHead (← read).budget
        pure (first :: rest))
      (withReader (fun setting => { setting with allowIn := kind != .varKind || !inHead }) do
        let first ← declarator g' kind inHead
        let rest ← moreDeclarators g' kind inHead (← read).budget
        pure (first :: rest)) (List.map (Pattern.relocate p.relocate)) := by
  have hbound := hg.bound
  have hroom := p.room
  refine .withReader (.bind (declarator_retraces hg kind inHead hmode hhead hk) fun first => ?_)
    (fun _ => rfl) fun _ => rfl
  refine .read_bind fun setting hbudget => ?_
  refine .bind (moreDeclarators_retraces hg kind inHead hmode hhead _ (by omega)
    (by change _ < p.newBudget; omega)) fun rest => .pure rfl le_rfl

theorem variableDeclaration_retraces (kind : VariableKind)
    (hproper : ∀ token, pre.known token → token.isProper = true) (hkeeps : ¬pre.keeps)
    (hk : 0 < k → 3 * k + 3 ≤ d) :
    p.Retraces pre k (Mode.behind p) (k - 1) (variableDeclaration g kind false)
      (variableDeclaration g' kind false) (Stmt.relocate p.relocate) := by
  have hbound := hg.bound
  refine .bind (here_retraces hkeeps) fun start => .bind (advance_inner hproper) fun _ => ?_
  refine .bind (declarators_retraces hg kind false (Mode.outer_tight p) nofun (by omega))
    fun found => ?_
  refine .bind (end_retraces (by omega)) fun _ => ?_
  refine .bind (spanFrom_retraces rfl (by omega)) fun span => ?_
  exact pure_ended (by simp [Stmt.relocate]) rfl (by omega)

theorem variableDeclaration_inner (kind : VariableKind)
    (hproper : ∀ token, pre.known token → token.isProper = true) (hkeeps : ¬pre.keeps)
    (hk : 0 < k → 3 * k + 3 ≤ d) :
    p.Retraces pre k (fun _ => .inner) (k - 1) (variableDeclaration g kind true)
      (variableDeclaration g' kind true) (Stmt.relocate p.relocate) := by
  have hbound := hg.bound
  refine .bind (here_retraces hkeeps) fun start => .bind (advance_inner hproper) fun _ => ?_
  refine .bind (declarators_retraces hg kind true (Mode.inner_tight p) (fun _ => rfl) (by omega))
    fun found => ?_
  refine .bind (spanFrom_retraces rfl (by omega)) fun span => .pure ?_ (by omega)
  simp [Stmt.relocate]

/-! ## The kind of a declaration -/

omit hg in
theorem run_declarationKind (setting : Setting) (s : State) :
    declarationKind setting s =
      .ok (declaredKind s.current.token s.advanced.current.token, s) := by
  rw [declarationKind, run_bind run_token]
  generalize s.current.token = found
  split
  · rfl
  · rfl
  · rw [run_bind run_peek]
    change _ = Except.ok (letKind s.advanced.current.token, s)
    generalize s.advanced.current.token = following
    unfold letKind
    split <;> first | rfl | (split <;> first | rfl | simp_all)
  · unfold declaredKind
    split <;> first | rfl | simp_all

omit hg in
/-- What is declared is known from the token behind `let`.  At the end of the text `let` is read
with more behind it, or is no name. -/
theorem Stands.declarationKind_bind {α γ : Type} {post : α → Mode} {later : Nat}
    {next : Option VariableKind → Parser α} {next' : Option VariableKind → Parser γ} {f : α → γ}
    {setting : Setting} {s s' : State} (hstands : p.Stands setting k s s') (hk : k ≤ p.text.length)
    (hknown : ∀ value token, (post value).known token)
    (hadvances : Advances s (declarationKind >>= next))
    (hover : ∀ escaped, s.current.token = .word "let" escaped →
      Overreads s ((declarationKind >>= next) setting s))
    (hnext : ∀ kind, p.FollowsAt setting s s' post later (next kind) (next' kind) f) :
    p.FollowsAt setting s s' post later (declarationKind >>= next)
      (declarationKind >>= next') f := by
  have hsame : declaredKind s'.current.token s'.advanced.current.token =
        declaredKind s.current.token s.advanced.current.token →
      p.FollowsAt setting s s' post later (declarationKind >>= next)
        (declarationKind >>= next') f := by
    intro hkind
    refine .bind_of_reads (f := id) (run_declarationKind _ _) ?_ (hnext _)
    rw [run_declarationKind, hkind]
    rfl
  rw [hstands.token] at hsame
  by_cases hlet : ∃ escaped, s.current.token = .word "let" escaped
  · obtain ⟨escaped, hlet⟩ := hlet
    have hplain : ∀ text, s.current.token = .punctuator text → text = "(" := by
      intro text h
      rw [hlet] at h
      contradiction
    rcases hstands.peeks hplain hk with hdoomed | ⟨hsecond, -⟩ | hend
    · exact .of_doomed hdoomed (fun _ _ hrun => (of_triple hadvances hrun).leads) hknown
    · exact hsame (by rw [hsecond])
    · exact .of_overreads hend (hover escaped hlet) hknown
  · refine hsame ?_
    unfold declaredKind
    split
    · rfl
    · rfl
    · rename_i escaped htoken
      exact absurd ⟨escaped, htoken⟩ hlet
    · rfl

/-! ## Loops -/

theorem forRest_retraces (start : Nat) (head : Option Stmt) (hk : 0 < k → 3 * k + 3 ≤ d) :
    p.Retraces .inner k (Mode.behind p) (k - 1) (forRest g start head)
      (forRest g' (p.relocate start) (head.map (Stmt.relocate p.relocate)))
      (Stmt.relocate p.relocate) := by
  have hbound := hg.bound
  refine .bind (unlessAt_inner ";" (fullExpression_retraces hg (Mode.inner_tight p) hk))
    fun test => ?_
  refine .bind (expect_retraces (Mode.inner_admits p _)) fun _ => ?_
  refine .bind (unlessAt_inner ")" (fullExpression_retraces hg (Mode.inner_tight p) (by omega)))
    fun update => ?_
  refine .bind (expect_retraces (Mode.inner_admits p _)) fun _ => ?_
  refine .bind (loopBody_retraces hg (by omega)) fun body => ?_
  refine .bind (spanFrom_retraces rfl (by omega)) fun span => ?_
  exact pure_behind (by simp [Stmt.relocate]) rfl (by omega)

theorem forEachSubject_retraces (hk : 0 < k → 3 * k + 3 ≤ d) :
    p.Retraces .inner k (fun _ => .inner) (k - 1) (forEachSubject g) (forEachSubject g')
      (Expr.relocate p.relocate) := by
  have hclosing : ∀ {j} (subject : Expr), j ≤ k → p.Retraces .inner j (fun _ => .inner) (k - 1)
      (do expect ")"; pure subject) (do expect ")"; pure (subject.relocate p.relocate))
      (Expr.relocate p.relocate) := fun subject hj =>
    .bind (expect_retraces (Mode.inner_admits p _)) fun _ => .pure rfl (by omega)
  refine .eatWord_ite (Mode.inner_admits p _) False.elim ?_ ?_
  · exact .bind (value_retraces hg (Mode.inner_tight p) (by omega)) fun subject =>
      hclosing subject (by omega)
  · refine .bind (expectWord_retraces (Mode.inner_admits p _)) fun _ => ?_
    exact .bind (fullExpression_retraces hg (Mode.inner_tight p) (by omega)) fun subject =>
      hclosing subject (by omega)

omit hg in
theorem checkLoopDeclaration_retraces (head : Stmt) :
    p.Retraces pre k (fun _ => pre) k (checkLoopDeclaration head)
      (checkLoopDeclaration (head.relocate p.relocate)) id := by
  have hothers : ∀ others : List Pattern, p.Retraces pre k (fun _ => pre) k
      (others.forM fun other => complain (patternStart other))
      ((others.map (Pattern.relocate p.relocate)).forM fun other =>
        complain (patternStart other)) id :=
    forM_retraces fun _ => complain_retraces _ _
  cases head with
  | variableDecl kind found span =>
      rw [Stmt.relocate, Pattern.relocateAll_eq_map]
      rcases found with _ | ⟨first, _ | ⟨second, others⟩⟩
      · exact .pure rfl le_rfl
      · cases first with
        | withDefault target value span => exact complain_retraces _ _
        | _ => exact .pure rfl le_rfl
      · cases first with
        | withDefault target value span => exact hothers (second :: others)
        | _ => exact hothers (second :: others)
  | _ => exact .pure rfl le_rfl

section Heads

variable {stops stops' : Parser Unit}
  (hstops : ∀ j, p.Retraces .inner j (fun _ => .inner) j stops stops' id)

include hstops

theorem forLoop_retraces (start : Nat) (head : Option Stmt) (hk : 0 < k → 3 * k + 3 ≤ d) :
    p.Retraces .inner k (Mode.behind p) (k - 1) (do stops; forRest g start head)
      (do stops'; forRest g' (p.relocate start) (head.map (Stmt.relocate p.relocate)))
      (Stmt.relocate p.relocate) :=
  .bind (hstops k) fun _ => forRest_retraces hg start head hk

theorem eachLoop_retraces (start : Nat) (make make' : Expr → Stmt → Span → Stmt)
    (hmake : ∀ subject body span, make' (subject.relocate p.relocate) (body.relocate p.relocate)
      (span.relocate p.relocate) = (make subject body span).relocate p.relocate)
    (hclosed : ∀ subject body span, (make subject body span).isClosed = body.isClosed)
    (hk : 0 < k → 3 * k + 3 ≤ d) :
    p.Retraces .inner k (Mode.behind p) (k - 1) (eachLoop g start stops make)
      (eachLoop g' (p.relocate start) stops' make') (Stmt.relocate p.relocate) := by
  have hbound := hg.bound
  have hbody : p.Retraces .inner k (Mode.behind p) (k - 1)
      (do
        let subject ← forEachSubject g
        let body ← loopBody g
        pure (make subject body (← spanFrom start)))
      (do
        let subject ← forEachSubject g'
        let body ← loopBody g'
        pure (make' subject body (← spanFrom (p.relocate start)))) (Stmt.relocate p.relocate) := by
    refine .bind (forEachSubject_retraces hg hk) fun subject => ?_
    refine .bind (loopBody_retraces hg (by omega)) fun body => ?_
    refine .bind (spanFrom_retraces rfl (by omega)) fun span => ?_
    exact pure_behind (hmake subject body span) (hclosed subject body span) (by omega)
  refine .bind (isWord_retraces id _) fun found => .ite (fun _ => ?_) fun _ => hbody
  exact .bind (hstops k) fun _ => hbody

theorem declaringLoop_retraces (start : Nat) (kind : VariableKind)
    (hpre : ∀ token, pre.known token → token.isProper = true) (hinner : ¬pre.keeps)
    (hk : 0 < k → 3 * k + 3 ≤ d) :
    p.Retraces pre k (Mode.behind p) (k - 1) (declaringLoop g start stops kind)
      (declaringLoop g' (p.relocate start) stops' kind) (Stmt.relocate p.relocate) := by
  refine .bind (variableDeclaration_inner hg kind hpre hinner hk) fun head => ?_
  refine .test_bind (fun token => token == .word "in" false || token == .word "of" false) false
    (fun _ _ => rfl) False.elim (.of_inner ?_) ?_
  · refine .bind (checkLoopDeclaration_retraces head) fun _ => ?_
    exact (eachLoop_retraces hg hstops start (.forEach head) (.forEach (head.relocate p.relocate))
      (fun _ _ _ => rfl) (fun _ _ _ => rfl) (by omega)).mono (by omega)
  · refine .bind (expect_retraces (Mode.inner_admits p _)) fun _ => ?_
    exact (forLoop_retraces hg hstops start (some head) (by omega)).mono (by omega)

theorem plainLoop_retraces (start : Nat) (awaits : Bool) (hk : 0 < k → 3 * k + 3 ≤ d)  :
    p.Retraces .inner k (Mode.behind p) k (plainLoop g start stops awaits)
      (plainLoop g' (p.relocate start) stops' awaits) (Stmt.relocate p.relocate) := by
  have hbound := hg.bound
  refine .eat_ite (Mode.inner_admits p _) False.elim ?_ ?_
  · exact (forLoop_retraces hg hstops start none (by omega)).mono (by omega)
  refine .bind (here_retraces id) fun headStart => ?_
  refine .bind ((expression_retraces hg (Mode.inner_tight p) (by omega)).withReader (fun _ => rfl)
    fun _ => rfl) fun head => ?_
  refine .test_bind (fun token => token == .word "in" false || token == .word "of" false) false
    (fun _ _ => rfl) False.elim (.of_inner ?_) ?_
  · refine .bind (asPattern_retraces .whole head) fun target => ?_
    exact (eachLoop_retraces hg hstops start (.forEachTarget target)
      (.forEachTarget (target.relocate p.relocate)) (fun _ _ _ => rfl) (fun _ _ _ => rfl)
      (by omega)).mono (by omega)
  · refine .bind (expect_retraces (Mode.inner_admits p _)) fun _ => .bind (hstops _) fun _ => ?_
    refine .bind (spanFrom_retraces rfl (by omega)) fun span => ?_
    exact (forRest_retraces hg start (some (.expression head span)) (by omega)).mono (by omega)

end Heads

theorem forStatement_retraces (hk : 0 < k → 3 * k + 3 ≤ d) :
    p.Retraces (.before (· = .word "for" false)) k (Mode.behind p) (k - 1) (forStatement g)
      (forStatement g') (Stmt.relocate p.relocate) := by
  have hbound := hg.bound
  have hroom := p.room
  have hadvancing := hg.advancing
  refine .bind (here_retraces id) fun start => ?_
  refine .bind (advance_retraces rfl (Mode.inner_admits p _)) fun _ => ?_
  refine .bind (here_retraces id) fun awaitStart => .bind (eatWord_retraces _) fun awaits => ?_
  refine .bind (expect_retraces (Mode.inner_admits p _)) fun _ => ?_
  have hstops : ∀ j, p.Retraces .inner j (fun _ => .inner) j
      (if awaits = true then refuse awaitStart else pure ())
      (if awaits = true then refuse (p.relocate awaitStart) else pure ()) id := fun _ =>
    .ite (fun _ => refuse_retraces _) fun _ => .pure rfl le_rfl
  refine .of_advances (fun _ _ => trivial) (fun s _ => triple_of fun holds hholds => ?_) ?_
  · clear hstops
    mvcgen <;> grind -ring -linarith
  intro setting s s' hstands _
  have hpos := hstands.pos
  -- whether a declaration follows depends on the token behind `let`, which has to be looked at
  refine hstands.declarationKind_bind (by omega) (fun _ _ => trivial) ?_ ?_ fun kind => ?_
  · refine triple_of fun holds hholds => ?_
    clear hstops
    mvcgen <;> grind -ring -linarith
  · intro escaped hlet
    rw [run_bind (run_declarationKind _ _)]
    cases declaredKind s.current.token s.advanced.current.token with
    | some kind =>
        refine (variableDeclaration_overreads hadvancing kind true).bind fun head s => ?_
        refine triple_of fun holds hholds => ?_
        clear hstops
        mvcgen <;> grind -ring -linarith
    | none =>
        have hother : (s.current.token == .punctuator ";") = false := by
          rw [hlet]
          rfl
        dsimp only
        rw [run_bind (run_eat hother), if_neg (by simp), run_bind run_here]
        have hhead : Falters s (withReader (fun setting : Setting =>
            { setting with allowIn := false, inLoopHead := !awaits }) g.expression setting s) :=
          expression_falters hadvancing
            (hg.falters (by rw [hlet]; rfl) (hstands.budget ▸ Nat.zero_lt_of_lt hroom.1))
        refine hhead.overreads.bind fun head s => triple_of fun holds hholds => ?_
        clear hstops
        mvcgen <;> grind -ring -linarith
  · cases kind with
    | some kind =>
        refine hstands.follows_of_eq rfl (.mono ?_ (by omega : k - 1 - 1 - 1 ≤ k - 1))
        exact declaringLoop_retraces hg hstops start kind (fun _ h => h ▸ hstands.proper) id
          (by omega)
    | none =>
        exact hstands.follows ((plainLoop_retraces hg hstops start awaits (by omega)).mono
          (by omega))

end Grammar

end Passage

end Parser
end Script
end ScriptBundler
