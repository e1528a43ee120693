import ScriptBundler.Proofs.Script.ClassPassages

/-!
# Reading a passage again: expressions
-/

namespace ScriptBundler
namespace Script
namespace Parser

open Mark Std.Do Text

set_option mvcgen.warning false

variable {p : Passage} {pre mode : Mode} {k d : Nat}

/-- What is read behind `async` where an arrow function without brackets starts. -/
def asyncArrow (g : Grammar) (start : Nat) : Parser Expr := do
  let param ← bindingIdentifier
  if ← afterNewline then unexpected
  expect "=>"
  arrowRest g start true [.ident param]

/-- What is read behind a base that `make` builds from its span. -/
def subscriptsBehind (g : Grammar) (start : Nat) (calls : Bool) (rounds : Nat) (chain : Bool)
    (make : Span → Expr) : Parser Expr := do
  let span ← spanFrom start
  subscripts g start calls rounds chain (make span)

/-- What is read behind a point: a name, and what stands behind the access to it. -/
def namedAccess (g : Grammar) (start : Nat) (calls : Bool) (rounds : Nat) (base : Expr)
    (chain : Bool) : Parser Expr := do
  if ← isPunctuator "#" then privateName else discard identifierName
  subscriptsBehind g start calls rounds chain fun span =>
    if chain then .chainMember base none span else .member base none span

/-- What is read of an access in square brackets, and what stands behind it. -/
def computedAccess (g : Grammar) (start : Nat) (calls : Bool) (rounds : Nat) (base : Expr)
    (chain : Bool) : Parser Expr := do
  expect "["
  let key ← g.fullExpression
  expect "]"
  subscriptsBehind g start calls rounds chain fun span =>
    if chain then .chainMember base (some key) span else .member base (some key) span

/-- What is read of a call, and what stands behind it. -/
def calledBase (g : Grammar) (start : Nat) (calls : Bool) (rounds : Nat) (base : Expr)
    (chain : Bool) : Parser Expr := do
  let items ← arguments g
  subscriptsBehind g start calls rounds chain fun span =>
    if chain then .chainCall base items span else .call base items span

namespace Passage

/-- A punctuator that no statement starts with is not behind the text. -/
theorem next_ne_of_stray {text : String} (hstray : (Token.punctuator text).isStray = true) :
    p.next.token ≠ .punctuator text ∧ p.newNext.token ≠ .punctuator text := by
  have hother := p.stray
  have hother' := p.newStray
  constructor <;>
  · intro hnext
    simp_all

section Grammar

variable {g g' : Grammar} (hg : p.Reaches d g g')

include hg

/-! ## Parentheses and arrow functions -/

theorem parenthesised_retraces (start : Nat) (mayBeArrow : Bool) (asyncName : Option Ident)
    (hmode : mode.Tight p) (hk : 0 < k → 3 * k + 1 ≤ d) :
    p.Retraces pre k (fun _ => mode) (k - 1) (parenthesised g start mayBeArrow asyncName)
      (parenthesised g' (p.relocate start) mayBeArrow (asyncName.map (Ident.relocate p.relocate)))
      (Expr.relocate p.relocate) := by
  have hbound := hg.bound
  unfold parenthesised
  refine .bind (expect_retraces (Mode.inner_admits p _)) fun _ => ?_
  -- what is read of the parentheses starts within the text
  refine .of_advances (fun _ => hmode.known) (fun s _ => triple_of fun holds hholds => ?_) ?_
  · have hadvancing := hg.advancing
    mvcgen [withIn] <;> grind -ring -linarith
  intro setting s s' hstands _
  have hpos := hstands.pos
  refine hstands.here_bind (hstands.follows ?_)
  refine .bind (commaList_retraces (by omega) (hmode.admits (by decide)) fun j hj =>
    item_retraces hg (by omega)).withIn fun found => ?_
  rcases found with ⟨items, comma⟩
  refine .isPunctuator_ite (fun _ => (next_ne_of_stray rfl).2) ?_ ?_
  · refine .bind (afterNewline_retraces id (by omega))
      fun newline => .unexpected_ite (fun h => h) ?_
    refine .bind (advance_retraces rfl (Mode.inner_admits p _)) fun _ => ?_
    refine .bind (refuseSuspension_retraces hstands.start_le) fun _ => ?_
    refine .bind (asParameters_retraces items comma) fun params => ?_
    rw [Option.isSome_map]
    exact (arrowRest_retraces hg start _ params hmode (by omega)).mono (by omega)
  cases asyncName with
  | some id =>
      refine .bind (spanFrom_retraces rfl (by omega)) fun span => .pure ?_ (by omega)
      simp [Expr.relocate]
  | none =>
      cases comma with
      | some comma => exact refuse_bind _
      | none =>
          refine .bind (forM_retraces (f := Expr.relocate p.relocate) (fun item => ?_) items)
            fun _ => ?_
          · cases item with
            | spread value => exact refuse_retraces _
            | _ => exact .pure rfl le_rfl
          rcases items with _ | ⟨value, _ | ⟨second, others⟩⟩
          · exact .bind (spanFrom_retraces rfl (by omega)) fun _ => refuse_retraces _
          · exact .bind (spanFrom_retraces rfl (by omega)) fun span => .pure rfl (by omega)
          · refine .mono (.spanFrom_pure rfl (by omega) fun span hspan => ?_) (by omega)
            simp [Expr.relocate, Span.relocate, relocate_pred hspan]

/-- A name, or an arrow function that it is the parameter of. -/
theorem identifierOrArrow_retraces (start : Nat) (mayBeArrow : Bool) (hmode : mode.Tight p)
    (hk : 0 < k → 3 * k + 1 ≤ d) :
    p.Retraces pre k (fun _ => mode) (k - 1) (identifierOrArrow g start mayBeArrow)
      (identifierOrArrow g' (p.relocate start) mayBeArrow) (Expr.relocate p.relocate) := by
  have hbound := hg.bound
  unfold identifierOrArrow
  refine .bind (identifier_retraces hmode) fun id => ?_
  refine .of_tail (fun _ => .ident id) (fun _ => .ident (id.relocate p.relocate)) hmode.known
    (fun s => triple_of fun holds hholds => ?_) ?_ ?_ fun _ _ _ => rfl
  · have hadvancing := hg.advancing
    mvcgen <;> grind -ring -linarith
  · intro setting s s' hstands
    refine hstands.afterNewline_bind (by omega) (hstands.isPunctuator_bind _ ?_)
    split
    · rename_i harrow
      have htoken : s.current.token = .punctuator "=>" :=
        eq_of_beq (Bool.and_eq_true_iff.mp harrow).2
      refine hstands.follows_of_eq htoken (.complain_ite (fun h => h) ?_)
      refine .bind (advance_retraces rfl (Mode.inner_admits p _)) fun _ => ?_
      exact (arrowRest_retraces hg start false [.ident id] hmode (by omega)).mono (by omega)
    · exact hstands.pure (hmode.known _) rfl le_rfl
  · intro _ setting s hcurrent
    have hother : (s.current.token == .punctuator "=>") = false := by
      rw [hcurrent]
      exact beq_false_of_ne (next_ne_of_stray rfl).2
    rw [run_bind run_afterNewline, run_bind (run_isPunctuator _), hother, Bool.and_false]
    rfl

theorem asyncArrow_retraces (start : Nat) (hmode : mode.Tight p) (hk : 0 < k → 3 * k + 4 ≤ d) :
    p.Retraces pre k (fun _ => mode) k (asyncArrow g start) (asyncArrow g' (p.relocate start))
      (Expr.relocate p.relocate) := by
  have hbound := hg.bound
  refine .bind (bindingIdentifier_retraces (Mode.inner_tight p)) fun param => ?_
  refine .bind (afterNewline_retraces id (by omega)) fun newline => .unexpected_ite (fun h => h) ?_
  refine .bind (expect_retraces (Mode.inner_admits p _)) fun _ => ?_
  exact (arrowRest_retraces hg start true [.ident param] hmode (by omega)).mono (by omega)

/-- Reads what starts with `async`, with more behind it only on the same line. -/
theorem asyncOrIdentifier_retraces (start : Nat) (mayBeArrow : Bool) (hmode : mode.Tight p)
    (hk : 0 < k → 3 * k + 1 ≤ d) :
    p.Retraces (.before (· = .word "async" false)) k (fun _ => mode) (k - 1)
      (asyncOrIdentifier g start mayBeArrow) (asyncOrIdentifier g' (p.relocate start) mayBeArrow)
      (Expr.relocate p.relocate) := by
  have hbound := hg.bound
  have hadvances := fun (s : State) (htoken : s.current.token = .word "async" false) =>
    asyncOrIdentifier_advances s hg.advancing start mayBeArrow (htoken ▸ rfl)
  refine .of_advances (fun _ => hmode.known) hadvances ?_
  intro setting s s' hstands htoken
  have hpos := hstands.pos
  have hname : p.Retraces .inner k (fun _ => mode) (k - 1) (identifierOrArrow g start mayBeArrow)
      (identifierOrArrow g' (p.relocate start) mayBeArrow) (Expr.relocate p.relocate) :=
    identifierOrArrow_retraces hg start mayBeArrow hmode hk
  have hplain : ∀ text, s.current.token = .punctuator text → text = "(" := by
    intro text h
    rw [htoken] at h
    contradiction
  rcases hstands.peeks hplain (by omega) with hdoomed | ⟨hnext, hnewline⟩ | hend
  · exact .of_doomed hdoomed (fun _ _ hrun => (of_triple (hadvances s htoken) hrun).leads)
      fun _ => hmode.known
  · refine .peek_bind ?_
    rw [hnext, hnewline]
    dsimp only
    split
    · refine hstands.follows_of_eq htoken
        (.bind (advance_retraces rfl (Mode.inner_admits p _)) fun _ => ?_)
      refine .bind (functionHead_retraces hg start true (hmode.admits (by decide))
        (fun j hj => optionalName_retraces) (by omega)) fun found => .pure ?_ (by omega)
      obtain ⟨name, _ | _⟩ := found <;> simp [Expr.relocate, Function.relocate]
    split
    · refine hstands.follows (.bind (identifier_retraces (Mode.inner_tight p)) fun id => ?_)
      exact (parenthesised_retraces hg start mayBeArrow (some id) hmode (by omega)).mono (by omega)
    generalize htoken : s.advanced.current.token = next
    split
    · rename_i name escaped
      split
      · have hfirst : p.FollowsAt setting s s' (fun _ => .before (· = .word name escaped)) (k - 1)
            identifier identifier (Ident.relocate p.relocate) := by
          refine .before (hstands.follows (identifier_retraces (Mode.inner_tight p)))
            fun _ t hrun => ?_
          rw [(of_triple (identifier_lands s) hrun).2, htoken]
        have hrest : p.Retraces (.before (· = .word name escaped)) (k - 1) (fun _ => mode) (k - 1)
            (asyncArrow g start) (asyncArrow g' (p.relocate start)) (Expr.relocate p.relocate) :=
          asyncArrow_retraces hg start hmode (by omega)
        refine .bind_of_run hstands.budget hfirst fun id _ _ => .read_bind fun setting _ => ?_
        refine .ite
          (fun _ => .peek_ite (· != .punctuator "=>") False.elim ?_ (by omega) ?_ ?_ hrest)
          fun _ => hrest
        · rintro _ rfl text h
          contradiction
        · rw [bne_iff_ne.mpr (next_ne_of_stray rfl).1, bne_iff_ne.mpr (next_ne_of_stray rfl).2]
        · refine .of_faulty (fun _ => hmode.known) fun setting s value t hrun => ?_
          obtain ⟨-, rfl⟩ := Prod.mk.inj (Except.ok.inj hrun)
          simp [State.mark]
      · exact hstands.follows hname
    · exact hstands.follows hname
  · -- the name ends the text, and what comes behind it does not belong to it
    intro value t hrun
    rw [asyncOrIdentifier_apart (hend.newCurrent ▸ p.newApart)]
    rcases asyncOrIdentifier_overreads hg.advancing start mayBeArrow with hsame | hreads
    · rw [hsame] at hrun
      exact hstands.follows hname value t hrun
    · exact FollowsAt.of_overreads hend hreads (fun _ => hmode.known) value t hrun

/-! ## Accesses and calls -/

section Behind

variable {start rounds rounds' : Nat} {calls : Bool}
  (hrest : ∀ {j : Nat} (chain : Bool) (base : Expr), j ≤ k - 1 →
    p.Retraces mode j (fun _ => mode) k (subscripts g start calls rounds chain base)
      (subscripts g' (p.relocate start) calls rounds' chain (base.relocate p.relocate))
      (Expr.relocate p.relocate))

include hrest

omit hg in
theorem subscriptsBehind_retraces {j : Nat} (chain : Bool) (make make' : Span → Expr)
    (hmake : ∀ span, make' (span.relocate p.relocate) = (make span).relocate p.relocate)
    (hj : j ≤ k - 1) (hinside : k = 0 ∨ k < p.text.length) :
    p.Retraces mode j (fun _ => mode) k (subscriptsBehind g start calls rounds chain make)
      (subscriptsBehind g' (p.relocate start) calls rounds' chain make')
      (Expr.relocate p.relocate) := by
  refine .bind (spanFrom_retraces rfl (by omega)) fun span => ?_
  rw [hmake]
  exact hrest chain (make span) hj

omit hg in
theorem namedAccess_retraces (base : Expr) (chain : Bool) (hmode : mode.Tight p)
    (hinside : k = 0 ∨ k < p.text.length) :
    p.Retraces .inner (k - 1) (fun _ => mode) k (namedAccess g start calls rounds base chain)
      (namedAccess g' (p.relocate start) calls rounds' (base.relocate p.relocate) chain)
      (Expr.relocate p.relocate) := by
  have hbehind := fun j hj => subscriptsBehind_retraces hrest (j := j) chain
    (fun span => if chain then .chainMember base none span else .member base none span)
    (fun span => if chain then .chainMember (base.relocate p.relocate) none span
      else .member (base.relocate p.relocate) none span)
    (fun span => by cases chain <;> rfl) hj hinside
  refine .isPunctuator_ite False.elim ?_ ?_
  · exact .bind (privateName_retraces hmode (by omega)) fun _ => hbehind _ (by omega)
  · exact .bind (identifierName_retraces hmode).discard fun _ => hbehind _ (by omega)

theorem computedAccess_retraces {j : Nat} (base : Expr) (chain : Bool) (hmode : mode.Tight p)
    (hj : j ≤ k) (hk : 0 < k → 3 * k + 1 ≤ d) (hinside : k = 0 ∨ k < p.text.length) :
    p.Retraces .inner j (fun _ => mode) k (computedAccess g start calls rounds base chain)
      (computedAccess g' (p.relocate start) calls rounds' (base.relocate p.relocate) chain)
      (Expr.relocate p.relocate) := by
  refine .bind (expect_retraces (Mode.inner_admits p _)) fun _ => ?_
  refine .bind (fullExpression_retraces hg (Mode.inner_tight p) (by omega)) fun key => ?_
  refine .bind (expect_retraces (hmode.admits (by decide))) fun _ => ?_
  exact subscriptsBehind_retraces hrest chain _ _ (fun span => by cases chain <;> rfl)
    (by omega) hinside

theorem calledBase_retraces {j : Nat} (base : Expr) (chain : Bool) (hmode : mode.Tight p)
    (hj : j ≤ k) (hk : 0 < k → 3 * k + 1 ≤ d) (hinside : k = 0 ∨ k < p.text.length) :
    p.Retraces .inner j (fun _ => mode) k (calledBase g start calls rounds base chain)
      (calledBase g' (p.relocate start) calls rounds' (base.relocate p.relocate) chain)
      (Expr.relocate p.relocate) := by
  refine .bind (arguments_retraces hg hmode (by omega)) fun items => ?_
  exact subscriptsBehind_retraces hrest chain _ _
    (fun span => by cases chain <;> simp [Expr.relocate]) (by omega) hinside

end Behind

theorem subscripts_retraces (start : Nat) (calls : Bool) (hmode : mode.Tight p) (rounds : Nat) :
    ∀ {rounds' k : Nat} (chain : Bool) (base : Expr), (0 < k → 3 * k + 1 ≤ d) → k < rounds →
      k < rounds' → k = 0 ∨ k < p.text.length →
      p.Retraces mode k (fun _ => mode) k (subscripts g start calls rounds chain base)
        (subscripts g' (p.relocate start) calls rounds' chain (base.relocate p.relocate))
        (Expr.relocate p.relocate) := by
  induction rounds with
  | zero => exact fun _ _ _ hrounds => absurd hrounds (Nat.not_lt_zero _)
  | succ rounds ih =>
      intro rounds' k chain base hk hrounds hrounds' hinside
      obtain ⟨rounds', rfl⟩ := Nat.exists_eq_succ_of_ne_zero (Nat.ne_zero_of_lt hrounds')
      refine .of_tail (fun _ => base) (fun _ => base.relocate p.relocate) hmode.known
        (fun s => triple_of fun holds hholds => ?_) (fun setting s s' hstands => ?_) ?_
        fun _ _ _ => rfl
      · have hadvancing := hg.advancing
        have hleads := fun s => subscripts_leads s hadvancing start calls rounds
        mvcgen [subscripts, hleads, -subscripts_leads] <;> grind -ring -linarith
      · have hpos := hstands.pos
        -- whatever is read in this round, the same rest with one round less stands behind it
        have hrest : ∀ {j : Nat} (chain : Bool) (base : Expr), j ≤ k - 1 →
            p.Retraces mode j (fun _ => mode) k (subscripts g start calls rounds chain base)
              (subscripts g' (p.relocate start) calls rounds' chain (base.relocate p.relocate))
              (Expr.relocate p.relocate) := fun chain base hj =>
          (ih chain base (by omega) (by omega) (by omega) (by omega)).mono (by omega)
        have hnamed := fun chain => namedAccess_retraces hrest base chain hmode hinside
        have hcomputed := fun {j} chain (hj : j ≤ k) =>
          computedAccess_retraces hg hrest base chain hmode hj hk hinside
        have hcalled := fun {j} chain (hj : j ≤ k) =>
          calledBase_retraces hg hrest base chain hmode hj hk hinside
        refine hstands.token_bind ?_
        generalize htoken : s.current.token = found
        split
        · exact hstands.follows_of_eq htoken
            (.bind (advance_retraces rfl (Mode.inner_admits p _)) fun _ => hnamed chain)
        · exact hstands.follows (hcomputed chain le_rfl)
        · refine hstands.follows_of_eq htoken (.unexpected_ite (fun h => h) ?_)
          refine .bind (advance_retraces rfl (Mode.inner_admits p _)) fun _ => ?_
          refine .bind (token_retraces id) fun found => .of_inner ?_
          dsimp only [id]
          split
          · exact hcalled true (by omega)
          · exact hcomputed true (by omega)
          · exact unexpected_retraces
          · exact hnamed true
        · split
          · exact hstands.follows (hcalled chain le_rfl)
          · exact hstands.pure (hmode.known _) rfl le_rfl
        · refine hstands.follows_of_eq htoken (.unexpected_ite (fun h => h) ?_)
          refine .bind (.of_before (fun _ => Or.inl) (template_retraces hg true hmode hk))
            fun parts => ?_
          exact subscriptsBehind_retraces hrest chain _ _ (fun span => by simp [Expr.relocate])
            (by omega) hinside
        · exact hstands.pure (hmode.known _) rfl le_rfl
      · intro hkeeps setting s hcurrent
        refine run_subscripts _ _ _ _ _ ?_
        rw [hcurrent]
        exact (hmode.next_rests hkeeps).1

theorem withSubscripts_retraces (start : Nat) (calls : Bool) (base : Expr) (hmode : mode.Tight p)
    (hk : 0 < k → 3 * k + 1 ≤ d) (hinside : k = 0 ∨ k < p.text.length) :
    p.Retraces mode k (fun _ => mode) k (withSubscripts g start calls base)
      (withSubscripts g' (p.relocate start) calls (base.relocate p.relocate))
      (Expr.relocate p.relocate) := by
  have hroom := p.room
  refine .read_bind fun setting hbudget => ?_
  exact subscripts_retraces hg start calls hmode _ false base hk (by omega)
    (by change k < p.newBudget; omega) hinside

/-! ## Primary expressions -/

omit hg in
/-- A private name stands before `in`, which does not come behind the text. -/
theorem privateOperand_retraces (start : Nat) (hinside : k = 0 ∨ k < p.text.length) :
    p.Retraces mode k (fun _ => mode) k
      (do
        if !((← isWord "in") && (← read).allowIn) then refuse start
        pure (.atom (← spanFrom start)))
      (do
        if !((← isWord "in") && (← read).allowIn) then refuse (p.relocate start)
        pure (.atom (← spanFrom (p.relocate start)))) (Expr.relocate p.relocate) where
  lost := by
    intro setting s value t _ hlost hrun
    rw [run_bind (run_isWord _), run_bind run_read] at hrun
    split at hrun
    · obtain ⟨_, _, hfirst, -⟩ := exists_of_bind hrun
      exact absurd hfirst (not_run_of_fails (refuse_fails s _))
    · obtain ⟨-, rfl⟩ := Prod.mk.inj (Except.ok.inj hrun)
      exact hlost
  follows := by
    intro setting s s' hbudget habreast value t hrun
    rw [run_bind (run_isWord _), run_bind run_read] at hrun ⊢
    split at hrun
    · obtain ⟨_, _, hfirst, -⟩ := exists_of_bind hrun
      exact absurd hfirst (not_run_of_fails (refuse_fails s _))
    rename_i hin
    have hword : s.current.token = .word "in" false := by
      have hin : s.current.token = .word "in" false ∧ setting.allowIn = true := by simpa using hin
      exact hin.1
    have hwithin := habreast.place.resolve_right fun hend => by
      have hstray := p.stray
      rw [← hend.2.current, hword] at hstray
      exact absurd hstray (by decide)
    have hstands : p.Stands setting k s s' := ⟨hbudget, habreast.alike, hwithin⟩
    obtain ⟨rfl, rfl⟩ := Prod.mk.inj (Except.ok.inj hrun)
    refine Or.inr ⟨s', ?_, habreast⟩
    rw [hstands.token, show (p.setting setting).allowIn = setting.allowIn from rfl, if_neg hin]
    exact congrArg (fun stop => Except.ok (Expr.atom ⟨p.relocate start, stop⟩, s'))
      (hstands.inner hinside).2.2

theorem primary_retraces {lhs lhs' : Parser Expr} (hadvances : ∀ s, Advances s lhs)
    (hlhs : ∀ j < k,
      p.Retraces .inner j (fun _ => .inner) (j - 1) lhs lhs' (Expr.relocate p.relocate))
    (hmode : mode.Tight p) (hk : 0 < k → 3 * k + 1 ≤ d) :
    p.Retraces pre k (fun _ => mode) (k - 1) (primary g lhs) (primary g' lhs')
      (Expr.relocate p.relocate) := by
  have hbound := hg.bound
  refine .of_advances (fun _ => hmode.known)
    (fun s _ => primary_advances s hg.advancing hadvances) ?_
  intro setting s s' hstands _
  have hpos := hstands.pos
  refine hstands.requireToken_bind (hstands.here_bind ?_)
  refine .bind_of_reads (f := p.setting) run_read run_read (hstands.token_bind ?_)
  -- both parsers allow an arrow function here, or neither does, for places stay apart
  have harrow : ((p.setting setting).arrowStart == some (p.relocate s.current.span.start)) =
      (setting.arrowStart == some s.current.span.start) := by
    change (setting.arrowStart.map p.relocate == _) = _
    cases setting.arrowStart with
    | none => rfl
    | some place =>
        rw [Option.map_some, Bool.eq_iff_iff, beq_iff_eq, beq_iff_eq, Option.some.injEq,
          Option.some.injEq]
        exact relocate_inj hstands.start_le
  dsimp only
  rw [harrow]
  generalize (setting.arrowStart == some s.current.span.start) = mayBeArrow
  generalize htoken : s.current.token = found
  split
  · exact hstands.follows_of_eq htoken (atom_retraces hmode fun _ h => h ▸ ⟨rfl, nofun⟩)
  · exact hstands.follows_of_eq htoken (atom_retraces hmode fun _ h => h ▸ ⟨rfl, nofun⟩)
  · exact hstands.follows (parenthesised_retraces hg _ mayBeArrow none hmode hk)
  · exact hstands.follows_of_eq htoken (arrayLiteral_retraces hg hmode hk)
  · exact hstands.follows_of_eq htoken (objectLiteral_retraces hg hmode hk)
  · refine hstands.follows_of_eq htoken
      (.bind (.of_before (fun _ => Or.inl) (template_retraces hg false hmode hk)) fun parts => ?_)
    refine .bind (spanFrom_retraces rfl (by omega)) fun span => .pure ?_ le_rfl
    simp [Expr.relocate]
  · exact hstands.follows_of_eq htoken
      (.of_before (fun _ => Or.inl) (regularExpression_retraces hmode))
  · exact hstands.follows_of_eq htoken
      (.of_before (fun _ => Or.inr) (regularExpression_retraces hmode))
  · refine hstands.follows (.bind (privateName_retraces hmode (by omega)) fun _ => ?_)
    exact privateOperand_retraces _ (by omega)
  · rename_i name escaped
    refine hstands.follows_of_eq htoken ?_
    refine .ite (fun _ => ?_) fun _ => .ite (fun _ => ?_) fun _ => .ite (fun _ => ?_) fun _ =>
      .ite (fun hasync => ?_) fun _ => .ite (fun _ => ?_) fun _ => refuse_retraces _
    · exact atom_retraces hmode fun _ h => h ▸ ⟨rfl, nofun⟩
    · refine .bind (functionHead_retraces hg _ false (hmode.admits (by decide))
        (fun j hj => optionalName_retraces) hk) fun found => .pure ?_ le_rfl
      obtain ⟨name, _ | _⟩ := found <;> simp [Expr.relocate, Function.relocate]
    · exact classExpression_retraces hg (hmode.admits (by decide)) hadvances hlhs hk
    · obtain ⟨hname, hplain⟩ := Bool.and_eq_true_iff.mp hasync
      obtain rfl : name = "async" := eq_of_beq hname
      obtain rfl : escaped = false := by simpa using hplain
      exact asyncOrIdentifier_retraces hg _ mayBeArrow hmode hk
    · exact identifierOrArrow_retraces hg _ mayBeArrow hmode hk
  · exact hstands.follows (refuse_retraces _)

/-! ## Accesses and calls from a keyword on -/

/-- Whether a token makes an access or a call of `super`. -/
def opensMember (token : Token) : Prop :=
  token = .punctuator "." ∨ token = .punctuator "[" ∨ token = .punctuator "("

section Keywords

variable {α γ : Type} {post : α → Mode} {later : Nat} {next : Expr → Parser α}
  {next' : Expr → Parser γ} {f : α → γ}

omit hg in
theorem superReference_then (next : Expr → Parser α) :
    superReference >>= next = (do
      let start ← here
      if !(← read).hasSuper then refuse start
      ((do pure (← get).current.span : Parser Span) >>= fun span => do
        advance
        match ← token with
        | .punctuator "." | .punctuator "[" | .punctuator "(" => next (.atom span)
        | _ => unexpected >>= next)) := by
  have hrest : (do
      let base ← atom
      match ← token with
      | .punctuator "." | .punctuator "[" | .punctuator "(" => pure base
      | _ => unexpected) >>= next =
      ((do pure (← get).current.span : Parser Span) >>= fun span => do
        advance
        match ← token with
        | .punctuator "." | .punctuator "[" | .punctuator "(" => next (.atom span)
        | _ => unexpected >>= next) := by
    simp only [atom, bind_assoc, pure_bind]
    refine congrArg (get >>= ·) (funext fun s => congrArg (advance >>= ·) (funext fun _ => ?_))
    refine congrArg (token >>= ·) (funext fun found => ?_)
    split <;> simp only [pure_bind]
  unfold superReference
  simp only [bind_assoc]
  refine congrArg (here >>= ·)
    (funext fun start => congrArg (read >>= ·) (funext fun setting => ?_))
  split
  · rw [bind_assoc]
    exact congrArg (refuse start >>= ·) (funext fun _ => hrest)
  · exact hrest

omit hg in
theorem superReference_bind (hnext : ∀ span, p.Retraces (.before opensMember) (k - 1) post later
      (next (.atom span)) (next' (.atom (span.relocate p.relocate))) f) :
    p.Retraces (.before (· = .word "super" false)) k post later (superReference >>= next)
      (superReference >>= next') f := by
  rw [superReference_then, superReference_then]
  refine .bind (here_retraces id) fun start => .read_bind
    fun setting _ => .refuse_ite (fun h => h) ?_
  refine .bind (span_retraces id) fun span => ?_
  refine .bind (advance_retraces rfl (Mode.inner_admits p _)) fun _ => ?_
  refine .bind (token_retraces id) fun found => ?_
  dsimp only [id]
  split
  · exact .of_before (fun _ => Or.inl) (hnext span)
  · exact .of_before (fun _ h => Or.inr (Or.inl h)) (hnext span)
  · exact .of_before (fun _ h => Or.inr (Or.inr h)) (hnext span)
  · exact unexpected_bind

omit hg in
/-- What follows `import` follows `import.meta`, or makes a call. -/
theorem importReference_then (calls : Bool) (next : Expr → Parser α) :
    importReference calls >>= next = (do
      let start ← here
      advance
      if ← eat "." then
        expectWord "meta"
        next (.atom (← spanFrom start))
      else
        let span ← spanFrom start
        if !calls || !(← isPunctuator "(") then unexpected
        if (← peek).token == .punctuator ")" then unexpected
        next (.atom span)) := by
  unfold importReference
  simp only [bind_assoc]
  refine congrArg (here >>= ·) (funext fun start => congrArg (advance >>= ·) (funext fun _ => ?_))
  refine congrArg (eat "." >>= ·) (funext fun dot => ?_)
  cases dot
  · simp only [bind_assoc, Bool.false_eq_true, if_false]
    refine congrArg (spanFrom start >>= ·) (funext fun span => ?_)
    refine congrArg (isPunctuator "(" >>= ·) (funext fun opens => ?_)
    have hpeek : ((do
        if (← peek).token == .punctuator ")" then unexpected
        pure (.atom span)) >>= next) =
        (do
          if (← peek).token == .punctuator ")" then unexpected
          next (.atom span)) := by
      rw [bind_assoc]
      refine congrArg (peek >>= ·) (funext fun after => ?_)
      split <;> simp
    split
    · rw [bind_assoc]
      exact congrArg (unexpected >>= ·) (funext fun _ => hpeek)
    · exact hpeek
  · simp only [bind_assoc, pure_bind, if_true]

omit hg in
theorem importReference_bind (calls : Bool) (hmode : mode.Tight p) (hinside : k ≤ p.text.length)
    (hmeta : ∀ span, p.Retraces mode (k - 1 - 1 - 1) post later (next (.atom span))
      (next' (.atom (span.relocate p.relocate))) f)
    (hcall : ∀ span,
      p.Retraces (.before (· = .punctuator "(")) (k - 1) post later (next (.atom span))
      (next' (.atom (span.relocate p.relocate))) f) :
    p.Retraces (.before (· = .word "import" false)) k post later (importReference calls >>= next)
      (importReference calls >>= next') f := by
  rw [importReference_then, importReference_then]
  refine .bind (here_retraces id) fun start => ?_
  refine .bind (advance_retraces rfl (Mode.inner_admits p _)) fun _ => ?_
  refine .eat_ite (Mode.inner_admits p _) False.elim ?_ ?_
  · refine .bind (expectWord_retraces (hmode.admits nofun)) fun _ => ?_
    exact .bind (spanFrom_retraces rfl (by omega)) fun span => hmeta span
  · refine .bind (spanFrom_retraces rfl (by omega)) fun span => ?_
    refine .test_bind (· == .punctuator "(") false (fun _ _ => rfl) False.elim ?_ ?_
    · refine .of_before (fun token => eq_of_beq) (.unexpected_ite (fun h => h)
        (.peek_ite (· == .punctuator ")") id ?_ (by omega) ?_ unexpected_bind (hcall span)))
      · rintro _ rfl text h
        exact (Token.punctuator.inj h).symm
      · rw [beq_false_of_ne (next_ne_of_stray rfl).1, beq_false_of_ne (next_ne_of_stray rfl).2]
    · rw [Bool.not_false, Bool.or_true]
      exact unexpected_bind

end Keywords

/-- What is called, or accessed, behind `new` is read on. -/
theorem instance_advances (first start rounds : Nat) (base : Expr) {s : State}
    (hopens : opensMember s.current.token) :
    Advances s (do
      let callee ← subscripts g start false (rounds + 1) false base
      let items ← if ← isPunctuator "(" then arguments g else pure []
      pure (Expr.new callee items (← spanFrom first))) := by
  have hadvancing := hg.advancing
  have hleads := fun s => subscripts_leads s hadvancing start false rounds
  refine triple_of fun holds hholds => ?_
  unfold opensMember at hopens
  mvcgen [subscripts, hleads, -subscripts_leads] <;> grind -ring -linarith

/-- What is made an instance of may be accessed and called. -/
theorem instance_retraces (first start : Nat) (base : Expr) (hmode : mode.Tight p)
    (hpre : pre = mode ∨ pre = .before opensMember) (hk : 0 < k → 3 * k + 1 ≤ d)
    (hinside : k = 0 ∨ k < p.text.length) :
    p.Retraces pre k (fun _ => mode) k
      (do
        let callee ← withSubscripts g start false base
        let items ← if ← isPunctuator "(" then arguments g else pure []
        pure (Expr.new callee items (← spanFrom first)))
      (do
        let callee ← withSubscripts g' (p.relocate start) false (base.relocate p.relocate)
        let items ← if ← isPunctuator "(" then arguments g' else pure []
        pure (Expr.new callee items (← spanFrom (p.relocate first))))
          (Expr.relocate p.relocate) := by
  have hroom := p.room
  simp only [withSubscripts, bind_assoc]
  refine .read_bind fun setting hbudget => ?_
  obtain ⟨rounds, hrounds⟩ := Nat.exists_eq_succ_of_ne_zero (Nat.ne_zero_of_lt (hbudget ▸ hroom.1))
  rw [hrounds]
  have hwhole : p.Retraces mode k (fun _ => mode) k
      (do
        let callee ← subscripts g start false (rounds + 1) false base
        let items ← if ← isPunctuator "(" then arguments g else pure []
        pure (Expr.new callee items (← spanFrom first)))
      (do
        let callee ← subscripts g' (p.relocate start) false p.newBudget false
          (base.relocate p.relocate)
        let items ← if ← isPunctuator "(" then arguments g' else pure []
        pure (Expr.new callee items (← spanFrom (p.relocate first))))
          (Expr.relocate p.relocate) := by
    refine .bind (subscripts_retraces hg start false hmode _ false base hk (by omega) (by omega)
      hinside) fun callee => ?_
    refine .isPunctuator_ite (fun hkeeps => hmode.next_ne rfl hkeeps) ?_ ?_
    · refine .bind (arguments_retraces hg hmode hk) fun items => ?_
      refine .bind (spanFrom_retraces rfl (by omega)) fun span => .pure ?_ (Nat.sub_le _ _)
      simp [Expr.relocate]
    · simp only [pure_bind]
      exact .bind (spanFrom_retraces rfl hinside) fun span => .pure rfl le_rfl
  rcases hpre with rfl | rfl
  · exact hwhole
  · exact .of_moves hmode.known (fun _ => hmode.known)
      (fun s hopens => instance_advances hg first start rounds base hopens) hwhole

theorem newExpression_retraces {lhs lhs' : Parser Expr} (hadvances : ∀ s, Advances s lhs)
    (hmode : mode.Tight p) (rounds : Nat) : ∀ {rounds' k : Nat},
      (∀ j < k, p.Retraces .inner j (fun _ => .inner) (j - 1) lhs lhs' (Expr.relocate p.relocate)) →
      (0 < k → 3 * k + 1 ≤ d) → k < rounds' → k ≤ p.text.length →
      p.Retraces (.before (· = .word "new" false)) k (fun _ => mode) (k - 1)
        (newExpression g lhs rounds) (newExpression g' lhs' rounds')
        (Expr.relocate p.relocate) := by
  have hadvancing := hg.advancing
  induction rounds with
  | zero => exact fun _ _ _ _ => unexpected_retraces
  | succ rounds ih =>
      intro rounds' k hlhs hk hrounds hinside
      obtain ⟨rounds', rfl⟩ := Nat.exists_eq_succ_of_ne_zero (Nat.ne_zero_of_lt hrounds)
      rw [newExpression, newExpression]
      refine .bind (here_retraces id) fun first => ?_
      refine .bind (advance_retraces rfl (Mode.inner_admits p _)) fun _ => ?_
      refine .eat_ite (Mode.inner_admits p _) False.elim ?_ ?_
      · refine .bind (expectWord_retraces (hmode.admits (by simp))) fun _ => .read_bind
          fun setting _ => ?_
        refine .complain_ite (fun h => h) (.bind (spanFrom_retraces rfl (by omega)) fun span => ?_)
        exact .pure rfl (by omega)
      · refine .bind (here_retraces id) fun start => ?_
        refine .of_advances (fun _ => hmode.known) (fun s _ => triple_of fun holds hholds => ?_) ?_
        · clear ih hlhs
          mvcgen [hadvances] <;> grind -ring -linarith
        intro setting s s' hstands _
        have hpos := hstands.pos
        -- any callee is gone on with, but `super` and `import` only with certain tokens
        have hrest := fun {j} (hj : j ≤ k - 1) base => (instance_retraces hg first start base hmode
          (Or.inl rfl) (by omega) (by omega)).mono hj
        have hopens := fun {j} (hj : j ≤ k - 1) base => (instance_retraces hg first start base hmode
          (Or.inr rfl) (by omega) (by omega)).mono hj
        refine hstands.isWord_bind _ (hstands.isWord_bind _ (hstands.isWord_bind _ ?_))
        split
        · rename_i hword
          refine hstands.follows_of_eq (eq_of_beq hword) (.bind
            (ih (fun j hj => hlhs j (by omega)) (by omega) (by omega) (by omega))
            (hrest (Nat.sub_le _ _)))
        split
        · rename_i hword
          exact hstands.follows_of_eq (eq_of_beq hword)
            (superReference_bind fun span => hopens (Nat.sub_le _ _) _)
        split
        · rename_i hword
          refine hstands.follows_of_eq (eq_of_beq hword)
            (importReference_bind false hmode (by omega) (fun span => hrest (by omega) _)
              fun span => ?_)
          exact .of_before (fun _ h => Or.inr (Or.inr h)) (hopens (Nat.sub_le _ _) _)
        · exact hstands.follows (.bind
            (primary_retraces hg hadvances (fun j hj => hlhs j (by omega)) hmode (by omega))
            (hrest (Nat.sub_le _ _)))

/-- What is not an arrow function may be accessed and called. -/
theorem accesses_retraces (start : Nat) (base : Expr) (hmode : mode.Tight p)
    (hpre : pre = mode ∨ pre = .before opensMember ∧ isArrow base = false)
    (hk : 0 < k → 3 * k + 1 ≤ d) (hinside : k = 0 ∨ k < p.text.length) :
    p.Retraces pre k (fun _ => mode) k
      (if isArrow base then pure base else withSubscripts g start true base)
      (if isArrow (base.relocate p.relocate) then pure (base.relocate p.relocate)
        else withSubscripts g' (p.relocate start) true (base.relocate p.relocate))
      (Expr.relocate p.relocate) := by
  rw [isArrow_relocate]
  rcases hpre with rfl | ⟨rfl, harrow⟩
  · exact .ite (fun _ => .pure rfl le_rfl) fun _ =>
      withSubscripts_retraces hg start true base hmode hk hinside
  · have hroom := p.room
    rw [if_neg (by simp [harrow]), if_neg (by simp [harrow])]
    refine .read_bind fun setting hbudget => ?_
    obtain ⟨rounds, hrounds⟩ :=
      Nat.exists_eq_succ_of_ne_zero (Nat.ne_zero_of_lt (hbudget ▸ hroom.1))
    rw [hrounds]
    refine .of_moves hmode.known (fun _ => hmode.known) (fun s hopens => ?_)
      (subscripts_retraces hg start true hmode _ false base hk (by omega)
        (by change k < p.newBudget; omega) hinside)
    refine subscripts_advances hg.advancing start rounds base ?_
    rcases hopens with h | h | h <;> rw [h] <;> rfl

theorem leftHandSide_retraces (depth : Nat) : ∀ {pre mode : Mode} {depth' k : Nat}, mode.Tight p →
    (0 < k → 3 * k + 1 ≤ d) → k < depth' →
      p.Retraces pre k (fun _ => mode) (k - 1) (leftHandSide g depth) (leftHandSide g' depth')
        (Expr.relocate p.relocate) := by
  have hadvancing := hg.advancing
  have hbound := hg.bound
  have hroom := p.room
  induction depth with
  | zero => exact fun _ _ _ => unexpected_retraces
  | succ depth ih =>
      intro pre mode depth' k hmode hk hdepth
      obtain ⟨depth', rfl⟩ := Nat.exists_eq_succ_of_ne_zero (Nat.ne_zero_of_lt hdepth)
      have hadvances := fun s => leftHandSide_advances (s := s) hadvancing depth
      have hlhs : ∀ j < k, p.Retraces .inner j (fun _ => .inner) (j - 1) (leftHandSide g depth)
          (leftHandSide g' depth') (Expr.relocate p.relocate) :=
        fun j hj => ih (Mode.inner_tight p) (by omega) (by omega)
      rw [leftHandSide, leftHandSide]
      refine .of_inner (.bind (here_retraces id) fun start => ?_)
      refine .of_advances (fun _ => hmode.known) (fun s _ => triple_of fun holds hholds => ?_) ?_
      · clear ih hlhs
        mvcgen [hadvances] <;> grind -ring -linarith
      intro setting s s' hstands _
      have hpos := hstands.pos
      -- any base is gone on with, but `super` and `import` only with certain tokens
      have hrest := fun {j} (hj : j ≤ k - 1) base => (accesses_retraces hg start base hmode
        (Or.inl rfl) (by omega) (by omega)).mono hj
      have hopens := fun {j} (hj : j ≤ k - 1) span => (accesses_retraces hg start (.atom span) hmode
        (Or.inr ⟨rfl, rfl⟩) (by omega) (by omega)).mono hj
      refine hstands.isWord_bind _ (hstands.isWord_bind _ (hstands.isWord_bind _ ?_))
      split
      · rename_i hword
        exact hstands.follows_of_eq (eq_of_beq hword)
          (superReference_bind fun span => hopens le_rfl _)
      split
      · rename_i hword
        refine hstands.follows_of_eq (eq_of_beq hword)
          (importReference_bind true hmode (by omega) (fun span => hrest (by omega) _)
            fun span => ?_)
        exact .of_before (fun _ h => Or.inr (Or.inr h)) (hopens le_rfl _)
      split
      · rename_i hword
        refine hstands.follows_of_eq (eq_of_beq hword) (.read_bind fun setting hbudget => ?_)
        exact .bind (newExpression_retraces hg hadvances hmode _ hlhs hk
          (by change k < p.newBudget; omega) (by omega)) (hrest le_rfl)
      · exact hstands.follows (.bind (primary_retraces hg hadvances hlhs hmode hk)
          (hrest le_rfl))

end Grammar

end Passage

end Parser
end Script
end ScriptBundler
