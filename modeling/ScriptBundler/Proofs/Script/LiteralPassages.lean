import ScriptBundler.Proofs.Script.Lookahead
import ScriptBundler.Proofs.Script.Noting
import ScriptBundler.Proofs.Script.PatternPassages

/-!
# Reading a passage again: literals, classes and parentheses
-/

namespace ScriptBundler
namespace Script
namespace Parser

open Mark Std.Do Text

set_option mvcgen.warning false

variable {p : Passage} {pre mode : Mode} {k d : Nat}

/-- The parts of a template behind text of it, which may be the last one. -/
def templateRest (g : Grammar) (opening : Nat) (tagged : Bool) (rounds : Nat) (last : Bool) :
    Parser (List Expr) :=
  if last then pure []
  else do
    let part ← g.fullExpression
    if !(← isPunctuator "\x7d") then unexpected
    let current := (← get).current
    let rest ← templateParts g opening tagged rounds ⟨current.rest, current.span.stop⟩
    pure (part :: rest)

namespace Passage

/-! ## The end of a field or a statement -/

theorem Stands.run_atSemicolon {setting : Setting} {s s' : State}
    (hstands : p.Stands setting k s s')
    (hk : k = 0 ∨ k < p.text.length) {ended : Bool}
    (hrun : atSemicolon setting s = .ok (ended, s)) :
    atSemicolon (p.setting setting) s' = .ok (ended, s') := by
  have hnewline := (hstands.inner hk).1
  rw [atSemicolon, run_bind run_token] at hrun ⊢
  rw [hstands.token]
  revert hrun
  generalize s.current.token = found
  split
  all_goals intro hrun
  · obtain ⟨rfl, -⟩ := Prod.mk.inj (Except.ok.inj hrun)
    rfl
  · obtain ⟨rfl, -⟩ := Prod.mk.inj (Except.ok.inj hrun)
    rfl
  · obtain ⟨rfl, -⟩ := Prod.mk.inj (Except.ok.inj hrun)
    rfl
  · obtain ⟨rfl, -⟩ := Prod.mk.inj (Except.ok.inj hrun)
    rw [run_afterNewline, hnewline]

theorem atSemicolon_retraces (hkeeps : ¬pre.keeps) (hk : k = 0 ∨ k < p.text.length) :
    p.Retraces pre k (fun _ => pre) k atSemicolon atSemicolon id :=
  .of_reads hkeeps (fun _ => id)
    (fun _ s _ _ hrun => ⟨of_triple (atSemicolon_reads s) hrun, id⟩)
    fun _ _ _ _ hstands hrun => hstands.run_atSemicolon hk hrun

theorem Stands.atSemicolon_bind {α γ : Type} {setting : Setting} {s s' : State} {post : α → Mode}
    {later : Nat} {next : Bool → Parser α} {next' : Bool → Parser γ} {f : α → γ}
    (hstands : p.Stands setting k s s') (hk : k = 0 ∨ k < p.text.length)
    (hnext : ∀ ended, p.FollowsAt setting s s' post later (next ended) (next' ended) f) :
    p.FollowsAt setting s s' post later (atSemicolon >>= next) (atSemicolon >>= next') f := by
  obtain ⟨ended, hrun⟩ : ∃ ended, atSemicolon setting s = .ok (ended, s) := by
    rw [atSemicolon, run_bind run_token]
    generalize s.current.token = found
    split <;> exact ⟨_, rfl⟩
  exact .bind_of_reads (f := id) hrun (hstands.run_atSemicolon hk hrun) (hnext ended)

/-- What may be missing where a statement ends is read by both parsers or by none. -/
theorem atSemicolon_ite {α γ : Type} {later : Nat} {other : Mode} {step : Parser α}
    {step' : Parser γ} {f : α → γ} {value : α}
    {value' : γ} (hvalue : value' = f value) (hknown : ∀ token, other.known token)
    (hkeeps : mode.keeps → other.wants → other.keeps) (hwants : other.wants → mode.wants)
    (hk : k = 0 ∨ k < p.text.length) (hle : k ≤ later)
    (hstep : p.Retraces .inner k (fun _ => other) later step step' f) :
    p.Retraces mode k (fun _ => other) later
      (atSemicolon >>= fun ended => if ended = true then pure value else step)
      (atSemicolon >>= fun ended => if ended = true then pure value' else step') f where
  lost := by
    intro setting s result t hbudget hlost hrun
    obtain ⟨ended, u, hfirst, hsecond⟩ := exists_of_bind hrun
    obtain rfl : u = s := of_triple (atSemicolon_reads s) hfirst
    cases ended with
    | false => exact hstep.lost _ _ _ _ hbudget (lost_inner hlost) hsecond
    | true =>
        obtain ⟨-, rfl⟩ := Prod.mk.inj (Except.ok.inj hsecond)
        exact lost_leads hlost hwants (.refl _) (hknown _)
  follows := by
    intro setting s s' hbudget habreast result t hrun
    obtain ⟨ended, u, hfirst, hsecond⟩ := exists_of_bind hrun
    obtain rfl : u = s := of_triple (atSemicolon_reads s) hfirst
    rcases habreast.place with hwithin | ⟨hapart, hend⟩
    · have hstands : p.Stands setting k u s' := ⟨hbudget, habreast.alike, hwithin⟩
      rw [run_bind (hstands.run_atSemicolon hk hfirst)]
      cases ended with
      | false => exact hstands.follows hstep _ _ hsecond
      | true => exact hstands.pure (hknown _) hvalue hle _ _ hsecond
    · cases ended with
      | false =>
          exact Or.inl (hstep.lost _ _ _ _ hbudget (lost_of_atEnd hend id trivial) hsecond)
      | true =>
          obtain ⟨rfl, rfl⟩ := Prod.mk.inj (Except.ok.inj hsecond)
          by_cases hother : other.wants
          · have hnew : atSemicolon (p.setting setting) s' = .ok (true, s') :=
              run_atSemicolon (hend.newCurrent ▸ p.newApart)
            exact Or.inr ⟨s', by rw [run_bind hnew, hvalue]; rfl, habreast.alike,
              Or.inr ⟨hkeeps hapart hother, hend⟩, hknown _⟩
          · exact Or.inl (lost_of_atEnd hend hother (hknown _))

theorem expectSemicolon_eq :
    expectSemicolon =
      (eat ";" >>= fun found => if found = true then pure () else
        atSemicolon >>= fun ended => if ended = true then pure () else unexpected) := by
  rw [expectSemicolon, eatSemicolon, bind_assoc]
  refine congrArg (eat ";" >>= ·) (funext fun found => ?_)
  cases found
  · refine congrArg (atSemicolon >>= ·) (funext fun ended => ?_)
    cases ended <;> rfl
  · rfl

/-- A statement that ends where its semicolon is missing ends there in the other source, too. -/
theorem expectSemicolon_retraces {other : Mode} (hmode : mode.Tight p)
    (hknown : ∀ token, other.known token) (hkeeps : other.wants → other.keeps)
    (hwants : other.wants → mode.wants) (hk : k = 0 ∨ k < p.text.length) :
    p.Retraces mode k (fun _ => other) k expectSemicolon expectSemicolon id := by
  rw [expectSemicolon_eq]
  refine .eat_ite ⟨fun h => Or.inl (hkeeps h), hknown⟩ (hmode.next_ne rfl)
    (.pure rfl (Nat.sub_le _ _)) ?_
  exact atSemicolon_ite rfl hknown (fun _ => hkeeps) hwants hk le_rfl unexpected_retraces

section Grammar

variable {g g' : Grammar} (hg : p.Reaches d g g')

include hg

/-! ## Lists and array literals -/

theorem item_retraces (hk : 0 < k → 3 * k + 3 ≤ d) :
    p.Retraces pre k (fun _ => .inner) (k - 1) (item g) (item g') (Expr.relocate p.relocate) := by
  have hinner := Mode.inner_tight p
  unfold item
  refine .of_inner (.eat_ite (Mode.inner_admits p _) False.elim ?_ (value_retraces hg hinner hk))
  exact .bind (value_retraces hg hinner (by omega)) fun value => .pure rfl (Nat.sub_le _ _)

theorem arguments_retraces (hmode : mode.Tight p) (hk : 0 < k → 3 * k + 1 ≤ d) :
    p.Retraces pre k (fun _ => mode) (k - 1) (arguments g) (arguments g')
      (List.map (Expr.relocate p.relocate)) := by
  have hbound := hg.bound
  unfold arguments
  refine .bind (expect_retraces (Mode.inner_admits p _)) fun _ => ?_
  refine .bind (commaList_retraces (by omega) (hmode.admits (by decide)) fun j hj =>
    item_retraces hg (by omega)) fun found => ?_
  exact .pure rfl (Nat.sub_le _ _)

omit hg in
/-- A comma after a last spread is noted with the literal that it is in. -/
theorem noteComma_retraces {start : Nat} (comma : Nat) (hstart : p.start ≤ start)
    (hstop : start < p.stop) :
    p.Retraces pre k (fun _ => pre) k
      (modify fun state => { state with commas := (start, comma) :: state.commas })
      (modify fun state =>
        { state with commas := (p.relocate start, p.relocate comma) :: state.commas })
      fun _ => () :=
  .modify (fun _ => rfl) (fun _ => ⟨rfl, rfl⟩) fun _ _ halike =>
    { halike with commas := carries_cons hstart hstop halike.commas }

omit hg in
/-- Where an object literal spells a pattern is noted until it is read as one. -/
theorem notePattern_retraces {start : Nat} (hstart : p.start ≤ start) (hstop : start < p.stop) :
    p.Retraces pre k (fun _ => pre) k
      (modify fun state => { state with pending := start :: state.pending })
      (modify fun state => { state with pending := p.relocate start :: state.pending })
      fun _ => () :=
  .modify (fun _ => rfl) (fun _ => ⟨rfl, rfl⟩) fun _ _ halike =>
    { halike with pending := carries_cons hstart hstop halike.pending }

theorem arrayLiteral_retraces (hmode : mode.Tight p) (hk : 0 < k → 3 * k + 1 ≤ d) :
    p.Retraces (.before (· = .punctuator "[")) k (fun _ => mode) (k - 1) (arrayLiteral g)
      (arrayLiteral g') (Expr.relocate p.relocate) := by
  have hbound := hg.bound
  refine .of_advances (fun _ => hmode.known)
    (fun s htoken => arrayLiteral_advances s hg.advancing (by rw [htoken]; rfl)) ?_
  intro setting s s' hstands htoken
  refine hstands.here_bind (hstands.follows_of_eq htoken ?_)
  refine .bind (advance_inner fun _ h => h ▸ rfl) fun _ => ?_
  refine .bind (repeatUntil_closing (f := Expr.relocate p.relocate) "]" (by omega) fun j hj => ?_)
    fun elements => ?_
  · refine .eat_ite (Mode.inner_admits p _) False.elim (.pure rfl le_rfl) ?_
    refine .bind (item_retraces hg (by omega)) fun element => ?_
    dsimp only
    rw [bind_ite_not, bind_ite_not]
    refine .isPunctuator_ite False.elim (.of_inner (.pure rfl le_rfl)) ?_
    refine .bind (here_retraces id) fun comma => ?_
    refine .bind (expect_retraces (Mode.inner_admits p _)) fun _ => ?_
    have hdone : p.Retraces .inner (j - 1 - 1) (fun _ => .inner) (j - 1) (pure element)
        (pure (element.relocate p.relocate)) (Expr.relocate p.relocate) :=
        .pure rfl (Nat.sub_le _ _)
    cases element with
    | spread value =>
        refine .isPunctuator_ite False.elim (.of_inner ?_) hdone
        exact .bind (noteComma_retraces comma hstands.start_le hstands.lt_stop) fun _ => hdone
    | _ => exact hdone
  · refine .bind (expect_retraces (hmode.admits (by decide))) fun _ => ?_
    refine .bind (spanFrom_retraces rfl (by omega)) fun span => .pure ?_ (Nat.sub_le _ _)
    simp [Expr.relocate]

/-! ## Object literals -/

theorem method_retraces {start : Nat} {key : KeyText} {accessor accessor' : Accessor}
    (isAsync isGenerator : Bool) (haccessor : accessor' = accessor.relocate p.relocate)
    (hk : 0 < k → 3 * k + 1 ≤ d) :
    p.Retraces pre k (fun _ => .inner) (k - 1) (method g start key isAsync isGenerator accessor)
      (method g' (p.relocate start) (key.relocate p.relocate) isAsync isGenerator accessor')
      (Member.relocate p.relocate) := by
  unfold method
  refine .bind (functionRest_retraces hg _ _ _ rfl haccessor (Mode.inner_admits p _) hk)
    fun body => ?_
  exact .pure (by simp [Member.relocate, KeyText.relocate]) le_rfl

omit hg in
/-- A key that is a word is the current token. -/
theorem propertyKey_word (s : State) (hadvancing : g.Advancing) (inClass : Bool) :
    ⦃fun _ state => ⌜state = s⌝⦄ propertyKey g inClass
    ⦃⇓? key _ _ => ⌜∀ id, key.word = some id → id.span = s.current.span⌝⦄ := by
  refine triple_of fun holds hholds => ?_
  mvcgen [propertyKey, identifierName, -propertyKey_advances, -identifierName_advances] <;>
    grind -ring -linarith

theorem objectMember_retraces (hk : 0 < k → 3 * k + 3 ≤ d) :
    p.Retraces pre k (fun _ => .inner) (k - 1) (objectMember g) (objectMember g')
      (Member.relocate p.relocate) := by
  have hinner := Mode.inner_tight p
  have hadmits := Mode.inner_admits p
  unfold objectMember
  refine .of_inner (.bind (here_retraces id) fun start => ?_)
  refine .eat_ite (hadmits _) False.elim ?_ ?_
  · exact .bind (value_retraces hg hinner (by omega)) fun value => .pure rfl (Nat.sub_le _ _)
  refine .eat_ite (hadmits _) False.elim ?_ ?_
  · refine .bind (propertyKey_retraces hg false hinner (by omega)) fun key => ?_
    exact (method_retraces hg _ _ rfl (by omega)).mono (by omega)
  -- where the key is a word, its place may have to be noted
  refine .of_advances (fun _ _ => trivial) (fun s _ => triple_of fun holds hholds => ?_) ?_
  · have hadvancing := hg.advancing
    mvcgen <;> grind -ring -linarith
  intro setting s s' hstands _
  have habreast : p.Abreast .inner k s s' := hstands.abreast trivial
  refine FollowsAt.bind_of_run hstands.budget ((propertyKey_retraces hg false hinner
    (by omega)).follows _ _ _ hstands.budget habreast) fun key t hrun => ?_
  have hword := of_triple (propertyKey_word s hg.advancing false) hrun
  refine .eat_ite (hadmits _) False.elim ?_ ?_
  · exact .bind (value_retraces hg hinner (by omega)) fun value =>
      .pure (by simp [Member.relocate, KeyText.relocate]) (by omega)
  refine .isPunctuator_ite False.elim ?_ ?_
  · exact (method_retraces hg _ _ rfl (by omega)).mono (by omega)
  rcases key with ⟨computed, _ | id, name, place⟩
  · exact unexpected_retraces
  have hspan : id.span = s.current.span := hword id rfl
  dsimp only [KeyText.relocate, Option.map, Ident.name_relocate]
  refine .bind (isPunctuator_retraces (fun h => h) _) fun equals => ?_
  refine .bind (isPunctuator_retraces (fun h => h) _) fun comma => ?_
  refine .bind (isPunctuator_retraces (fun h => h) _) fun close => ?_
  refine .ite (fun _ => .complain_ite (fun h => h) ?_) fun _ => .ite (fun _ => ?_) fun _ => ?_
  · refine .eat_ite (hadmits _) False.elim ?_ (.pure rfl le_rfl)
    refine .bind (notePattern_retraces (hspan ▸ hstands.start_le) (hspan ▸ hstands.lt_stop))
      fun _ => ?_
    exact .bind (value_retraces hg hinner (by omega)) fun value => .pure rfl (by omega)
  · refine .bind (eat_retraces _) fun isGenerator => ?_
    refine .bind (propertyKey_retraces hg false hinner (by omega)) fun key => ?_
    exact (method_retraces hg _ _ rfl (by omega)).mono (by omega)
  · refine .ite (fun _ => ?_) fun _ => unexpected_retraces
    refine .bind (propertyKey_retraces hg false hinner (by omega)) fun key => ?_
    refine (method_retraces hg _ _ ?_ (by omega)).mono (by omega)
    rw [apply_ite (Accessor.relocate p.relocate)]
    rfl

theorem objectLiteral_retraces (hmode : mode.Tight p) (hk : 0 < k → 3 * k + 1 ≤ d) :
    p.Retraces (.before (· = .punctuator "\x7b")) k (fun _ => mode) (k - 1) (objectLiteral g)
      (objectLiteral g') (Expr.relocate p.relocate) := by
  have hbound := hg.bound
  refine .of_advances (fun _ => hmode.known)
    (fun s htoken => objectLiteral_advances s hg.advancing (by rw [htoken]; rfl)) ?_
  intro setting s s' hstands htoken
  refine hstands.here_bind (hstands.follows_of_eq htoken ?_)
  refine .bind (advance_inner fun _ h => h ▸ rfl) fun _ => ?_
  refine .bind (commaList_retraces (by omega) (hmode.admits (by decide)) fun j hj =>
    objectMember_retraces hg (by omega)) fun found => ?_
  rcases found with ⟨members, comma⟩
  have hdone : p.Retraces mode (k - 1 - 1) (fun _ => mode) (k - 1)
      (do pure (.object members (← spanFrom s.current.span.start)))
      (do pure (.object (members.map (Member.relocate p.relocate))
        (← spanFrom (p.relocate s.current.span.start)))) (Expr.relocate p.relocate) :=
    .bind (spanFrom_retraces rfl (by omega)) fun span =>
      .pure (by simp [Expr.relocate]) (Nat.sub_le _ _)
  dsimp only
  rw [List.getLast?_map]
  rcases members.getLast? with _ | last
  · exact hdone
  · cases last with
    | spread value =>
        rcases comma with _ | comma
        · exact hdone
        · exact .bind (noteComma_retraces comma hstands.start_le hstands.lt_stop) fun _ => hdone
    | _ => exact hdone

/-! ## Templates and regular expressions -/

omit hg in
/-- Behind a part of its text a template ends, or goes on behind the next substitution. -/
theorem templateParts_succ (opening : Nat) (tagged : Bool) (rounds : Nat) (cursor : Cursor) :
    templateParts g opening tagged (rounds + 1) cursor =
      (match scanTemplate cursor.rest cursor.offset none with
      | none => throw opening
      | some chunk => do
        if chunk.badEscape.isSome && !tagged then throw (chunk.badEscape.getD opening)
        resume opening chunk.cursor
        templateRest g opening tagged rounds chunk.last) := by
  rw [templateParts]
  cases scanTemplate cursor.rest cursor.offset none with
  | none => rfl
  | some chunk =>
      obtain ⟨last, _ | bad, cursor⟩ := chunk
      · rfl
      · cases tagged <;> rfl

/-- Behind a part of its text a template is read again, as far as its other parts are. -/
theorem templateRest_retraces {opening opening' rounds rounds' : Nat} (tagged last : Bool)
    (hk : 0 < k → 3 * k + 4 ≤ d)
    (hparts : p.Retraces
      (.before fun token => token = .punctuator "\x60" ∨ token = .punctuator "\x7d") (k - 1)
      (fun _ => mode) (k - 1 - 1)
      (get >>= fun state => templateParts g opening tagged rounds
        ⟨state.current.rest, state.current.span.stop⟩)
      (get >>= fun state => templateParts g' opening' tagged rounds'
        ⟨state.current.rest, state.current.span.stop⟩)
      (List.map (Expr.relocate p.relocate))) :
    p.Retraces (if last = true then mode else .inner) k (fun _ => mode) k
      (templateRest g opening tagged rounds last) (templateRest g' opening' tagged rounds' last)
      (List.map (Expr.relocate p.relocate)) := by
  unfold templateRest
  by_cases hlast : last = true
  · rw [if_pos hlast, if_pos hlast, if_pos hlast]
    exact .pure rfl le_rfl
  rw [if_neg hlast, if_neg hlast, if_neg hlast]
  refine .bind (fullExpression_retraces hg (Mode.inner_tight p) (by omega)) fun part => ?_
  rw [bind_ite_not, bind_ite_not]
  refine .isPunctuator_ite False.elim ?_ unexpected_bind
  rw [← bind_assoc, ← bind_assoc]
  refine .bind (.of_before (fun _ => Or.inr) hparts) fun rest => ?_
  exact .pure rfl (by omega)

theorem templateParts_retraces {opening opening' : Nat} (tagged : Bool) (hmode : mode.Tight p)
    (rounds : Nat) :
    ∀ {rounds' k : Nat}, (0 < k → 3 * k + 1 ≤ d) → k < rounds' →
      p.Retraces (.before fun token => token = .punctuator "\x60" ∨ token = .punctuator "\x7d") k
        (fun _ => mode) (k - 1)
        (get >>= fun state => templateParts g opening tagged rounds
          ⟨state.current.rest, state.current.span.stop⟩)
        (get >>= fun state => templateParts g' opening' tagged rounds'
          ⟨state.current.rest, state.current.span.stop⟩)
        (List.map (Expr.relocate p.relocate)) := by
  induction rounds with
  | zero =>
      intro _ _ _ _
      exact .of_fails fun setting s _ _ => not_run_of_fails (unexpected_fails s)
  | succ rounds ih =>
      intro rounds' k hk hrounds
      obtain ⟨rounds', rfl⟩ := Nat.exists_eq_succ_of_ne_zero (Nat.ne_zero_of_lt hrounds)
      refine .of_advances (fun _ => hmode.known)
        (fun s hquote => triple_of fun holds hholds => ?_) ?_
      · have hadvancing := hg.advancing
        change _ ∨ _ at hquote
        mvcgen <;> grind -ring -linarith
      intro setting s s' hstands hquote
      refine .get_bind ?_
      have hpos := hstands.pos
      have hshares := hstands.shares (by rcases hquote with h | h <;> rw [h] <;> decide)
      rw [templateParts_succ, templateParts_succ]
      cases hscan : scanTemplate s.current.rest s.current.span.stop none with
      | none => exact fun _ _ hrun => nomatch hrun
      | some chunk =>
          dsimp only
          have hrest := templateRest_retraces hg tagged chunk.last
            (by omega : 0 < k - 1 → 3 * (k - 1) + 4 ≤ d)
            (ih (by omega) (by omega : k - 1 - 1 < rounds'))
          have hknown : ∀ token, (if chunk.last = true then mode else .inner).known token := by
            split
            · exact hmode.known
            · exact fun _ => trivial
          by_cases hbad : (chunk.badEscape.isSome && !tagged) = true
          · rw [if_pos hbad]
            exact fun _ _ hrun => nomatch hrun
          rw [if_neg hbad]
          have hspares : Spares s.current.rest chunk.cursor.rest := by
            obtain ⟨front, c, hother, hsplit⟩ := scanTemplate_spares _ _ _ hscan
            rw [hsplit]
            exact .of_append front hother
          -- the part ends behind the text, or it is read again as it was
          rcases hshares.rereads (scanTemplate_rereads _ _ _ hscan) hspares with
            hlater | ⟨next, hnext, hshares⟩
          · intro value t hrun
            obtain ⟨_, u, hfirst, hsecond⟩ := exists_of_bind hrun
            obtain ⟨-, rfl⟩ := Prod.mk.inj (Except.ok.inj hfirst)
            exact Or.inl (hrest.lost _ _ _ _ hstands.budget (lost_of_resume hlater hknown) hsecond)
          · obtain ⟨fault, hfault, hscan'⟩ := hnext none rfl
            rw [hscan']
            dsimp only
            rw [hfault, if_neg hbad]
            refine .bind_of_run hstands.budget (hshares.follows hstands.alike ?_ hknown _ _)
              fun _ _ _ => hrest
            split
            · exact hmode.wants
            · exact False.elim

theorem template_retraces (tagged : Bool) (hmode : mode.Tight p) (hk : 0 < k → 3 * k + 1 ≤ d) :
    p.Retraces (.before fun token => token = .punctuator "\x60" ∨ token = .punctuator "\x7d") k
      (fun _ => mode) (k - 1) (template g tagged) (template g' tagged)
      (List.map (Expr.relocate p.relocate)) := by
  have hbound := hg.bound
  have hroom := p.room
  refine .of_advances (fun _ => hmode.known)
    (fun s hquote => template_advances s hg.advancing tagged hquote) ?_
  intro setting s s' hstands hquote
  refine .get_bind (.bind_of_reads (f := p.setting) run_read run_read fun value t hrun => ?_)
  have hrounds : k < (p.setting setting).budget := by
    change k < p.newBudget
    omega
  exact (templateParts_retraces hg tagged hmode setting.budget hk hrounds).follows _ _ _
    hstands.budget (hstands.abreast hquote) value t hrun

omit hg in
theorem regularExpression_retraces (hmode : mode.Tight p) :
    p.Retraces (.before fun token => token = .punctuator "/" ∨ token = .punctuator "/=") k
      (fun _ => mode) (k - 1) regularExpression regularExpression (Expr.relocate p.relocate) := by
  refine .of_advances (fun _ => hmode.known)
    (fun s hslash => regularExpression_advances s hslash) ?_
  intro setting s s' hstands hslash
  refine .get_bind ?_
  dsimp only
  have hshares := hstands.shares_slash hslash
  have hstart : s'.current.span.start = p.relocate s.current.span.start := by rw [hstands.span]; rfl
  cases hscan : scanRegExp (s.current.start.drop 1) (s.current.span.start + 1) with
  | none => exact fun _ _ hrun => nomatch hrun
  | some found =>
      obtain ⟨valid, cursor⟩ := found
      dsimp only
      cases valid with
      | false =>
          intro value t hrun
          obtain ⟨-, rfl⟩ := Prod.mk.inj (Except.ok.inj hrun)
          exact Or.inl ⟨Or.inl (doomed_of_fault (by simp [State.mark])), hmode.known _⟩
      | true =>
          rcases hshares.rereads (scanRegExp_rereads hscan) (scanRegExp_spares hscan) with
            hlater | ⟨next, hscan', hshares⟩
          · intro value t hrun
            obtain ⟨-, rfl⟩ := Prod.mk.inj (Except.ok.inj hrun)
            exact Or.inl (lost_of_resume hlater hmode.known)
          · rw [hscan']
            refine .bind_of_run hstands.budget
              (hshares.follows hstands.alike hmode.wants hmode.known _ _)
              fun _ _ _ => .pure ?_ le_rfl
            rw [hstart, hshares.offset]
            rfl

end Grammar

end Passage

end Parser
end Script
end ScriptBundler
