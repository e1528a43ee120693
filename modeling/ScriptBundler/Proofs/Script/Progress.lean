import Mathlib
import ScriptBundler.Script.Parser.Module

/-!
# Progress of the parser

The parser changes its state in two ways: it moves to the token after text that it has read, and it
takes notes.  It never goes back, never reads past a malformed token or the end of the source, and
never forgets a fault that it has noted.  Here this is said of the steps that all of the grammar is
made of, as triples that the proofs about the parts of the grammar are put together from.

What is left of a triple is about marks, tokens and flags.  `grind` is told not to search for rings
and ordered fields: the search on `Bool` costs more than the proofs do.
-/

namespace ScriptBundler
namespace Script

open Relation Std.Do

set_option mvcgen.warning false

/-- Whether a token stands for text of the source and is not malformed. -/
@[grind =] def Token.isProper : Token → Bool
  | .invalid _ | .finish => false
  | _ => true

namespace Parser

/-- How far the parser has got, and whether it has noted a fault. -/
structure Mark where
  current : Lexeme
  previous : Span
  comments : List Comment
  faulty : Bool

/-- The mark of a state. -/
@[grind =] def State.mark (state : State) : Mark :=
  ⟨state.current, state.previous, state.comments, state.fault.isSome⟩

namespace Mark

/-- The cursors behind text that can be read at a mark: the current token, the template text or the
regular expression that it opens. -/
inductive Ends (mark : Mark) : Cursor → Prop where
  | token (hproper : mark.current.token.isProper = true) :
      mark.Ends ⟨mark.current.rest, mark.current.span.stop⟩
  | template {chunk : TemplateChunk}
      (hquote : mark.current.token = .punctuator "\x60" ∨ mark.current.token = .punctuator "\x7d")
      (hscan : scanTemplate mark.current.rest mark.current.span.stop none = some chunk) :
      mark.Ends chunk.cursor
  | regExp {valid : Bool} {cursor : Cursor}
      (hslash : mark.current.token = .punctuator "/" ∨ mark.current.token = .punctuator "/=")
      (hscan : scanRegExp (mark.current.start.drop 1) (mark.current.span.start + 1) =
        some (valid, cursor)) : mark.Ends cursor

/-- The mark at the token after a cursor. -/
def resumed (mark : Mark) (start : Nat) (cursor : Cursor) : Mark :=
  let next := nextLexeme cursor false
  { current := next, previous := ⟨start, cursor.offset⟩
    comments := next.comments.reverse ++ mark.comments
    faulty := mark.faulty || next.legacyComment.isSome }

/-- One step of the parser: it reads text, or notes a fault. -/
inductive Step : Mark → Mark → Prop where
  | move {mark : Mark} {cursor : Cursor} (start : Nat) (hends : mark.Ends cursor) :
      Step mark (mark.resumed start cursor)
  | complain (mark : Mark) : Step mark { mark with faulty := true }

/-- Whether steps lead from one mark to another one. -/
def Leads (mark after : Mark) : Prop :=
  ReflTransGen Step mark after

/-- Whether steps lead from one mark to another one, and some text is read on the way. -/
def Moves (mark after : Mark) : Prop :=
  ∃ (middle : Mark) (start : Nat) (cursor : Cursor), Leads mark middle ∧ middle.Ends cursor ∧
    Leads (middle.resumed start cursor) after

/-- Whether a mark is at the same place as another one, and knows of a fault if that does. -/
def Notes (mark after : Mark) : Prop :=
  after = mark ∨ after = { mark with faulty := true }

variable {mark middle after : Mark}

@[grind ←] theorem Leads.refl (mark : Mark) : Leads mark mark :=
  ReflTransGen.refl

@[grind →] theorem Leads.trans (hfirst : Leads mark middle) (hsecond : Leads middle after) :
    Leads mark after :=
  ReflTransGen.trans hfirst hsecond

@[grind ←] theorem Ends.of_template {chunk : TemplateChunk}
    (hquote : mark.current.token = .punctuator "\x60" ∨ mark.current.token = .punctuator "\x7d")
    (hscan : scanTemplate mark.current.rest mark.current.span.stop none = some chunk) :
    mark.Ends chunk.cursor :=
  .template hquote hscan

@[grind ←] theorem Ends.of_regExp {cursor : Cursor}
    (hslash : mark.current.token = .punctuator "/" ∨ mark.current.token = .punctuator "/=")
    (hscan : ∃ valid, scanRegExp (mark.current.start.drop 1) (mark.current.span.start + 1) =
      some (valid, cursor)) : mark.Ends cursor :=
  hscan.elim fun _ hscan => .regExp hslash hscan

theorem Moves.of_ends {cursor : Cursor} (start : Nat) (hends : mark.Ends cursor) :
    Moves mark (mark.resumed start cursor) :=
  ⟨mark, start, cursor, .refl mark, hends, .refl _⟩

@[grind →] theorem Moves.leads (hmoves : Moves mark after) : Leads mark after := by
  obtain ⟨middle, start, cursor, hfirst, hends, hlast⟩ := hmoves
  exact (hfirst.trans (.single (.move start hends))).trans hlast

@[grind →] theorem Moves.trans (hmoves : Moves mark middle) (hleads : Leads middle after) :
    Moves mark after := by
  obtain ⟨other, start, cursor, hfirst, hends, hlast⟩ := hmoves
  exact ⟨other, start, cursor, hfirst, hends, hlast.trans hleads⟩

@[grind →] theorem Leads.moves (hleads : Leads mark middle) (hmoves : Moves middle after) :
    Moves mark after := by
  obtain ⟨other, start, cursor, hfirst, hends, hlast⟩ := hmoves
  exact ⟨other, start, cursor, hleads.trans hfirst, hends, hlast⟩

/-- A fault that has been noted stays. -/
@[grind →] theorem Leads.faulty (hleads : Leads mark after) (hfaulty : after.faulty = false) :
    mark.faulty = false := by
  induction hleads with
  | refl => exact hfaulty
  | tail _ hstep ih =>
      refine ih ?_
      cases hstep with
      | move start hends => exact (Bool.or_eq_false_iff.mp hfaulty).1
      | complain => contradiction

@[grind ←] theorem Notes.refl (mark : Mark) : Notes mark mark :=
  Or.inl rfl

@[grind →] theorem Notes.leads (hnotes : Notes mark after) : Leads mark after := by
  rcases hnotes with rfl | rfl
  · exact .refl _
  · exact .single (.complain mark)

@[grind →] theorem Notes.trans (hfirst : Notes mark middle) (hsecond : Notes middle after) :
    Notes mark after := by
  rcases hfirst with rfl | rfl
  · exact hsecond
  · rcases hsecond with rfl | rfl <;> exact Or.inr rfl

@[grind →] theorem Notes.current (hnotes : Notes mark after) : after.current = mark.current := by
  rcases hnotes with rfl | rfl <;> rfl

end Mark

open Mark

variable {state after : State}

/-- What a triple without a word on faults says of a run. -/
theorem of_triple {α : Type} {step : Parser α} {holds : α → State → Prop}
    (htriple : ⦃fun _ found => ⌜found = state⌝⦄ step ⦃⇓? value _ found => ⌜holds value found⌝⦄)
    {setting : Setting} {value : α} (hrun : step setting state = .ok (value, after)) :
    holds value after := by
  have h : (wp⟦step setting state⟧
      (PostCond.mayThrow fun result => ⌜holds result.1 result.2⌝)).down :=
    htriple setting state rfl
  rw [hrun] at h
  exact h

/-- A triple holds if it holds for all that follows from what it says. -/
theorem triple_of {α : Type} {step : Parser α} {reaches : α → State → Prop}
    (htriple : ∀ holds : α → State → Prop,
      (∀ value found, reaches value found → holds value found) →
      ⦃fun _ found => ⌜found = state⌝⦄ step ⦃⇓? value _ found => ⌜holds value found⌝⦄) :
    ⦃fun _ found => ⌜found = state⌝⦄ step ⦃⇓? value _ found => ⌜reaches value found⌝⦄ :=
  htriple reaches fun _ _ h => h

/-- Whether a step of the parser does not go back from a state. -/
abbrev Proceeds {α : Type} (s : State) (step : Parser α) : Prop :=
  ⦃fun _ state => ⌜state = s⌝⦄ step ⦃⇓? _ _ state => ⌜Leads s.mark state.mark⌝⦄

/-- Whether a step of the parser reads something in a state. -/
abbrev Advances {α : Type} (s : State) (step : Parser α) : Prop :=
  ⦃fun _ state => ⌜state = s⌝⦄ step ⦃⇓? _ _ state => ⌜Moves s.mark state.mark⌝⦄

/-- Whether a step of the parser takes notes in a state, and does nothing else. -/
abbrev Remarks {α : Type} (s : State) (step : Parser α) : Prop :=
  ⦃fun _ state => ⌜state = s⌝⦄ step ⦃⇓? _ _ state => ⌜Notes s.mark state.mark⌝⦄

/-! ## Basic steps -/

section Basic

variable {α β : Type} (s : State)

@[spec] theorem resume_moves (start : Nat) (cursor : Cursor) (hends : s.mark.Ends cursor) :
    Advances s (resume start cursor) := by
  mvcgen [resume]
  subst_vars
  convert Moves.of_ends start hends using 1
  simp +zetaDelta [State.mark, Mark.resumed]

@[spec] theorem advance_moves (hproper : s.current.token.isProper = true) :
    Advances s advance := by
  mvcgen [advance]
  subst_vars
  exact .token hproper

@[spec] theorem token_reads :
    ⦃fun _ state => ⌜state = s⌝⦄ token
    ⦃⇓? value _ state => ⌜value = s.current.token ∧ state = s⌝⦄ := by
  mvcgen [token]
  grind -ring -linarith

@[spec] theorem here_reads :
    ⦃fun _ state => ⌜state = s⌝⦄ here
    ⦃⇓? value _ state => ⌜value = s.current.span.start ∧ state = s⌝⦄ := by
  mvcgen [here]
  grind -ring -linarith

@[spec] theorem lastEnd_reads :
    ⦃fun _ state => ⌜state = s⌝⦄ lastEnd
    ⦃⇓? value _ state => ⌜value = s.previous.stop ∧ state = s⌝⦄ := by
  mvcgen [lastEnd]
  grind -ring -linarith

@[spec] theorem spanFrom_reads (start : Nat) :
    ⦃fun _ state => ⌜state = s⌝⦄ spanFrom start
    ⦃⇓? value _ state => ⌜value = ⟨start, s.previous.stop⟩ ∧ state = s⌝⦄ := by
  mvcgen [spanFrom]
  grind -ring -linarith

@[spec] theorem peek_reads :
    ⦃fun _ state => ⌜state = s⌝⦄ peek ⦃⇓? _ _ state => ⌜state = s⌝⦄ := by
  mvcgen [peek]

@[spec] theorem afterNewline_reads :
    ⦃fun _ state => ⌜state = s⌝⦄ afterNewline
    ⦃⇓? value _ state => ⌜value = s.current.afterNewline ∧ state = s⌝⦄ := by
  mvcgen [afterNewline]
  grind -ring -linarith

@[spec] theorem isPunctuator_reads (text : String) :
    ⦃fun _ state => ⌜state = s⌝⦄ isPunctuator text
    ⦃⇓? value _ state => ⌜value = (s.current.token == .punctuator text) ∧ state = s⌝⦄ := by
  mvcgen [isPunctuator]
  grind -ring -linarith

@[spec] theorem isWord_reads (name : String) :
    ⦃fun _ state => ⌜state = s⌝⦄ isWord name
    ⦃⇓? value _ state => ⌜value = (s.current.token == .word name false) ∧ state = s⌝⦄ := by
  mvcgen [isWord]
  grind -ring -linarith

@[spec] theorem atEnd_reads :
    ⦃fun _ state => ⌜state = s⌝⦄ atEnd
    ⦃⇓? value _ state => ⌜value = (s.current.token == .finish) ∧ state = s⌝⦄ := by
  mvcgen [atEnd]
  grind -ring -linarith

@[spec] theorem throw_fails (offset : Nat) :
    ⦃fun _ state => ⌜state = s⌝⦄ (throw offset : Parser α) ⦃⇓? _ _ _ => ⌜False⌝⦄ := by
  intro _ _ _
  exact trivial

@[spec] theorem refuse_fails (offset : Nat) :
    ⦃fun _ state => ⌜state = s⌝⦄ (refuse offset : Parser α) ⦃⇓? _ _ _ => ⌜False⌝⦄ := by
  mvcgen [refuse, -Spec.throw_ReaderT, -Spec.throw_MonadExcept]

@[spec] theorem unexpected_fails :
    ⦃fun _ state => ⌜state = s⌝⦄ (unexpected : Parser α) ⦃⇓? _ _ _ => ⌜False⌝⦄ := by
  mvcgen [unexpected, -Spec.throw_ReaderT, -Spec.throw_MonadExcept]

/-- After it has been asked for, there is a token that can be read. -/
@[spec] theorem requireToken_reads :
    ⦃fun _ state => ⌜state = s⌝⦄ requireToken
    ⦃⇓? _ _ state => ⌜s.current.token.isProper = true ∧ state = s⌝⦄ := by
  mvcgen [requireToken, -Spec.throw_ReaderT, -Spec.throw_MonadExcept] <;> grind -ring -linarith

@[spec] theorem complain_notes (offset : Nat) :
    ⦃fun _ state => ⌜state = s⌝⦄ complain offset
    ⦃⇓? _ _ state => ⌜Notes s.mark state.mark ∧ state.fault.isSome = true⌝⦄ := by
  mvcgen [complain]
  subst_vars
  refine ⟨Or.inr ?_, ?_⟩ <;> simp +zetaDelta [State.mark]

@[spec] theorem eat_moves (text : String) :
    ⦃fun _ state => ⌜state = s⌝⦄ eat text
    ⦃⇓? value _ state =>
      ⌜(value = true → Moves s.mark state.mark) ∧ (value = false → state = s)⌝⦄ := by
  mvcgen [eat] <;> grind -ring -linarith

@[spec] theorem eatWord_moves (name : String) :
    ⦃fun _ state => ⌜state = s⌝⦄ eatWord name
    ⦃⇓? value _ state =>
      ⌜(value = true → Moves s.mark state.mark) ∧ (value = false → state = s)⌝⦄ := by
  mvcgen [eatWord] <;> grind -ring -linarith

@[spec] theorem expect_moves (text : String) :
    Advances s (expect text) := by
  mvcgen [expect] <;> grind -ring -linarith

@[spec] theorem expectWord_moves (name : String) :
    Advances s (expectWord name) := by
  mvcgen [expectWord] <;> grind -ring -linarith

@[spec] theorem atSemicolon_reads :
    ⦃fun _ state => ⌜state = s⌝⦄ atSemicolon ⦃⇓? _ _ state => ⌜state = s⌝⦄ := by
  mvcgen [atSemicolon] <;> grind -ring -linarith

@[spec] theorem eatSemicolon_leads :
    ⦃fun _ state => ⌜state = s⌝⦄ eatSemicolon
    ⦃⇓? value _ state => ⌜Leads s.mark state.mark ∧ (value = false → state = s)⌝⦄ := by
  mvcgen [eatSemicolon] <;> grind -ring -linarith

@[spec] theorem expectSemicolon_leads :
    Proceeds s expectSemicolon := by
  mvcgen [expectSemicolon] <;> grind -ring -linarith

@[spec] theorem discard_leads {step : Parser α} (hstep : Proceeds s step) :
    Proceeds s (discard step) := by
  have hdiscard : discard step = (do let _ ← step; pure PUnit.unit) := rfl
  rw [hdiscard]
  mvcgen [hstep]

/-- A step that takes notes for each element of a list takes notes. -/
@[spec] theorem forM_notes {items : List β} {body : β → Parser PUnit}
    (hbody : ∀ item s, Remarks s (body item)) :
    Remarks s (items.forM body) := by
  induction items generalizing s with
  | nil =>
      mvcgen [List.forM]
      grind -ring -linarith
  | cons first rest ih =>
      refine triple_of fun holds hholds => ?_
      mvcgen [List.forM, hbody, ih]
      grind -ring -linarith

/-- A round of a repeated step: the step is made unless the condition holds. -/
@[spec] def round (stop : Parser Bool) (step : Parser α) : Parser (Option α) := do
  if ← stop then pure none else some <$> step

theorem loop_succ (stop : Parser Bool) (step : Parser α) (rounds : Nat) :
    repeatUntil.loop stop step (rounds + 1) = (do
      match ← round stop step with
      | none => pure []
      | some first => return first :: (← repeatUntil.loop stop step rounds)) := by
  rw [repeatUntil.loop, round, bind_assoc]
  refine congrArg (stop >>= ·) (funext fun stopped => ?_)
  cases stopped <;> simp

/-- A repeated step does not go back if no round does. -/
theorem loop_leads {stop : Parser Bool} {step : Parser α}
    (hround : ∀ s, Proceeds s (round stop step)) (rounds : Nat) :
    Proceeds s (repeatUntil.loop stop step rounds) := by
  induction rounds generalizing s with
  | zero =>
      mvcgen [repeatUntil.loop]
      grind -ring -linarith
  | succ rounds ih =>
      rw [loop_succ]
      mvcgen [hround, ih, -round] <;> grind -ring -linarith

@[spec] theorem repeatUntil_leads {stop : Parser Bool} {step : Parser α}
    (hround : ∀ s, Proceeds s (round stop step)) :
    Proceeds s (repeatUntil stop step) := by
  have hloop := fun rounds s => loop_leads s hround rounds
  mvcgen [repeatUntil, hloop]

@[spec] theorem commaList_moves {close : String} {step : Parser α}
    (hstep : ∀ s, Proceeds s step) : Advances s (commaList close step) := by
  mvcgen [commaList, hstep] <;> grind -ring -linarith

@[spec] theorem settlePending_notes (start : Nat) :
    Remarks s (settlePending start) := by
  refine triple_of fun holds hholds => ?_
  mvcgen [settlePending] <;> grind -ring -linarith

end Basic

end Parser
end Script
end ScriptBundler
