import ScriptBundler.Proofs.Script.Passages
import ScriptBundler.Proofs.Script.Statements

/-!
# Reading a passage again

A part of the grammar retraces a passage if the second parser reads what the first one has read,
moved to its own place, as long as the first one does not get lost.  The rules here put such
statements together along the steps that the grammar is made of.

Parts that something else has to follow are read in the inner mode, where the first parser gets lost
when it reaches the end of the text: in that mode nothing is asked of what comes behind it.
-/

namespace ScriptBundler
namespace Script
namespace Parser

open Mark Std.Do

/-- Modes in which an expression may end the text: at the end of it the parsers are kept abreast
only if what follows stands apart, and given up only if that does not count, or if the text ends
with a semicolon, so that no expression ends it. -/
structure Mode.Tight (mode : Mode) (p : Passage) : Prop where
  apart : mode.keeps → p.Apart
  wants : mode.wants → mode.keeps ∨ p.text.getLast? = some ';'
  known : ∀ token, mode.known token

/-- Whether a token may end the text in a mode. -/
def Mode.Admits (mode : Mode) (p : Passage) (token : Token) : Prop :=
  (mode.wants → mode.keeps ∨ p.text.getLast? = some ';' ∧ token ≠ .punctuator ";") ∧
    ∀ token, mode.known token

theorem Mode.Tight.admits {mode : Mode} {p : Passage} (hmode : mode.Tight p) {token : Token}
    (htoken : token ≠ .punctuator ";") : mode.Admits p token :=
  ⟨fun hwants => (hmode.wants hwants).imp_right fun hends => ⟨hends, htoken⟩, hmode.known⟩

theorem Mode.Tight.next_ne {mode : Mode} {p : Passage} (hmode : mode.Tight p) {token : Token}
    (htoken : token.continuesStatement = true) (hkeeps : mode.keeps) : p.newNext.token ≠ token := by
  intro hnext
  have hapart := hmode.apart hkeeps
  rw [Transfer.Apart, hnext, htoken] at hapart
  contradiction

/-- What comes behind the text goes on with no expression. -/
theorem Mode.Tight.next_rests {mode : Mode} {p : Passage} (hmode : mode.Tight p)
    (hkeeps : mode.keeps) : p.newNext.token.opensAccess = false ∧ p.newNext.token.isBinary = false ∧
      p.newNext.token.isAssignment = false := by
  have hapart := hmode.apart hkeeps
  simp only [Transfer.Apart, Token.continuesStatement, Token.continuesExpression,
    Bool.or_eq_false_iff] at hapart
  exact ⟨hapart.1.1.1.1.1, hapart.1.1.1.1.2, hapart.1.1.2⟩

theorem Mode.inner_tight (p : Passage) : Mode.inner.Tight p :=
  ⟨False.elim, False.elim, fun _ => trivial⟩

theorem Mode.inner_admits (p : Passage) (token : Token) : Mode.inner.Admits p token :=
  ⟨False.elim, fun _ => trivial⟩

variable {α β γ δ : Type} {p : Passage} {pre mode : Mode} {setting : Setting} {s s' t t' : State}
  {left later between : Nat}

namespace Passage

/-- Whether the second parser follows the first one in a step from two states on. -/
def FollowsAt (p : Passage) (setting : Setting) (s s' : State) (post : α → Mode) (later : Nat)
    (step : Parser α) (step' : Parser β) (f : α → β) : Prop :=
  ∀ value t, step setting s = .ok (value, t) → p.Lost (post value) t ∨
    ∃ t', step' (p.setting setting) s' = .ok (f value, t') ∧ p.Abreast (post value) later t t'

/-- Whether the second parser follows the first one in a step, whenever they are abreast, and the
first one does not come back from where it is lost. -/
structure Retraces (p : Passage) (pre : Mode) (left : Nat) (post : α → Mode) (later : Nat)
    (step : Parser α) (step' : Parser β) (f : α → β) : Prop where
  lost : ∀ setting s value t, setting.budget = p.budget → p.Lost pre s →
    step setting s = .ok (value, t) → p.Lost (post value) t
  follows : ∀ setting s s', setting.budget = p.budget → p.Abreast pre left s s' →
    p.FollowsAt setting s s' post later step step' f

/-- Where both parsers are does not depend on their notes. -/
theorem place_congr (hplace : p.Within left s s' ∨ mode.keeps ∧ p.AtEnd s s')
    (hcurrent : t.current = s.current) (hprevious : t.previous = s.previous)
    (hnewCurrent : t'.current = s'.current) (hnewPrevious : t'.previous = s'.previous) :
    p.Within left t t' ∨ mode.keeps ∧ p.AtEnd t t' := by
  obtain ⟨current, previous⟩ := s
  obtain ⟨current', previous'⟩ := s'
  obtain rfl := hcurrent
  obtain rfl := hprevious
  obtain rfl := hnewCurrent
  obtain rfl := hnewPrevious
  refine hplace.imp ?_ (And.imp_right fun hend => { hend with })
  rintro ⟨front, word, back, hmeets, hlength⟩
  exact ⟨front, word, back, { hmeets with }, hlength⟩

/-- Whether both parsers stand at a token of the text. -/
structure Stands (p : Passage) (setting : Setting) (left : Nat) (s s' : State) : Prop where
  budget : setting.budget = p.budget
  alike : p.Alike s s'
  within : p.Within left s s'

theorem within_mono (hle : left ≤ later) (hwithin : p.Within left s s') : p.Within later s s' := by
  obtain ⟨front, word, back, hmeets, hlength⟩ := hwithin
  exact ⟨front, word, back, hmeets, hlength.trans hle⟩

theorem within_pos (hwithin : p.Within left s s') : 0 < left := by
  obtain ⟨front, word, back, hmeets, hlength⟩ := hwithin
  have := List.length_pos_iff.mpr hmeets.nonempty
  rw [List.length_append] at hlength
  omega

theorem abreast_mono (hle : left ≤ later) (habreast : p.Abreast mode left s s') :
    p.Abreast mode later s s' :=
  ⟨habreast.alike, habreast.place.imp_left (within_mono hle), habreast.known⟩

theorem lost_inner (hlost : p.Lost mode s) : p.Lost .inner s :=
  ⟨hlost.place.imp_right fun h => ⟨h.1, id⟩, trivial⟩

/-- A parser that notes a fault is lost. -/
theorem lost_of_complain {place : Nat} (hknown : mode.known s.current.token) :
    p.Lost mode { s with fault := s.fault.or (some place) } :=
  ⟨Or.inl (doomed_of_fault (by simp [State.mark])), hknown⟩

theorem lost_of_atEnd (hend : p.AtEnd s s') (hwants : ¬mode.wants)
    (hknown : mode.known s.current.token) : p.Lost mode s :=
  ⟨Or.inr ⟨over_of_atEnd hend, hwants⟩, hknown⟩

namespace Stands

variable (hstands : p.Stands setting left s s')

include hstands

theorem pos : 0 < left :=
  within_pos hstands.within

theorem proper : s.current.token.isProper = true := by
  obtain ⟨front, word, back, hmeets, -⟩ := hstands.within
  exact hmeets.proper

theorem token : s'.current.token = s.current.token := by
  obtain ⟨front, word, back, hmeets, -⟩ := hstands.within
  exact hmeets.token

theorem span : s'.current.span = s.current.span.relocate p.relocate := by
  obtain ⟨front, word, back, hmeets, -⟩ := hstands.within
  rw [hmeets.span, hmeets.newSpan, Span.relocate, Nat.add_assoc p.start, Nat.add_assoc p.newStart,
    relocate_add, relocate_add]

theorem start_le : p.start ≤ s.current.span.start := by
  obtain ⟨front, word, back, hmeets, -⟩ := hstands.within
  rw [hmeets.span]
  exact Nat.le_add_right _ _

theorem lt_stop : s.current.span.start < p.stop := by
  obtain ⟨front, word, back, hmeets, -⟩ := hstands.within
  obtain ⟨c, inner, rfl⟩ := List.exists_cons_of_ne_nil hmeets.nonempty
  have := Text.byteLength_pos c inner
  rw [hmeets.span, Transfer.stop, hmeets.text, Text.byteLength_append, Text.byteLength_append]
  dsimp only
  omega

theorem behind : s.previous.stop ≤ s.current.span.start := by
  obtain ⟨front, word, back, hmeets, -⟩ := hstands.within
  exact hmeets.behind

theorem start_le_stop : p.start ≤ s.current.span.stop := by
  obtain ⟨front, word, back, hmeets, -⟩ := hstands.within
  rw [hmeets.span]
  exact (Nat.le_add_right _ _).trans (Nat.le_add_right _ _)

theorem span_length : s'.current.span.stop - s'.current.span.start =
    s.current.span.stop - s.current.span.start := by
  obtain ⟨front, word, back, hmeets, -⟩ := hstands.within
  rw [hmeets.span, hmeets.newSpan]
  dsimp only
  omega

/-- Behind its first token both parsers know the same of what they have read of the text. -/
theorem inner (hleft : left = 0 ∨ left < p.text.length) :
    s'.current.afterNewline = s.current.afterNewline ∧ p.start < s.previous.stop ∧
      s'.previous.stop = p.relocate s.previous.stop := by
  have hpos := hstands.pos
  obtain ⟨front, word, back, hmeets, hlength⟩ := hstands.within
  refine hmeets.inner ?_
  rintro rfl
  rw [hmeets.text, List.nil_append] at hleft
  omega

theorem abreast (hknown : mode.known s.current.token) : p.Abreast mode left s s' :=
  ⟨hstands.alike, Or.inl hstands.within, hknown⟩

/-- Behind the current token the first parser is lost, or the second one has followed it. -/
theorem lands :
    p.Doomed s.advanced.mark ∨ p.Alike s.advanced s'.advanced ∧
      (p.Within (left - 1) s.advanced s'.advanced ∨ p.AtEnd s.advanced s'.advanced ∧
        (p.text.getLast? = some ';' → s.current.token = .punctuator ";")) := by
  obtain ⟨front, word, back, hmeets, hlength⟩ := hstands.within
  have htext : p.text = (front ++ word) ++ back := by rw [hmeets.text, List.append_assoc]
  have hfront : front ++ word ≠ [] := by simp [hmeets.nonempty]
  have hplaces : s.advanced = s.resumed s.current.span.start
        ⟨back ++ p.tail, p.start + Text.byteLength (front ++ word)⟩ ∧
      s'.advanced = s'.resumed s'.current.span.start
        ⟨back ++ p.newTail, p.newStart + Text.byteLength (front ++ word)⟩ := by
    constructor
    · rw [Text.byteLength_append, ← hmeets.rest, ← Nat.add_assoc]
      simp only [State.advanced, State.resumed, hmeets.span]
    · rw [Text.byteLength_append, ← hmeets.newRest, ← Nat.add_assoc]
      simp only [State.advanced, State.resumed, hmeets.newSpan]
  rw [hplaces.1, hplaces.2]
  refine (Passage.lands htext hfront hstands.alike _ _).imp_right (And.imp_right ?_)
  rintro (hwithin | ⟨rfl, hend⟩)
  · refine Or.inl (within_mono ?_ hwithin)
    have := List.length_pos_iff.mpr hmeets.nonempty
    rw [List.length_append] at hlength
    omega
  · refine Or.inr ⟨hend, fun hlast => ?_⟩
    by_contra hother
    refine hmeets.ending hother ?_
    rw [← hlast, htext, List.append_nil, List.getLast?_append_of_ne_nil _ hmeets.nonempty]

end Stands

/-! ## Putting steps together -/

section Rules

variable {mid : α → Mode} {post : β → Mode} {step : Parser α} {step' : Parser γ} {f : α → γ}
  {next : α → Parser β} {next' : γ → Parser δ} {g : β → δ}

theorem FollowsAt.bind_of_run (hbudget : setting.budget = p.budget)
    (hstep : p.FollowsAt setting s s' mid between step step' f)
    (hnext : ∀ value t, step setting s = .ok (value, t) →
      p.Retraces (mid value) between post later (next value) (next' (f value)) g) :
    p.FollowsAt setting s s' post later (step >>= next) (step' >>= next') g := by
  intro result u hrun
  obtain ⟨value, t, hfirst, hsecond⟩ := exists_of_bind hrun
  rcases hstep value t hfirst with hlost | ⟨t', hfirst', habreast⟩
  · exact Or.inl ((hnext value t hfirst).lost _ _ _ _ hbudget hlost hsecond)
  · rw [run_bind hfirst']
    exact (hnext value t hfirst).follows _ _ _ hbudget habreast result u hsecond

/-- A step that only reads off its state is followed by one that reads off the same. -/
theorem FollowsAt.bind_of_reads {value : α} (hstep : step setting s = .ok (value, s))
    (hstep' : step' (p.setting setting) s' = .ok (f value, s'))
    (hnext : p.FollowsAt setting s s' post later (next value) (next' (f value)) g) :
    p.FollowsAt setting s s' post later (step >>= next) (step' >>= next') g := by
  intro result u hrun
  rw [run_bind hstep] at hrun
  rw [run_bind hstep']
  exact hnext result u hrun

/-- Where both parsers stand at a token the second one follows what retraces the text from there. -/
theorem Stands.follows (hstands : p.Stands setting left s s')
    (hstep : p.Retraces .inner left mid later step step' f) :
    p.FollowsAt setting s s' mid later step step' f :=
  hstep.follows setting s s' hstands.budget (hstands.abreast trivial)

theorem Stands.follows_of_eq (hstands : p.Stands setting left s s') {found : Token}
    (htoken : s.current.token = found)
    (hstep : p.Retraces (.before (· = found)) left mid later step step' f) :
    p.FollowsAt setting s s' mid later step step' f :=
  hstep.follows setting s s' hstands.budget (hstands.abreast htoken)

theorem Retraces.bind (hstep : p.Retraces pre left mid between step step' f)
    (hnext : ∀ value, p.Retraces (mid value) between post later (next value) (next' (f value)) g) :
    p.Retraces pre left post later (step >>= next) (step' >>= next') g where
  lost := by
    intro setting s result u hbudget hlost hrun
    obtain ⟨value, t, hfirst, hsecond⟩ := exists_of_bind hrun
    exact (hnext value).lost _ _ _ _ hbudget (hstep.lost _ _ _ _ hbudget hlost hfirst) hsecond
  follows := fun setting s s' hbudget habreast =>
    (hstep.follows setting s s' hbudget habreast).bind_of_run hbudget fun value _ _ => hnext value

theorem Retraces.pure_of {mode : α → Mode} {value : α} {value' : γ} (hvalue : value' = f value)
    (hle : left ≤ later) :
    p.Retraces (mode value) left mode later (pure value) (pure value') f where
  lost := by
    intro _ s result u _ hlost hrun
    obtain ⟨rfl, rfl⟩ := Prod.mk.inj (Except.ok.inj hrun)
    exact hlost
  follows := by
    intro setting s s' _ habreast result u hrun
    obtain ⟨rfl, rfl⟩ := Prod.mk.inj (Except.ok.inj hrun)
    exact Or.inr ⟨s', by rw [hvalue]; rfl, abreast_mono hle habreast⟩

theorem Retraces.pure {mode : Mode} {value : α} {value' : γ} (hvalue : value' = f value)
    (hle : left ≤ later) :
    p.Retraces mode left (fun _ => mode) later (pure value) (pure value') f :=
  @Retraces.pure_of _ _ _ _ _ _ (fun _ => mode) _ _ hvalue hle

/-- A step that never ends. -/
theorem Retraces.of_fails (hfails : ∀ setting s value t, step setting s ≠ .ok (value, t)) :
    p.Retraces pre left mid later step step' f where
  lost := fun setting s value t _ _ hrun => (hfails setting s value t hrun).elim
  follows := fun setting s _ _ _ value t hrun => (hfails setting s value t hrun).elim

/-- What has to be followed by something else may be read in any mode. -/
theorem Retraces.of_before {known : Token → Prop} (hknown : ∀ token, pre.known token → known token)
    (hstep : p.Retraces (.before known) left mid later step step' f) :
    p.Retraces pre left mid later step step' f where
  lost := fun setting s value t hbudget hlost hrun =>
    hstep.lost setting s value t hbudget
      ⟨hlost.place.imp_right fun h => ⟨h.1, id⟩, hknown _ hlost.known⟩ hrun
  follows := by
    intro setting s s' hbudget habreast value t hrun
    have htoken := hknown _ habreast.known
    rcases habreast.place with hwithin | hend
    · exact hstep.follows setting s s' hbudget ⟨habreast.alike, Or.inl hwithin, htoken⟩ value t hrun
    · exact Or.inl (hstep.lost setting s value t hbudget (lost_of_atEnd hend.2 id htoken) hrun)

theorem Retraces.of_inner (hstep : p.Retraces .inner left mid later step step' f) :
    p.Retraces pre left mid later step step' f :=
  hstep.of_before fun _ _ => trivial

/-- A step that reads something retraces the text if it does so at every token. -/
theorem Retraces.of_advances (hknown : ∀ value token, (mid value).known token)
    (hmoves : ∀ s, pre.known s.current.token → Advances s step)
    (hstands : ∀ setting s s', p.Stands setting left s s' → pre.known s.current.token →
      p.FollowsAt setting s s' mid later step step' f) :
    p.Retraces pre left mid later step step' f where
  lost := fun setting s value t _ hlost hrun =>
    lost_moves hlost (of_triple (hmoves s hlost.known) hrun) (hknown value _)
  follows := by
    intro setting s s' hbudget habreast value t hrun
    rcases habreast.place with hwithin | ⟨-, hend⟩
    · exact hstands setting s s' ⟨hbudget, habreast.alike, hwithin⟩ habreast.known value t hrun
    · exact Or.inl ⟨Or.inl (over_moves (over_of_atEnd hend)
        (of_triple (hmoves s habreast.known) hrun)), hknown value _⟩

/-- Where nothing is left of the text, nothing is read of it. -/
theorem Retraces.zero (hknown : ∀ value token, (mid value).known token)
    (hmoves : ∀ s, Advances s step) : p.Retraces pre 0 mid later step step' f :=
  .of_advances hknown (fun s _ => hmoves s) fun _ _ _ hstands _ =>
    absurd hstands.pos (Nat.lt_irrefl 0)

/-- A step that may end with the text retraces it, if it reads something behind the text, or gives
what the second parser gives, too. -/
theorem Retraces.of_tail {mode : Mode} (value : State → α) (value' : State → γ)
    (hknown : ∀ token, mode.known token)
    (hmoves : ∀ s, ⦃fun _ state => ⌜state = s⌝⦄ step
      ⦃⇓? result _ state => ⌜Moves s.mark state.mark ∨ result = value s ∧ state = s⌝⦄)
    (hstands : ∀ setting s s', p.Stands setting left s s' →
      p.FollowsAt setting s s' (fun _ => mode) later step step' f)
    (hstays : mode.keeps → ∀ setting s, s.current = p.newNext →
      step' setting s = .ok (value' s, s))
    (hvalue : ∀ s s', p.AtEnd s s' → value' s' = f (value s)) :
    p.Retraces mode left (fun _ => mode) later step step' f where
  lost := by
    intro _ s _ t _ hlost hrun
    rcases of_triple (hmoves s) hrun with hread | ⟨-, rfl⟩
    · exact lost_moves hlost hread (hknown _)
    · exact hlost
  follows := by
    intro setting s s' hbudget habreast result t hrun
    rcases habreast.place with hwithin | ⟨hkeeps, hend⟩
    · exact hstands setting s s' ⟨hbudget, habreast.alike, hwithin⟩ result t hrun
    · rcases of_triple (hmoves s) hrun with hread | ⟨rfl, rfl⟩
      · exact Or.inl ⟨Or.inl (over_moves (over_of_atEnd hend) hread), hknown _⟩
      · exact Or.inr ⟨s', by rw [hstays hkeeps _ s' hend.newCurrent, hvalue t s' hend],
          habreast.alike, Or.inr ⟨hkeeps, hend⟩, habreast.known⟩

/-- What may end with the text has to be followed by something else where it reads on. -/
theorem Retraces.of_moves {known : Token → Prop} (hmode : ∀ token, pre.known token)
    (hpost : ∀ value token, (mid value).known token)
    (hmoves : ∀ s, known s.current.token → Advances s step)
    (hstep : p.Retraces pre left mid later step step' f) :
    p.Retraces (.before known) left mid later step step' f :=
  .of_advances hpost hmoves fun setting s s' hstands _ =>
    hstep.follows setting s s' hstands.budget (hstands.abreast (hmode _))

/-- A step behind which the first parser has noted a fault. -/
theorem Retraces.of_faulty (hknown : ∀ value token, (mid value).known token)
    (hfaulty : ∀ setting s value t, step setting s = .ok (value, t) → t.mark.faulty = true) :
    p.Retraces pre left mid later step step' f where
  lost := fun setting s value t _ _ hrun =>
    ⟨Or.inl (doomed_of_fault (hfaulty setting s value t hrun)), hknown value _⟩
  follows := fun setting s _ _ _ value t hrun =>
    Or.inl ⟨Or.inl (doomed_of_fault (hfaulty setting s value t hrun)), hknown value _⟩

/-- A step that takes notes and does nothing else. -/
theorem Retraces.of_remarks (hremarks : ∀ s, Remarks s step)
    (hfollows : ∀ setting s s', setting.budget = p.budget → p.Abreast pre left s s' →
      p.FollowsAt setting s s' (fun _ => pre) left step step' f) :
    p.Retraces pre left (fun _ => pre) left step step' f where
  lost := by
    intro setting s value t _ hlost hrun
    have hnotes : Notes s.mark t.mark := of_triple (hremarks s) hrun
    have hcurrent : t.current = s.current := hnotes.current
    exact lost_leads hlost id hnotes.leads (by rw [hcurrent]; exact hlost.known)
  follows := hfollows

theorem Retraces.mono (hstep : p.Retraces pre left mid between step step' f)
    (hle : between ≤ later) : p.Retraces pre left mid later step step' f where
  lost := hstep.lost
  follows := by
    intro setting s s' hbudget habreast value t hrun
    refine (hstep.follows setting s s' hbudget habreast value t hrun).imp_right ?_
    rintro ⟨t', hrun', hafter⟩
    exact ⟨t', hrun', abreast_mono hle hafter⟩

/-- The end of the text may be promised less of. -/
theorem Retraces.relax {other : α → Mode} (hstep : p.Retraces pre left mid later step step' f)
    (hwants : ∀ value, (other value).wants →
      (mid value).wants ∧ ((mid value).keeps → (other value).keeps))
    (hknown : ∀ value token, (mid value).known token → (other value).known token) :
    p.Retraces pre left other later step step' f where
  lost := by
    intro setting s value t hbudget hlost hrun
    obtain ⟨hplace, htoken⟩ := hstep.lost setting s value t hbudget hlost hrun
    exact ⟨hplace.imp_right fun h => ⟨h.1, fun hother => h.2 (hwants value hother).1⟩,
      hknown value _ htoken⟩
  follows := by
    intro setting s s' hbudget habreast value t hrun
    rcases hstep.follows setting s s' hbudget habreast value t hrun with hlost | ⟨t', hrun', hafter⟩
    · exact Or.inl ⟨hlost.place.imp_right fun h => ⟨h.1, fun hother => h.2 (hwants value hother).1⟩,
        hknown value _ hlost.known⟩
    have htoken := hknown value _ hafter.known
    rcases hafter.place with hwithin | ⟨hkeeps, hend⟩
    · exact Or.inr ⟨t', hrun', hafter.alike, Or.inl hwithin, htoken⟩
    · by_cases hother : (other value).wants
      · exact Or.inr
          ⟨t', hrun', hafter.alike, Or.inr ⟨(hwants value hother).2 hkeeps, hend⟩, htoken⟩
      · exact Or.inl (lost_of_atEnd hend hother htoken)

end Rules

/-- A choice that both parsers make alike. -/
theorem Retraces.ite {mid : α → Mode} {yes no : Parser α} {yes' no' : Parser γ} {f : α → γ}
    {chosen : Prop} [Decidable chosen]
    (hyes : chosen → p.Retraces pre left mid later yes yes' f)
    (hno : ¬chosen → p.Retraces pre left mid later no no' f) :
    p.Retraces pre left mid later (if chosen then yes else no)
      (if chosen then yes' else no') f := by
  by_cases h : chosen
  · rw [if_pos h, if_pos h]
    exact hyes h
  · rw [if_neg h, if_neg h]
    exact hno h

theorem Stands.pure (hstands : p.Stands setting left s s') {mode : Mode}
    (hknown : mode.known s.current.token) {value : α} {value' : γ} (hvalue : value' = f value)
    (hle : left ≤ later) :
    p.FollowsAt setting s s' (fun _ => mode) later (Pure.pure value) (Pure.pure value') f :=
  (Retraces.pure hvalue hle).follows _ _ _ hstands.budget (hstands.abreast hknown)

/-! ## Settings and notes -/

section Notes

variable {post : α → Mode} {step : Parser α} {step' : Parser γ} {f : α → γ}

/-- A part that is read in another setting. -/
theorem Retraces.withReader {change change' : Setting → Setting}
    (hstep : p.Retraces pre left post later step step' f)
    (hbudget : ∀ setting, (change setting).budget = setting.budget)
    (hchange : ∀ setting, p.setting (change setting) = change' (p.setting setting)) :
    p.Retraces pre left post later (withReader change step) (withReader change' step') f where
  lost := fun setting s value t hsame hlost hrun =>
    hstep.lost (change setting) s value t ((hbudget setting).trans hsame) hlost hrun
  follows := by
    intro setting s s' hsame habreast value t hrun
    refine (hstep.follows (change setting) s s' ((hbudget setting).trans hsame) habreast value t
      hrun).imp_right ?_
    rw [hchange]
    exact id

theorem Retraces.discard (hstep : p.Retraces pre left (fun _ => mode) later step step' f) :
    p.Retraces pre left (fun _ => mode) later (discard step) (discard step') id := by
  change p.Retraces pre left _ later (step >>= fun _ => Pure.pure PUnit.unit)
    (step' >>= fun _ => Pure.pure PUnit.unit) id
  exact .bind hstep fun _ => .pure rfl le_rfl

theorem Retraces.withIn (hstep : p.Retraces pre left post later step step' f) :
    p.Retraces pre left post later (withIn step) (withIn step') f :=
  hstep.withReader (fun _ => rfl) fun _ => rfl

theorem Retraces.read_bind {next : Setting → Parser β} {next' : Setting → Parser δ}
    {post : β → Mode}
    {g : β → δ}
    (hnext : ∀ setting, setting.budget = p.budget →
      p.Retraces pre left post later (next setting) (next' (p.setting setting)) g) :
    p.Retraces pre left post later (read >>= next) (read >>= next') g where
  lost := by
    intro setting s value t hbudget hlost hrun
    rw [run_bind run_read] at hrun
    exact (hnext setting hbudget).lost setting s value t hbudget hlost hrun
  follows := by
    intro setting s s' hbudget habreast
    exact ((hnext setting hbudget).follows setting s s' hbudget habreast).bind_of_reads
      (f := p.setting) run_read run_read

/-- A step that takes other notes than faults. -/
theorem Retraces.modify {change change' : State → State}
    (hmark : ∀ s, (change s).mark = s.mark)
    (hplace : ∀ s, (change' s).current = s.current ∧ (change' s).previous = s.previous)
    (halike : ∀ s s', p.Alike s s' → p.Alike (change s) (change' s')) :
    p.Retraces pre left (fun _ => pre) left (modify change) (modify change') (fun _ => ()) where
  lost := by
    intro setting s value t _ hlost hrun
    obtain ⟨-, rfl⟩ := Prod.mk.inj (Except.ok.inj hrun)
    have hcurrent : (change s).current = s.current := congrArg Mark.current (hmark s)
    exact ⟨by rw [hmark]; exact hlost.place, by rw [hcurrent]; exact hlost.known⟩
  follows := by
    intro setting s s' _ habreast value t hrun
    obtain ⟨-, rfl⟩ := Prod.mk.inj (Except.ok.inj hrun)
    have hcurrent : (change s).current = s.current := congrArg Mark.current (hmark s)
    have hprevious : (change s).previous = s.previous := congrArg Mark.previous (hmark s)
    have hplace' := hplace s'
    exact Or.inr ⟨change' s', rfl, halike s s' habreast.alike,
      place_congr habreast.place hcurrent hprevious hplace'.1 hplace'.2,
      by rw [hcurrent]; exact habreast.known⟩

end Notes

/-! ## Reading tokens -/

section Tokens

variable {post : α → Mode} {next : β → Parser α} {next' : β → Parser γ} {f : α → γ}

/-- A step that only reads off its state, where both parsers stand at a token. -/
theorem Retraces.of_reads {mid : β → Mode} {step : Parser β} {step' : Parser δ} {f : β → δ}
    (hkeeps : ¬pre.keeps) (hwants : ∀ value, (mid value).wants → pre.wants)
    (hreads : ∀ setting s value t, step setting s = .ok (value, t) → t = s ∧
      (pre.known s.current.token → (mid value).known s.current.token))
    (hsame : ∀ setting s s' value, p.Stands setting left s s' → step setting s = .ok (value, s) →
      step' (p.setting setting) s' = .ok (f value, s')) :
    p.Retraces pre left mid left step step' f where
  lost := by
    intro setting s value t _ hlost hrun
    obtain ⟨rfl, hknown⟩ := hreads setting s value t hrun
    exact lost_leads hlost (hwants value) (.refl _) (hknown hlost.known)
  follows := by
    intro setting s s' hbudget habreast value t hrun
    obtain ⟨rfl, hknown⟩ := hreads setting s value t hrun
    have hwithin := habreast.place.resolve_right fun h => hkeeps h.1
    exact Or.inr ⟨s', hsame setting t s' value ⟨hbudget, habreast.alike, hwithin⟩ hrun,
      habreast.alike, Or.inl hwithin, hknown habreast.known⟩

/-! ### Where both parsers stand at a token -/

theorem Stands.token_bind (hstands : p.Stands setting left s s') {next : Token → Parser α}
    {next' : Token → Parser γ}
    (hnext : p.FollowsAt setting s s' post later (next s.current.token)
      (next' s.current.token) f) :
    p.FollowsAt setting s s' post later (Parser.token >>= next) (Parser.token >>= next') f :=
  .bind_of_reads (f := id) run_token
    (congrArg (fun found => Except.ok (found, s')) hstands.token) hnext

theorem Stands.here_bind (hstands : p.Stands setting left s s') {next : Nat → Parser α}
    {next' : Nat → Parser γ}
    (hnext : p.FollowsAt setting s s' post later (next s.current.span.start)
      (next' (p.relocate s.current.span.start)) f) :
    p.FollowsAt setting s s' post later (here >>= next) (here >>= next') f :=
  .bind_of_reads (f := p.relocate) run_here
    (congrArg (fun span => Except.ok (Span.start span, s')) hstands.span) hnext

theorem Stands.isPunctuator_bind (hstands : p.Stands setting left s s') (text : String)
    {next : Bool → Parser α} {next' : Bool → Parser γ}
    (hnext : p.FollowsAt setting s s' post later (next (s.current.token == .punctuator text))
      (next' (s.current.token == .punctuator text)) f) :
    p.FollowsAt setting s s' post later (isPunctuator text >>= next)
      (isPunctuator text >>= next') f :=
  .bind_of_reads (f := id) (run_isPunctuator text)
    (congrArg (fun found : Token => Except.ok (found == .punctuator text, s')) hstands.token) hnext

theorem Stands.isWord_bind (hstands : p.Stands setting left s s') (name : String)
    {next : Bool → Parser α} {next' : Bool → Parser γ}
    (hnext : p.FollowsAt setting s s' post later (next (s.current.token == .word name false))
      (next' (s.current.token == .word name false)) f) :
    p.FollowsAt setting s s' post later (isWord name >>= next) (isWord name >>= next') f :=
  .bind_of_reads (f := id) (run_isWord name)
    (congrArg (fun found : Token => Except.ok (found == .word name false, s')) hstands.token) hnext

theorem Stands.afterNewline_bind (hstands : p.Stands setting left s s')
    (hleft : left = 0 ∨ left < p.text.length) {next : Bool → Parser α} {next' : Bool → Parser γ}
    (hnext : p.FollowsAt setting s s' post later (next s.current.afterNewline)
      (next' s.current.afterNewline) f) :
    p.FollowsAt setting s s' post later (afterNewline >>= next) (afterNewline >>= next') f :=
  .bind_of_reads (f := id) run_afterNewline
    (congrArg (fun newline => Except.ok (newline, s')) (hstands.inner hleft).1) hnext

theorem Stands.requireToken_bind (hstands : p.Stands setting left s s') {next : Unit → Parser α}
    {next' : Unit → Parser γ} (hnext : p.FollowsAt setting s s' post later (next ()) (next' ()) f) :
    p.FollowsAt setting s s' post later (requireToken >>= next) (requireToken >>= next') f :=
  .bind_of_reads (f := id) (run_requireToken hstands.proper)
    (run_requireToken (hstands.token ▸ hstands.proper)) hnext

theorem FollowsAt.get_bind {next : State → Parser α} {next' : State → Parser γ}
    (hnext : p.FollowsAt setting s s' post later (next s) (next' s') f) :
    p.FollowsAt setting s s' post later (get >>= next) (get >>= next') f :=
  .bind_of_reads (f := fun _ => s') rfl rfl hnext

theorem token_retraces (hkeeps : ¬pre.keeps) :
    p.Retraces pre left (fun found => ⟨False, pre.wants, (· = found)⟩) left token token id :=
  .of_reads hkeeps (fun _ => id)
    (fun _ _ _ _ hrun => by
      obtain ⟨rfl, rfl⟩ := Prod.mk.inj (Except.ok.inj hrun)
      exact ⟨rfl, fun _ => rfl⟩)
    fun _ s s' _ hstands hrun => by
      obtain ⟨rfl, -⟩ := Prod.mk.inj (Except.ok.inj hrun)
      exact congrArg (fun found => Except.ok (found, s')) hstands.token

theorem here_retraces (hkeeps : ¬pre.keeps) :
    p.Retraces pre left (fun _ => pre) left here here p.relocate :=
  .of_reads hkeeps (fun _ => id)
    (fun _ _ _ _ hrun => by
      obtain ⟨rfl, rfl⟩ := Prod.mk.inj (Except.ok.inj hrun)
      exact ⟨rfl, id⟩)
    fun _ s s' _ hstands hrun => by
      obtain ⟨rfl, -⟩ := Prod.mk.inj (Except.ok.inj hrun)
      exact congrArg (fun span => Except.ok (Span.start span, s')) hstands.span

theorem span_retraces (hkeeps : ¬pre.keeps) :
    p.Retraces pre left (fun _ => pre) left (do pure (← get).current.span)
      (do pure (← get).current.span) (Span.relocate p.relocate) :=
  .of_reads hkeeps (fun _ => id)
    (fun _ _ _ _ hrun => by
      obtain ⟨rfl, rfl⟩ := Prod.mk.inj (Except.ok.inj hrun)
      exact ⟨rfl, id⟩)
    fun _ s s' _ hstands hrun => by
      obtain ⟨rfl, -⟩ := Prod.mk.inj (Except.ok.inj hrun)
      exact congrArg (fun span => Except.ok (span, s')) hstands.span

theorem afterNewline_retraces (hkeeps : ¬pre.keeps) (hleft : left = 0 ∨ left < p.text.length) :
    p.Retraces pre left (fun _ => pre) left afterNewline afterNewline id :=
  .of_reads hkeeps (fun _ => id)
    (fun _ _ _ _ hrun => by
      obtain ⟨rfl, rfl⟩ := Prod.mk.inj (Except.ok.inj hrun)
      exact ⟨rfl, id⟩)
    fun _ s s' _ hstands hrun => by
      obtain ⟨rfl, -⟩ := Prod.mk.inj (Except.ok.inj hrun)
      exact congrArg (fun newline => Except.ok (newline, s')) (hstands.inner hleft).1

theorem requireToken_retraces (hkeeps : ¬pre.keeps) :
    p.Retraces pre left (fun _ => pre) left requireToken requireToken id :=
  .of_reads hkeeps (fun _ => id)
    (fun setting s value t hrun => by
      have hreads := of_triple (requireToken_reads s) hrun
      obtain ⟨-, rfl⟩ := hreads
      exact ⟨rfl, id⟩)
    fun _ _ _ _ hstands _ => run_requireToken (hstands.token ▸ hstands.proper)

/-- What is read off the current token is the same for both parsers. -/
theorem Retraces.of_token {step : Parser β} (hkeeps : ¬pre.keeps) (value : Token → β)
    (hstep : ∀ setting s, step setting s = .ok (value s.current.token, s)) :
    p.Retraces pre left (fun _ => pre) left step step id :=
  .of_reads hkeeps (fun _ => id)
    (fun setting s _ _ hrun => by
      obtain ⟨rfl, rfl⟩ := Prod.mk.inj (Except.ok.inj ((hstep setting s).symm.trans hrun))
      exact ⟨rfl, id⟩)
    fun setting s s' _ hstands hrun => by
      obtain ⟨rfl, -⟩ := Prod.mk.inj (Except.ok.inj ((hstep setting s).symm.trans hrun))
      rw [hstep, hstands.token]
      rfl

theorem isPunctuator_retraces (hkeeps : ¬pre.keeps) (text : String) :
    p.Retraces pre left (fun _ => pre) left (isPunctuator text) (isPunctuator text) id :=
  .of_token hkeeps (· == .punctuator text) fun _ _ => rfl

theorem isWord_retraces (hkeeps : ¬pre.keeps) (name : String) :
    p.Retraces pre left (fun _ => pre) left (isWord name) (isWord name) id :=
  .of_token hkeeps (· == .word name false) fun _ _ => rfl

theorem atEnd_retraces (hkeeps : ¬pre.keeps) :
    p.Retraces pre left (fun _ => pre) left atEnd atEnd id :=
  .of_token hkeeps (· == .finish) fun _ _ => rfl

/-- The extent of what has been read of the text is moved with it. -/
theorem spanFrom_retraces {start start' : Nat} (hstart : start' = p.relocate start)
    (hleft : left = 0 ∨ left < p.text.length) :
    p.Retraces pre left (fun _ => pre) left (spanFrom start) (spanFrom start')
      (Span.relocate p.relocate) where
  lost := by
    intro _ s value t _ hlost hrun
    obtain ⟨-, rfl⟩ := Prod.mk.inj (Except.ok.inj hrun)
    exact hlost
  follows := by
    intro setting s s' hbudget habreast value t hrun
    obtain ⟨rfl, rfl⟩ := Prod.mk.inj (Except.ok.inj hrun)
    have hstop : s'.previous.stop = p.relocate s.previous.stop := by
      rcases habreast.place with hwithin | ⟨-, hend⟩
      · exact (Stands.inner ⟨hbudget, habreast.alike, hwithin⟩ hleft).2.2
      · rw [hend.previous, hend.newPrevious, relocate_stop]
    refine Or.inr ⟨s', ?_, habreast⟩
    subst hstart
    exact congrArg (fun stop => Except.ok (Span.mk (p.relocate start) stop, s')) hstop

/-- What is made of the extent of what has been read of the text. -/
theorem Retraces.spanFrom_pure {start start' : Nat} {make : Span → α} {make' : Span → γ}
    (hstart : start' = p.relocate start) (hleft : left < p.text.length)
    (hmake : ∀ span, p.start < span.stop → make' (span.relocate p.relocate) = f (make span)) :
    p.Retraces pre left (fun _ => pre) left (spanFrom start >>= fun span => Pure.pure (make span))
      (spanFrom start' >>= fun span => Pure.pure (make' span)) f where
  lost := by
    intro _ s value t _ hlost hrun
    obtain ⟨-, rfl⟩ := Prod.mk.inj (Except.ok.inj hrun)
    exact hlost
  follows := by
    intro setting s s' hbudget habreast value t hrun
    obtain ⟨rfl, rfl⟩ := Prod.mk.inj (Except.ok.inj hrun)
    have hstop : p.start < s.previous.stop ∧ s'.previous.stop = p.relocate s.previous.stop := by
      rcases habreast.place with hwithin | ⟨-, hend⟩
      · exact (Stands.inner ⟨hbudget, habreast.alike, hwithin⟩ (Or.inr hleft)).2
      · rw [hend.previous, hend.newPrevious, relocate_stop]
        obtain ⟨c, inner, htext⟩ := List.exists_cons_of_length_pos (Nat.zero_lt_of_lt hleft)
        have := Text.byteLength_pos c inner
        rw [Transfer.stop, htext]
        exact ⟨by omega, rfl⟩
    refine Or.inr ⟨s', ?_, habreast⟩
    rw [← hmake ⟨start, s.previous.stop⟩ hstop.1, hstart]
    exact congrArg (fun stop => Except.ok (make' ⟨p.relocate start, stop⟩, s')) hstop.2

/-- Behind a token the parsers are abreast if it may end the text. -/
theorem advance_of_known
    (hknown : ∀ token, pre.known token → token.isProper = true ∧ mode.Admits p token) :
    p.Retraces pre left (fun _ => mode) (left - 1) advance advance id where
  lost := by
    intro setting s value t _ hlost hrun
    obtain ⟨hproper, hadmits⟩ := hknown _ hlost.known
    exact lost_moves hlost (of_triple (advance_moves s hproper) hrun) (hadmits.2 _)
  follows := by
    intro setting s s' hbudget habreast value t hrun
    obtain ⟨hproper, hadmits, hall⟩ := hknown _ habreast.known
    -- at the end of the text the first parser reads a token behind it, and is lost
    rcases habreast.place with hwithin | ⟨-, hend⟩
    swap
    · exact Or.inl ⟨Or.inl (over_moves (over_of_atEnd hend)
        (of_triple (advance_moves s hproper) hrun)), hall _⟩
    obtain ⟨-, rfl⟩ := Prod.mk.inj (Except.ok.inj hrun)
    rcases Stands.lands ⟨hbudget, habreast.alike, hwithin⟩ with hdoomed | ⟨halike, hplace⟩
    · exact Or.inl ⟨Or.inl hdoomed, hall _⟩
    rcases hplace with hwithin | ⟨hend, hlast⟩
    · exact Or.inr ⟨_, run_advance, halike, Or.inl hwithin, hall _⟩
    -- the token has been the last one of the text, which may not have been meant to end here
    by_cases hkeeps : mode.keeps
    · exact Or.inr ⟨_, run_advance, halike, Or.inr ⟨hkeeps, hend⟩, hall _⟩
    · refine Or.inl (lost_of_atEnd hend (fun hwants => ?_) (hall _))
      obtain ⟨hsemicolon, hother⟩ := (hadmits hwants).resolve_left hkeeps
      exact hother (hlast hsemicolon)

theorem advance_retraces {found : Token} (hproper : found.isProper = true)
    (hadmits : mode.Admits p found) :
    p.Retraces (.before (· = found)) left (fun _ => mode) (left - 1) advance advance id :=
  advance_of_known fun _ htoken => htoken ▸ ⟨hproper, hadmits⟩

theorem advance_inner (hproper : ∀ token, pre.known token → token.isProper = true) :
    p.Retraces pre left (fun _ => .inner) (left - 1) advance advance id :=
  advance_of_known fun token htoken => ⟨hproper token htoken, Mode.inner_admits p token⟩

/-- A test of the current token.  At the end of the text its result is known, or it is followed by a
part that reads on if the result is another one there. -/
theorem Retraces.test_bind (test : Token → Bool) {stop : Parser Bool} {next : Bool → Parser α}
    {next' : Bool → Parser γ} (result : Bool)
    (hstop : ∀ setting s, stop setting s = .ok (test s.current.token, s))
    (hend : mode.keeps → test p.newNext.token = result)
    (hother : p.Retraces (.before fun token => test token = !result) left post later
      (next !result) (next' !result) f)
    (hsame : p.Retraces mode left post later (next result) (next' result) f) :
    p.Retraces mode left post later (stop >>= next) (stop >>= next') f where
  lost := by
    intro setting s value t hbudget hlost hrun
    rw [run_bind (hstop setting s)] at hrun
    by_cases htest : test s.current.token = result
    · rw [htest] at hrun
      exact hsame.lost _ _ _ _ hbudget hlost hrun
    · rw [Bool.eq_not.mpr htest] at hrun
      exact hother.lost _ _ _ _ hbudget ⟨(lost_inner hlost).place, Bool.eq_not.mpr htest⟩ hrun
  follows := by
    intro setting s s' hbudget habreast value t hrun
    rw [run_bind (hstop setting s)] at hrun
    rw [run_bind (hstop _ s')]
    by_cases htest : test s.current.token = result
    · -- both go on in the same way, also at the end of the text, where the second one's result is
      -- known
      rw [htest] at hrun
      have htest' : test s'.current.token = result := by
        rcases habreast.place with hwithin | ⟨hkeeps, hatEnd⟩
        · rw [Stands.token ⟨hbudget, habreast.alike, hwithin⟩, htest]
        · rw [hatEnd.newCurrent, hend hkeeps]
      rw [htest']
      exact hsame.follows _ _ _ hbudget habreast value t hrun
    · have hneg := Bool.eq_not.mpr htest
      rw [hneg] at hrun
      rcases habreast.place with hwithin | ⟨hkeeps, hatEnd⟩
      · rw [Stands.token ⟨hbudget, habreast.alike, hwithin⟩, hneg]
        exact hother.follows _ _ _ hbudget ⟨habreast.alike, Or.inl hwithin, hneg⟩ value t hrun
      · -- at the end of the text the first parser goes on, so that it reads what is behind it
        exact Or.inl (hother.lost _ _ _ _ hbudget (lost_of_atEnd hatEnd id hneg) hrun)

/-- A test whose result is known. -/
theorem Retraces.test_of_known (test : Token → Bool) {stop : Parser Bool} {next : Bool → Parser α}
    {next' : Bool → Parser γ} (result : Bool) (hkeeps : ¬mode.keeps)
    (hstop : ∀ setting s, stop setting s = .ok (test s.current.token, s))
    (hknown : ∀ token, mode.known token → test token = result)
    (hnext : p.Retraces mode left post later (next result) (next' result) f) :
    p.Retraces mode left post later (stop >>= next) (stop >>= next') f where
  lost := by
    intro setting s value t hbudget hlost hrun
    rw [run_bind (hstop setting s), hknown _ hlost.known] at hrun
    exact hnext.lost _ _ _ _ hbudget hlost hrun
  follows := by
    intro setting s s' hbudget habreast value t hrun
    have hwithin := habreast.place.resolve_right fun h => hkeeps h.1
    have htoken := Stands.token ⟨hbudget, habreast.alike, hwithin⟩
    rw [run_bind (hstop setting s), hknown _ habreast.known] at hrun
    rw [run_bind (hstop _ s'), htoken, hknown _ habreast.known]
    exact hnext.follows _ _ _ hbudget habreast value t hrun

variable {yes no : Parser α} {yes' no' : Parser γ}

theorem Retraces.isPunctuator_ite {text : String}
    (hend : mode.keeps → p.newNext.token ≠ .punctuator text)
    (hyes : p.Retraces (.before (· = .punctuator text)) left post later yes yes' f)
    (hno : p.Retraces mode left post later no no' f) :
    p.Retraces mode left post later
      (isPunctuator text >>= fun found => if found = true then yes else no)
      (isPunctuator text >>= fun found => if found = true then yes' else no') f := by
  refine .test_bind (· == .punctuator text) false (fun _ _ => rfl) ?_ ?_ ?_
  · simpa using hend
  · simpa using hyes
  · simpa using hno

theorem Retraces.isWord_ite {name : String}
    (hend : mode.keeps → p.newNext.token ≠ .word name false)
    (hyes : p.Retraces (.before (· = .word name false)) left post later yes yes' f)
    (hno : p.Retraces mode left post later no no' f) :
    p.Retraces mode left post later
      (isWord name >>= fun found => if found = true then yes else no)
      (isWord name >>= fun found => if found = true then yes' else no') f := by
  refine .test_bind (· == .word name false) false (fun _ _ => rfl) ?_ ?_ ?_
  · simpa using hend
  · simpa using hyes
  · simpa using hno

theorem eat_ite (text : String) (yes no : Parser α) :
    (eat text >>= fun found => if found = true then yes else no) =
      (isPunctuator text >>= fun found => if found = true then (do advance; yes) else no) := by
  rw [eat, bind_assoc]
  refine congrArg (isPunctuator text >>= ·) (funext fun found => ?_)
  cases found <;> simp

theorem eatWord_ite (name : String) (yes no : Parser α) :
    (eatWord name >>= fun found => if found = true then yes else no) =
      (isWord name >>= fun found => if found = true then (do advance; yes) else no) := by
  rw [eatWord, bind_assoc]
  refine congrArg (isWord name >>= ·) (funext fun found => ?_)
  cases found <;> simp

theorem Retraces.eat_ite {mid : Mode} {text : String} (hadmits : mid.Admits p (.punctuator text))
    (hend : mode.keeps → p.newNext.token ≠ .punctuator text)
    (hyes : p.Retraces mid (left - 1) post later yes yes' f)
    (hno : p.Retraces mode left post later no no' f) :
    p.Retraces mode left post later
      (eat text >>= fun found => if found = true then yes else no)
      (eat text >>= fun found => if found = true then yes' else no') f := by
  rw [Passage.eat_ite, Passage.eat_ite]
  refine .isPunctuator_ite hend ?_ hno
  exact .bind (advance_retraces rfl hadmits) fun _ => hyes

theorem Retraces.eatWord_ite {mid : Mode} {name : String}
    (hadmits : mid.Admits p (.word name false))
    (hend : mode.keeps → p.newNext.token ≠ .word name false)
    (hyes : p.Retraces mid (left - 1) post later yes yes' f)
    (hno : p.Retraces mode left post later no no' f) :
    p.Retraces mode left post later
      (eatWord name >>= fun found => if found = true then yes else no)
      (eatWord name >>= fun found => if found = true then yes' else no') f := by
  rw [Passage.eatWord_ite, Passage.eatWord_ite]
  refine .isWord_ite hend ?_ hno
  exact .bind (advance_retraces rfl hadmits) fun _ => hyes

end Tokens

/-! ## Faults -/

section Faults

variable {post : α → Mode} {step rest : Parser α} {step' rest' : Parser γ} {f : α → γ}

theorem refuse_retraces (place : Nat) :
    p.Retraces pre left post later (refuse place) step' f :=
  .of_fails fun _ s _ _ => not_run_of_fails (refuse_fails s place)

theorem refuse_bind (place : Nat) {next : β → Parser α} :
    p.Retraces pre left post later (refuse place >>= next) step' f := by
  refine .of_fails fun setting s _ _ hrun => ?_
  obtain ⟨_, _, hfirst, -⟩ := exists_of_bind hrun
  exact not_run_of_fails (refuse_fails s place) hfirst

theorem unexpected_retraces : p.Retraces pre left post later unexpected step' f :=
  .of_fails fun _ s _ _ => not_run_of_fails (unexpected_fails s)

theorem unexpected_bind {next : β → Parser α} :
    p.Retraces pre left post later (unexpected >>= next) step' f := by
  refine .of_fails fun setting s _ _ hrun => ?_
  obtain ⟨_, _, hfirst, -⟩ := exists_of_bind hrun
  exact not_run_of_fails (unexpected_fails s) hfirst

/-- The first parser gets lost when it notes a fault. -/
theorem complain_retraces (place place' : Nat) :
    p.Retraces pre left (fun _ => pre) left (complain place) (complain place') id where
  lost := by
    intro _ s _ t _ hlost hrun
    obtain ⟨-, rfl⟩ := Prod.mk.inj (Except.ok.inj hrun)
    exact lost_of_complain hlost.known
  follows := by
    intro _ s _ _ habreast _ t hrun
    obtain ⟨-, rfl⟩ := Prod.mk.inj (Except.ok.inj hrun)
    exact Or.inl (lost_of_complain habreast.known)

/-- What comes after a note of a fault, which only the first parser may have to take. -/
theorem Retraces.of_complains (hrest : p.Retraces pre left post later rest rest' f)
    (hstep : step = rest ∧ step' = rest' ∨ ∃ place, step = complain place >>= fun _ => rest) :
    p.Retraces pre left post later step step' f := by
  rcases hstep with ⟨rfl, rfl⟩ | ⟨place, rfl⟩
  · exact hrest
  have hlost : ∀ setting s value t, setting.budget = p.budget → pre.known s.current.token →
      (complain place >>= fun _ => rest) setting s = .ok (value, t) → p.Lost (post value) t := by
    intro setting s value t hbudget hknown hrun
    obtain ⟨_, u, hfirst, hsecond⟩ := exists_of_bind hrun
    obtain ⟨-, rfl⟩ := Prod.mk.inj (Except.ok.inj hfirst)
    exact hrest.lost setting _ value t hbudget (lost_of_complain hknown) hsecond
  exact ⟨fun setting s value t hbudget hbefore => hlost setting s value t hbudget hbefore.known,
    fun setting s _ hbudget habreast value t hrun =>
      Or.inl (hlost setting s value t hbudget habreast.known hrun)⟩

theorem Retraces.complain_ite {fails fails' : Prop} [Decidable fails] [Decidable fails']
    {place place' : Nat} (hfails : fails' → fails)
    (hrest : p.Retraces pre left post later rest rest' f) :
    p.Retraces pre left post later (if fails then complain place >>= fun _ => rest else rest)
      (if fails' then complain place' >>= fun _ => rest' else rest') f := by
  refine hrest.of_complains ?_
  by_cases h : fails
  · exact Or.inr ⟨place, if_pos h⟩
  · exact Or.inl ⟨if_neg h, if_neg fun h' => h (hfails h')⟩

theorem Retraces.fails_ite {fails fails' : Prop} [Decidable fails] [Decidable fails']
    {stops stops' : Parser Unit}
    (hstops : ∀ s, ⦃fun _ state => ⌜state = s⌝⦄ stops ⦃⇓? _ _ _ => ⌜False⌝⦄)
    (hfails : fails' → fails)
    (hrest : p.Retraces pre left post later rest rest' f) :
    p.Retraces pre left post later (if fails then stops >>= fun _ => rest else rest)
      (if fails' then stops' >>= fun _ => rest' else rest') f := by
  by_cases h : fails
  · rw [if_pos h]
    refine .of_fails fun setting s _ _ hrun => ?_
    obtain ⟨_, _, hfirst, -⟩ := exists_of_bind hrun
    exact not_run_of_fails (hstops s) hfirst
  · rwa [if_neg h, if_neg fun h' => h (hfails h')]

theorem Retraces.refuse_ite {fails fails' : Prop} [Decidable fails] [Decidable fails']
    {place place' : Nat} (hfails : fails' → fails)
    (hrest : p.Retraces pre left post later rest rest' f) :
    p.Retraces pre left post later (if fails then refuse place >>= fun _ : Unit => rest else rest)
      (if fails' then refuse place' >>= fun _ : Unit => rest' else rest') f :=
  .fails_ite (refuse_fails · place) hfails hrest

theorem Retraces.unexpected_ite {fails fails' : Prop} [Decidable fails] [Decidable fails']
    (hfails : fails' → fails) (hrest : p.Retraces pre left post later rest rest' f) :
    p.Retraces pre left post later (if fails then unexpected >>= fun _ : Unit => rest else rest)
      (if fails' then unexpected >>= fun _ : Unit => rest' else rest') f :=
  .fails_ite unexpected_fails hfails hrest

/-- The result of a check. -/
theorem check_retraces {result : Except Nat α} {result' : Except Nat γ}
    (hresult : ∀ value, result = .ok value → result' = .ok (f value)) :
    p.Retraces pre left (fun _ => pre) left (check result) (check result') f := by
  cases result with
  | error place => exact refuse_retraces place
  | ok value =>
      rw [hresult value rfl]
      exact .pure rfl le_rfl

end Faults

section Tokens

/-- A token that is skipped if it stands here, and that something else follows. -/
theorem eat_retraces (text : String) :
    p.Retraces .inner left (fun _ => .inner) left (eat text) (eat text) id := by
  unfold eat
  refine .isPunctuator_ite False.elim ?_ (.pure rfl le_rfl)
  exact .bind (advance_retraces rfl (Mode.inner_admits p _)) fun _ => .pure rfl (Nat.sub_le _ _)

theorem eatWord_retraces (name : String) :
    p.Retraces .inner left (fun _ => .inner) left (eatWord name) (eatWord name) id := by
  unfold eatWord
  refine .isWord_ite False.elim ?_ (.pure rfl le_rfl)
  exact .bind (advance_retraces rfl (Mode.inner_admits p _)) fun _ => .pure rfl (Nat.sub_le _ _)

/-- A choice for which a test has to fail. -/
theorem bind_ite_not (step : Parser Bool) (yes no : Parser α) :
    (step >>= fun found => if (!found) = true then yes else no) =
      (step >>= fun found => if found = true then no else yes) := by
  refine congrArg (step >>= ·) (funext fun found => ?_)
  cases found <;> rfl

theorem expect_eq (text : String) :
    expect text = (eat text >>= fun found => if found = true then pure () else unexpected) := by
  refine congrArg (eat text >>= ·) (funext fun found => ?_)
  cases found <;> rfl

theorem expectWord_eq (name : String) :
    expectWord name =
      (eatWord name >>= fun found => if found = true then pure () else unexpected) := by
  refine congrArg (eatWord name >>= ·) (funext fun found => ?_)
  cases found <;> rfl

theorem expect_retraces {text : String} (hadmits : mode.Admits p (.punctuator text)) :
    p.Retraces pre left (fun _ => mode) (left - 1) (expect text) (expect text) id := by
  rw [expect_eq]
  exact .of_inner (.eat_ite hadmits False.elim (.pure rfl le_rfl) unexpected_retraces)

theorem expectWord_retraces {name : String} (hadmits : mode.Admits p (.word name false)) :
    p.Retraces pre left (fun _ => mode) (left - 1) (expectWord name) (expectWord name) id := by
  rw [expectWord_eq]
  exact .of_inner (.eatWord_ite hadmits False.elim (.pure rfl le_rfl) unexpected_retraces)

theorem atom_retraces (hmode : mode.Tight p)
    (hknown : ∀ token, pre.known token → token.isProper = true ∧ token ≠ .punctuator ";") :
    p.Retraces pre left (fun _ => mode) (left - 1) atom atom (Expr.relocate p.relocate) := by
  refine .of_advances (fun _ => hmode.known)
    (fun s htoken => atom_advances s (hknown _ htoken).1) ?_
  intro setting s s' hstands htoken
  refine .get_bind (Retraces.follows ?_ _ _ _ hstands.budget (hstands.abreast htoken))
  dsimp only
  refine .bind (advance_of_known fun token htoken => ?_) fun _ => .pure ?_ le_rfl
  · exact ⟨(hknown token htoken).1, hmode.admits (hknown token htoken).2⟩
  · exact congrArg Expr.atom hstands.span

theorem identifier_retraces (hmode : mode.Tight p) :
    p.Retraces pre left (fun _ => mode) (left - 1) identifier identifier
      (Ident.relocate p.relocate) := by
  refine .of_advances (fun _ => hmode.known) (fun s _ => identifier_advances s) ?_
  intro setting s s' hstands _
  refine hstands.requireToken_bind (hstands.token_bind ?_)
  cases htoken : s.current.token with
  | word name escaped =>
      refine .get_bind (hstands.follows_of_eq htoken ?_)
      dsimp only
      have hrest : p.Retraces (.before (· = .word name escaped)) left (fun _ => mode) (left - 1)
          (do advance; pure ⟨name, s.current.span⟩) (do advance; pure ⟨name, s'.current.span⟩)
          (Ident.relocate p.relocate) := by
        refine .bind (advance_retraces rfl (hmode.admits nofun)) fun _ => ?_
        exact .pure (congrArg (Ident.mk name) hstands.span) le_rfl
      refine .ite (fun _ => .bind (complain_retraces _ _) fun _ => ?_) fun _ => .refuse_ite id ?_
      all_goals exact .read_bind fun setting _ => .refuse_ite id hrest
  | _ => exact hstands.follows unexpected_retraces

end Tokens

/-! ## Loops -/

section Loops

variable {stop : Parser Bool} {step : Parser α} {step' : Parser γ} {f : α → γ}

/-- Where nothing is left of the text, it does not matter what the second parser does. -/
theorem Retraces.at_zero {post : α → Mode} {other : Parser γ} (hkeeps : ¬pre.keeps)
    (hstep : p.Retraces pre left post later step other f) :
    p.Retraces pre 0 post between step step' f where
  lost := hstep.lost
  follows := by
    intro setting s s' _ habreast
    rcases habreast.place with hwithin | hend
    · exact absurd (within_pos hwithin) (Nat.lt_irrefl 0)
    · exact absurd hend.1 hkeeps

variable (test : Token → Bool) (hstop : ∀ setting s, stop setting s = .ok (test s.current.token, s))
  (hend : mode.keeps → test p.newNext.token = true)
  (hstep : ∀ k ≤ left,
    p.Retraces (.before fun token => test token = false) k (fun _ => mode) (k - 1)
    step step' f)

include hstop hend hstep

/-- A repeated step retraces the text, if it does so where it is not to be stopped, and the second
parser has a round for every character that is left. -/
theorem loop_retraces (rounds : Nat) : ∀ {rounds' k : Nat}, k ≤ left → k < rounds' →
    p.Retraces mode k (fun _ => mode) k (repeatUntil.loop stop step rounds)
      (repeatUntil.loop stop step' rounds') (List.map f) := by
  induction rounds with
  | zero => exact fun _ _ => unexpected_retraces
  | succ rounds ih =>
      intro rounds' k hle hrounds
      obtain ⟨rounds', rfl⟩ := Nat.exists_eq_succ_of_ne_zero (Nat.ne_zero_of_lt hrounds)
      rw [repeatUntil.loop, repeatUntil.loop]
      refine .test_bind test true hstop hend ?_ (.pure rfl le_rfl)
      have hround : ∀ {more : Nat}, k - 1 < more →
          p.Retraces (.before fun token => test token = !true) k (fun _ => mode) k
            (do
              let first ← step
              let rest ← repeatUntil.loop stop step rounds
              pure (first :: rest))
            (do
              let first ← step'
              let rest ← repeatUntil.loop stop step' more
              pure (first :: rest)) (List.map f) := fun hmore =>
        .bind (hstep k hle) fun _ => .bind (ih (by omega) hmore) fun _ => .pure rfl (by omega)
      -- with no characters left there is no round to compare, however many the second parser has
      rcases Nat.eq_zero_or_pos k with rfl | hpos
      · exact .at_zero id (hround (Nat.lt_succ_self _))
      · exact hround (by omega)

theorem repeatUntil_retraces (hleft : left ≤ p.text.length) :
    p.Retraces mode left (fun _ => mode) left (repeatUntil stop step) (repeatUntil stop step')
      (List.map f) :=
  .read_bind fun _ _ => loop_retraces test hstop hend hstep _ le_rfl
    (hleft.trans_lt (Nat.lt_of_succ_lt p.room.2))

/-- Where the repeated step is not to be stopped, it retraces the text from any mode. -/
theorem repeatUntil_of_known (hpre : ∀ token, pre.known token → test token = false)
    (hleft : left ≤ p.text.length) :
    p.Retraces pre left (fun _ => mode) left (repeatUntil stop step) (repeatUntil stop step')
      (List.map f) := by
  refine .of_before hpre (.read_bind fun setting hbudget => ?_)
  change p.Retraces _ left _ left (repeatUntil.loop stop step setting.budget)
    (repeatUntil.loop stop step' p.newBudget) (List.map f)
  have hroom := p.room
  obtain ⟨rounds, hrounds⟩ := Nat.exists_eq_succ_of_ne_zero (Nat.ne_zero_of_lt (hbudget ▸ hroom.1))
  obtain ⟨rounds', hrounds'⟩ := Nat.exists_eq_succ_of_ne_zero (Nat.ne_zero_of_lt hroom.2)
  rw [hrounds, hrounds', repeatUntil.loop, repeatUntil.loop]
  refine .test_of_known test false id hstop (fun _ htoken => htoken) ?_
  refine .bind (hstep left le_rfl) fun first => ?_
  refine .bind (loop_retraces test hstop hend hstep rounds (Nat.sub_le _ _) (by omega))
    fun rest => ?_
  exact .pure rfl (Nat.sub_le _ _)

end Loops

/-- A step that is repeated up to a closing punctuator. -/
theorem repeatUntil_closing (close : String) {step : Parser α} {step' : Parser γ} {f : α → γ}
    (hleft : left ≤ p.text.length)
    (hstep : ∀ k ≤ left, p.Retraces .inner k (fun _ => .inner) (k - 1) step step' f) :
    p.Retraces .inner left (fun _ => .inner) left
      (repeatUntil (do pure ((← isPunctuator close) || (← atEnd))) step)
      (repeatUntil (do pure ((← isPunctuator close) || (← atEnd))) step') (List.map f) :=
  repeatUntil_retraces (fun token => token == .punctuator close || token == .finish)
    (fun _ _ => rfl) False.elim (fun k hk => .of_inner (hstep k hk)) hleft

/-- The second parser reads a list with commas and its closing punctuator like the first one. -/
theorem commaList_retraces {close : String} {step : Parser α} {step' : Parser γ} {f : α → γ}
    (hleft : left ≤ p.text.length) (hmode : mode.Admits p (.punctuator close))
    (hstep : ∀ k ≤ left, p.Retraces .inner k (fun _ => .inner) (k - 1) step step' f) :
    p.Retraces pre left (fun _ => mode) (left - 1) (commaList close step) (commaList close step')
      fun found => (found.1.map f, found.2.map p.relocate) := by
  refine .of_inner ?_
  unfold commaList
  refine .bind (repeatUntil_closing (f := fun found => (f found.1, found.2.map p.relocate)) close
    hleft fun k hk => ?_) fun elements => ?_
  · refine .bind (hstep k hk) fun element => ?_
    refine .isPunctuator_ite False.elim (.of_inner (.pure rfl le_rfl)) ?_
    refine .bind (here_retraces id) fun comma => ?_
    exact .bind (expect_retraces (Mode.inner_admits p _)) fun _ => .pure rfl (Nat.sub_le _ _)
  · refine .bind (expect_retraces hmode) fun _ => .pure ?_ le_rfl
    simp only [List.map_map, List.getLast?_map, Function.comp_def]
    cases elements.getLast? <;> rfl

/-- What is noted for each element of a list. -/
theorem forM_retraces {body : α → Parser PUnit} {body' : γ → Parser PUnit} {f : α → γ}
    (hbody : ∀ item, p.Retraces pre left (fun _ => pre) left (body item) (body' (f item)) id)
    (items : List α) :
    p.Retraces pre left (fun _ => pre) left (items.forM body) ((items.map f).forM body') id := by
  induction items with
  | nil => exact .pure rfl le_rfl
  | cons first rest ih => exact .bind (hbody first) fun _ => ih

theorem run_apart (step : Parser α) :
    apart step setting s =
      (do
        let value ← step
        modify fun state => { state with suspension := s.suspension }
        pure value : Parser α) setting s := rfl

/-- What a part notes of suspensions is forgotten behind it. -/
theorem apart_retraces {post : α → Mode} {step : Parser α} {step' : Parser γ} {f : α → γ}
    (hstep : p.Retraces pre left post later step step' f) :
    p.Retraces pre left post later (apart step) (apart step') f where
  lost := by
    intro setting s value t hbudget hlost hrun
    rw [run_apart] at hrun
    obtain ⟨result, u, hfirst, hsecond⟩ := exists_of_bind hrun
    obtain ⟨rfl, rfl⟩ := Prod.mk.inj (Except.ok.inj hsecond)
    obtain ⟨hplace, hknown⟩ := hstep.lost setting s _ u hbudget hlost hfirst
    exact ⟨hplace, hknown⟩
  follows := by
    intro setting s s' hbudget habreast value t hrun
    rw [run_apart] at hrun
    obtain ⟨result, u, hfirst, hsecond⟩ := exists_of_bind hrun
    obtain ⟨rfl, rfl⟩ := Prod.mk.inj (Except.ok.inj hsecond)
    rcases hstep.follows setting s s' hbudget habreast _ u hfirst with hlost | ⟨u', hfirst', hafter⟩
    · exact Or.inl ⟨hlost.place, hlost.known⟩
    · refine Or.inr ⟨{ u' with suspension := s'.suspension }, ?_, ?_⟩
      · rw [run_apart, run_bind hfirst']
        rfl
      · exact ⟨{ hafter.alike with suspension := habreast.alike.suspension },
          place_congr hafter.place rfl rfl rfl rfl, hafter.known⟩

end Passage

end Parser
end Script
end ScriptBundler
