import ScriptBundler.Script.Walk

/-!
# Steered walks

What the answers of a visitor do to a walk.  A visitor that always goes on is called twice for each
node, and its calls are properly nested.  A visitor whose answer depends on the node alone is
called for a part of these events, in the same order: without those between the entering and the
leaving of a node whose parts it skips, and of what is then left up to the first entering at which
it ends the walk.
-/

namespace ScriptBundler
namespace Script

/-! ## Watched walks -/

namespace Visitor

variable {σ τ : Type}

/-- A visitor that is watched: beside its own state there is one that sees, at each node, the state
in which the visitor comes to it. -/
def watched (visitor : Visitor σ) (enter : Node → σ → τ → τ) (leave : Node → τ → τ) :
    Visitor (σ × τ) where
  enter shape state :=
    let (control, next) := visitor.enter shape state.1
    (control, next, enter shape state.1 state.2)
  leave shape state := (visitor.leave shape state.1, leave shape state.2)

mutual

/-- Watching a walk does not change it. -/
theorem walk_watched (visitor : Visitor σ) (enter : Node → σ → τ → τ) (leave : Node → τ → τ) :
    ∀ (outline : Outline) (state : σ × τ),
      ((visitor.watched enter leave).walk outline state).1.1 = (visitor.walk outline state.1).1 ∧
        ((visitor.watched enter leave).walk outline state).2 = (visitor.walk outline state.1).2
  | .node shape parts, (state, watch) => by
    have hparts := walkAll_watched visitor enter leave parts
    unfold walk
    cases hcontrol : visitor.enter shape state with
    | mk control next =>
        have henter : (visitor.watched enter leave).enter shape (state, watch) =
            (control, next, enter shape state watch) := by
          simp only [watched, hcontrol]
        rw [henter]
        cases control with
        | abort => exact ⟨rfl, rfl⟩
        | skip => exact ⟨rfl, rfl⟩
        | proceed =>
            obtain ⟨hstate, hended⟩ := hparts (next, enter shape state watch)
            dsimp only at hstate hended ⊢
            generalize (visitor.watched enter leave).walkAll parts (next, enter shape state watch) =
              result at hstate hended ⊢
            generalize visitor.walkAll parts next = plain at hstate hended ⊢
            obtain ⟨⟨inner, seen⟩, ended⟩ := result
            obtain ⟨other, ended'⟩ := plain
            obtain rfl : inner = other := hstate
            obtain rfl : ended = ended' := hended
            cases ended <;> exact ⟨rfl, rfl⟩

theorem walkAll_watched (visitor : Visitor σ) (enter : Node → σ → τ → τ) (leave : Node → τ → τ) :
    ∀ (forest : List Outline) (state : σ × τ),
      ((visitor.watched enter leave).walkAll forest state).1.1 =
          (visitor.walkAll forest state.1).1 ∧
        ((visitor.watched enter leave).walkAll forest state).2 = (visitor.walkAll forest state.1).2
  | [], _ => ⟨rfl, rfl⟩
  | first :: rest, state => by
    have hrest := walkAll_watched visitor enter leave rest
    obtain ⟨hstate, hended⟩ := walk_watched visitor enter leave first state
    unfold walkAll
    generalize (visitor.watched enter leave).walk first state = result at hstate hended ⊢
    generalize visitor.walk first state.1 = plain at hstate hended ⊢
    obtain ⟨⟨inner, seen⟩, ended⟩ := result
    obtain ⟨other, ended'⟩ := plain
    obtain rfl : inner = other := hstate
    obtain rfl : ended = ended' := hended
    cases ended with
    | true => exact ⟨rfl, rfl⟩
    | false => exact hrest (inner, seen)

end

/-- A node at which nothing happens but that its parts are walked over. -/
theorem walk_eq_walkAll (visitor : Visitor σ) {shape : Node} {parts : List Outline} {state next : σ}
    (henter : visitor.enter shape state = (.proceed, next))
    (hleave : ∀ after, visitor.leave shape after = after) :
    visitor.walk (.node shape parts) state = visitor.walkAll parts next := by
  rw [walk, henter]
  dsimp only
  generalize visitor.walkAll parts next = result
  obtain ⟨after, ended⟩ := result
  cases ended with
  | true => rfl
  | false => exact congrArg (·, false) (hleave after)

end Visitor

/-! ## Whole walks -/

mutual

/-- The events of a walk over an outline that goes on at each node. -/
def Outline.events : Outline → List Event
  | .node shape parts => .enter shape :: (Outline.eventsOf parts ++ [.leave shape])

/-- The events of a walk over outlines that goes on at each node. -/
def Outline.eventsOf : List Outline → List Event
  | [] => []
  | first :: rest => first.events ++ Outline.eventsOf rest

end

/-- Whether each entering of a node has its leaving, with events in between that are nested in the
same way, and the other way around. -/
inductive Nested : List Event → Prop where
  | nil : Nested []
  | around (shape : Node) {inner rest : List Event} (hinner : Nested inner) (hrest : Nested rest) :
      Nested (.enter shape :: (inner ++ .leave shape :: rest))

variable {events inner rest : List Event} {shape : Node} {control : Node → Control}

theorem Nested.append (hevents : Nested events) (hrest : Nested rest) :
    Nested (events ++ rest) := by
  induction hevents with
  | nil => exact hrest
  | around shape hinner _ _ ih => simpa using Nested.around shape hinner ih

mutual

theorem Outline.nested_events : ∀ outline : Outline, Nested outline.events
  | .node shape parts => by
    unfold Outline.events
    exact .around shape (Outline.nested_eventsOf parts) .nil

/-- The events of a walk that goes on at each node are properly nested. -/
theorem Outline.nested_eventsOf : ∀ forest : List Outline, Nested (Outline.eventsOf forest)
  | [] => by
    unfold Outline.eventsOf
    exact .nil
  | first :: rest => by
    unfold Outline.eventsOf
    exact first.nested_events.append (Outline.nested_eventsOf rest)

end

/-! ## Two deletions -/

/-- The events without those between the entering and the leaving of a node that is skipped.
Inside such a node the depth counts the nodes that are open, with it; outside it is zero. -/
def unskipped (control : Node → Control) : Nat → List Event → List Event
  | _, [] => []
  | 0, .enter shape :: rest =>
    .enter shape :: unskipped control (if control shape = .skip then 1 else 0) rest
  | 0, .leave shape :: rest | 1, .leave shape :: rest => .leave shape :: unskipped control 0 rest
  | depth + 1, .enter _ :: rest => unskipped control (depth + 2) rest
  | depth + 2, .leave _ :: rest => unskipped control (depth + 1) rest

theorem unskipped_of_ne (hskip : ∀ shape, control shape ≠ .skip) (events : List Event) :
    unskipped control 0 events = events := by
  induction events with
  | nil => rfl
  | cons event rest ih =>
      cases event with
      | enter shape => rw [unskipped, if_neg (hskip shape), ih]
      | leave shape => rw [unskipped, ih]

/-- Nothing is left of nested events inside a node that is skipped. -/
theorem unskipped_inside (hinner : Nested inner) (depth : Nat) (rest : List Event) :
    unskipped control (depth + 1) (inner ++ rest) = unskipped control (depth + 1) rest := by
  induction hinner generalizing depth rest with
  | nil => rfl
  | around shape _ _ ihinner ihrest =>
      rw [List.cons_append, List.append_assoc, unskipped, ihinner, List.cons_append, unskipped,
        ihrest]

/-- Outside of nodes that are skipped, nested events do not change what is left of those behind
them. -/
theorem unskipped_append (hevents : Nested events) (rest : List Event) :
    unskipped control 0 (events ++ rest) =
      unskipped control 0 events ++ unskipped control 0 rest := by
  induction hevents generalizing rest with
  | nil => rfl
  | around shape hinner _ ihinner ihrest =>
      rw [List.cons_append, List.append_assoc, unskipped, unskipped]
      split
      · rw [unskipped_inside hinner, unskipped_inside hinner, List.cons_append, unskipped,
          unskipped, ihrest]
        rfl
      · rw [ihinner, ihinner, List.cons_append, unskipped, unskipped, ihrest]
        simp

/-- Of a node that is skipped its entering and its leaving are left, and nothing in between. -/
theorem unskipped_around_of_skip (hskip : control shape = .skip) (hinner : Nested inner)
    (rest : List Event) :
    unskipped control 0 (.enter shape :: (inner ++ .leave shape :: rest)) =
      .enter shape :: .leave shape :: unskipped control 0 rest := by
  rw [unskipped, if_pos hskip, unskipped_inside hinner, unskipped]

/-- A node that is not skipped stays, with what is left of its parts. -/
theorem unskipped_around_of_ne (hskip : control shape ≠ .skip) (hinner : Nested inner)
    (rest : List Event) :
    unskipped control 0 (.enter shape :: (inner ++ .leave shape :: rest)) =
      .enter shape :: (unskipped control 0 inner ++ .leave shape :: unskipped control 0 rest) := by
  rw [unskipped, if_neg hskip, unskipped_append hinner, unskipped]

/-- Whether a walk ends at an event. -/
def Event.ends (control : Node → Control) : Event → Bool
  | .enter shape => control shape = .abort
  | .leave _ => false

theorem Event.ends_enter : (Event.enter shape).ends control = decide (control shape = .abort) :=
  rfl

/-- The events up to the first one at which the walk ends, and with it. -/
def upToEnd (control : Node → Control) (events : List Event) : List Event :=
  events.take (events.findIdx (·.ends control) + 1)

theorem upToEnd_append_of_any (hends : events.any (·.ends control) = true) (rest : List Event) :
    upToEnd control (events ++ rest) = upToEnd control events := by
  have hlt : events.findIdx (·.ends control) < events.length := by
    rw [List.findIdx_lt_length]
    simpa using hends
  unfold upToEnd
  rw [List.findIdx_append, if_pos hlt, List.take_append_of_le_length hlt]

theorem upToEnd_append_of_not_any (hends : events.any (·.ends control) = false)
    (rest : List Event) : upToEnd control (events ++ rest) = events ++ upToEnd control rest := by
  have hlength : events.findIdx (·.ends control) = events.length := by
    rw [List.findIdx_eq_length]
    simpa using hends
  unfold upToEnd
  rw [List.findIdx_append, hlength, if_neg (Nat.lt_irrefl _), Nat.add_right_comm,
    Nat.add_comm _ events.length, List.take_length_add_append]

/-- A walk that ends nowhere is kept as it is. -/
theorem upToEnd_of_not_any (hends : events.any (·.ends control) = false) :
    upToEnd control events = events := by
  have hnil := upToEnd_append_of_not_any hends []
  rw [List.append_nil] at hnil
  rw [hnil]
  exact List.append_nil events

theorem upToEnd_cons (event : Event) (rest : List Event) :
    upToEnd control (event :: rest) =
      if event.ends control then [event] else event :: upToEnd control rest := by
  unfold upToEnd
  rw [List.findIdx_cons]
  cases event.ends control <;> rfl

/-! ## Walks of visitors whose answers depend on the node -/

namespace Visitor

variable {σ τ : Type} {visitor : Visitor σ}

/-- Whether a visitor answers each entering as the node wants it, whatever its state is. -/
def Answers (visitor : Visitor σ) (control : Node → Control) : Prop :=
  ∀ shape state, (visitor.enter shape state).1 = control shape

theorem recorder_answers (control : Node → Control) : (recorder control).Answers control := by
  intro shape events
  cases hcontrol : control shape <;> simp [recorder, hcontrol]

/-- The state after a visitor has been called for an event. -/
def perform (visitor : Visitor σ) (state : σ) : Event → σ
  | .enter shape => (visitor.enter shape state).2
  | .leave shape => visitor.leave shape state

theorem enter_eq (hanswers : visitor.Answers control) (shape : Node) (state : σ) :
    visitor.enter shape state = (control shape, visitor.perform state (.enter shape)) := by
  rw [← hanswers shape state]
  rfl

mutual

theorem walk_eq (hanswers : visitor.Answers control) :
    ∀ (outline : Outline) (state : σ), visitor.walk outline state =
      ((upToEnd control (unskipped control 0 outline.events)).foldl visitor.perform state,
        (unskipped control 0 outline.events).any (·.ends control))
  | .node shape parts, state => by
    have hparts := walkAll_eq hanswers parts
    have hnested := Outline.nested_eventsOf parts
    unfold walk Outline.events
    rw [enter_eq hanswers]
    cases hcontrol : control shape with
    | abort =>
        rw [unskipped_around_of_ne (by simp [hcontrol]) hnested, upToEnd_cons, List.any_cons,
          Event.ends_enter, decide_eq_true hcontrol]
        rfl
    | skip =>
        have hgoes : control shape ≠ .abort := by simp [hcontrol]
        rw [unskipped_around_of_skip hcontrol hnested, upToEnd_of_not_any, List.any_cons,
          Event.ends_enter, decide_eq_false hgoes]
        · rfl
        · rw [List.any_cons, Event.ends_enter, decide_eq_false hgoes]
          rfl
    | proceed =>
        have hgoes : control shape ≠ .abort := by simp [hcontrol]
        rw [unskipped_around_of_ne (by simp [hcontrol]) hnested, upToEnd_cons, List.any_cons,
          List.any_append, Event.ends_enter, decide_eq_false hgoes]
        dsimp only
        rw [hparts]
        cases hends : (unskipped control 0 (Outline.eventsOf parts)).any (·.ends control) with
        | true =>
            rw [upToEnd_append_of_any hends]
            rfl
        | false =>
            rw [upToEnd_append_of_not_any hends, upToEnd_of_not_any hends]
            dsimp only
            rw [if_neg Bool.false_ne_true, List.foldl_cons, List.foldl_append]
            rfl

/-- A walk calls the visitor for what the two deletions leave of the events, and for nothing else;
it is ended if it has come to an end among them. -/
theorem walkAll_eq (hanswers : visitor.Answers control) :
    ∀ (forest : List Outline) (state : σ), visitor.walkAll forest state =
      ((upToEnd control (unskipped control 0 (Outline.eventsOf forest))).foldl visitor.perform
          state,
        (unskipped control 0 (Outline.eventsOf forest)).any (·.ends control))
  | [], state => rfl
  | first :: rest, state => by
    have hfirst := walk_eq hanswers first state
    have hrest := walkAll_eq hanswers rest
    unfold walkAll Outline.eventsOf
    rw [hfirst, unskipped_append first.nested_events, List.any_append]
    cases hends : (unskipped control 0 first.events).any (·.ends control) with
    | true =>
        rw [upToEnd_append_of_any hends]
        rfl
    | false =>
        rw [upToEnd_append_of_not_any hends, upToEnd_of_not_any hends, List.foldl_append]
        exact hrest _

end

/-- The calls of a visitor in a walk, in their order. -/
def calls (visitor : Visitor σ) (forest : List Outline) (state : σ) : List Event :=
  ((visitor.watched (fun shape _ events => events ++ [.enter shape])
    fun shape events => events ++ [.leave shape]).run forest (state, [])).2

/-- The calls that are recorded of a visitor are those that it gets. -/
theorem foldl_perform_watched (visitor : Visitor σ) (events : List Event)
    (state : σ × List Event) :
    (events.foldl (visitor.watched (fun shape _ events => events ++ [.enter shape])
      fun shape events => events ++ [.leave shape]).perform state).2 = state.2 ++ events := by
  induction events generalizing state with
  | nil => exact (List.append_nil _).symm
  | cons event rest ih =>
      rw [List.foldl_cons, ih]
      cases event <;> simp [perform, watched]

theorem watched_answers (hanswers : visitor.Answers control) (enter : Node → σ → τ → τ)
    (leave : Node → τ → τ) : (visitor.watched enter leave).Answers control :=
  fun shape state => hanswers shape state.1

theorem calls_eq (hanswers : visitor.Answers control) (forest : List Outline) (state : σ) :
    visitor.calls forest state =
      upToEnd control (unskipped control 0 (Outline.eventsOf forest)) := by
  rw [calls, run, walkAll_eq (watched_answers hanswers _ _), foldl_perform_watched,
    List.nil_append]

/-- A visitor that always goes on is called for each event of the whole walk. -/
theorem calls_of_proceed (hsteady : visitor.Answers fun _ => .proceed) (forest : List Outline)
    (state : σ) : visitor.calls forest state = Outline.eventsOf forest := by
  rw [calls_eq hsteady, unskipped_of_ne (by simp), upToEnd_of_not_any]
  rw [List.any_eq_false]
  rintro (shape | shape) - <;> simp [Event.ends]

theorem perform_recorder (control : Node → Control) (record : List Event) (event : Event) :
    (recorder control).perform record event =
      if event.ends control then record else event :: record := by
  cases event with
  | enter shape =>
      rw [Event.ends_enter]
      cases hcontrol : control shape <;> simp [perform, recorder, hcontrol]
  | leave shape => rfl

/-- A recorder has recorded, the last one first, all its calls but those that end the walk. -/
theorem foldl_perform_recorder (control : Node → Control) (events record : List Event) :
    events.foldl (recorder control).perform record =
      (events.filter fun event => !event.ends control).reverse ++ record := by
  induction events generalizing record with
  | nil => rfl
  | cons event rest ih =>
      rw [List.foldl_cons, ih, perform_recorder]
      cases hends : event.ends control <;> simp [hends]

/-- A visitor that always goes on is called for each node when it is entered and when it is left,
properly nested.  One whose answer depends on the node alone is called for what is left of these
events without those inside nodes that it skips, up to the first entering at which it ends the
walk; nothing but these calls happens in the walk, and what is recorded of it are the calls without
the one that ends it. -/
theorem calls_steered {control : Node → Control} {visitor : Visitor σ} {steady : Visitor τ}
    (hanswers : visitor.Answers control) (hsteady : steady.Answers fun _ => .proceed)
    (forest : List Outline) (state : σ) (start : τ) :
    steady.calls forest start = Outline.eventsOf forest ∧
      Nested (steady.calls forest start) ∧
      visitor.calls forest state =
        upToEnd control (unskipped control 0 (steady.calls forest start)) ∧
      visitor.run forest state = (visitor.calls forest state).foldl visitor.perform state ∧
      steeredEvents control forest =
        (visitor.calls forest state).filter fun event => !event.ends control := by
  have hwhole := calls_of_proceed hsteady forest start
  refine ⟨hwhole, ?_, ?_, ?_, ?_⟩
  · rw [hwhole]
    exact Outline.nested_eventsOf forest
  · rw [hwhole]
    exact calls_eq hanswers forest state
  · rw [calls_eq hanswers, run, walkAll_eq hanswers]
  · rw [steeredEvents, run, walkAll_eq (recorder_answers control), calls_eq hanswers,
      foldl_perform_recorder, List.append_nil, List.reverse_reverse]

/-- The calls in a walk over `{ a; } f(b); c;` that skips blocks and ends at calls. -/
theorem calls_steered_block :
    let control : Node → Control
      | .block _ => .skip
      | .call _ _ => .abort
      | _ => .proceed
    let argument : Expr := .ident ⟨"b", ⟨9, 10⟩⟩
    let body : List Stmt :=
      [.block (.mk [.expression (.ident ⟨"a", ⟨2, 3⟩⟩) ⟨2, 4⟩] ⟨0, 6⟩),
        .expression (.call (.ident ⟨"f", ⟨7, 8⟩⟩) [argument] ⟨7, 11⟩) ⟨7, 12⟩,
        .expression (.ident ⟨"c", ⟨13, 14⟩⟩) ⟨13, 15⟩]
    (recorder control).Answers control ∧
      (recorder control).calls (Stmt.outlines body) [] =
        [.enter (.block ⟨0, 6⟩), .leave (.block ⟨0, 6⟩), .enter (.call [argument] ⟨7, 11⟩)] := by
  intro control argument body
  have hanswers := recorder_answers control
  obtain ⟨hwhole, -, hcalls, -⟩ := calls_steered hanswers (recorder_answers fun _ => .proceed)
    (Stmt.outlines body) [] []
  refine ⟨hanswers, ?_⟩
  rw [hcalls, hwhole]
  rfl

end Visitor

end Script
end ScriptBundler
