import ScriptBundler.Proofs.Script.Steering

/-!
# Open nodes

In the course of a walk some nodes have been entered and not yet left.  Whatever a visitor answers,
the node that is left is always the innermost one of these, also where its parts have been skipped,
and nothing happens in the walk but the calls of the visitor.
-/

namespace ScriptBundler
namespace Script

/-- The open nodes after an event. -/
def Event.shift (nodes : List Node) : Event → List Node
  | .enter shape => shape :: nodes
  | .leave _ => nodes.tail

/-- The nodes that have been entered and not left, the innermost first. -/
def openNodes (events : List Event) : List Node :=
  events.foldl Event.shift []

/-- The keys of the functions, blocks and catch clauses that have been entered and not left, the
innermost first. -/
def openKeys (events : List Event) : List ScopeKey :=
  (openNodes events).filterMap Node.scopeKey?

/-- Whether some nodes are open after some events, of which each leaving is that of the innermost
open node. -/
inductive Opening : List Event → List Node → Prop where
  | nil : Opening [] []
  | enter {past : List Event} {nodes : List Node} (shape : Node) (hpast : Opening past nodes) :
      Opening (past ++ [.enter shape]) (shape :: nodes)
  | leave {past : List Event} {nodes : List Node} {shape : Node}
      (hpast : Opening past (shape :: nodes)) : Opening (past ++ [.leave shape]) nodes

variable {control : Node → Control} {past events : List Event} {nodes : List Node}

theorem Opening.openNodes_eq (hopening : Opening past nodes) : openNodes past = nodes := by
  induction hopening with
  | nil => rfl
  | enter shape _ ih =>
      rw [openNodes, List.foldl_append]
      exact congrArg (shape :: ·) ih
  | leave _ ih =>
      rw [openNodes, List.foldl_append]
      exact congrArg List.tail ih

theorem Opening.self (hopening : Opening past nodes) : Opening past (openNodes past) := by
  rw [hopening.openNodes_eq]
  exact hopening

/-- Before such events there have been such events. -/
theorem Opening.of_prefix (hopening : Opening events nodes) (hpast : past <+: events) :
    Opening past (openNodes past) := by
  induction hopening with
  | nil =>
      obtain rfl := List.prefix_nil.mp hpast
      exact .nil
  | enter shape hbefore ih =>
      rcases List.prefix_concat_iff.mp hpast with rfl | hpast
      · exact (Opening.enter shape hbefore).self
      · exact ih hpast
  | leave hbefore ih =>
      rcases List.prefix_concat_iff.mp hpast with rfl | hpast
      · exact hbefore.leave.self
      · exact ih hpast

/-- The key of the scope that is opened when a node is entered. -/
def Event.opens : Event → List ScopeKey
  | .enter shape => shape.scopeKey?.toList
  | .leave _ => []

theorem Event.opens_enter (shape : Node) : (Event.enter shape).opens = shape.scopeKey?.toList := rfl

/-- Only what has been entered is open. -/
theorem Opening.subset_opens (hopening : Opening past nodes) :
    nodes.filterMap Node.scopeKey? ⊆ past.flatMap Event.opens := by
  induction hopening with
  | nil => exact List.Subset.refl _
  | enter shape _ ih =>
      intro key hkey
      rw [List.flatMap_append, List.mem_append]
      obtain ⟨node, hnode, hopens⟩ := List.mem_filterMap.mp hkey
      rcases List.mem_cons.mp hnode with rfl | hnode
      · exact Or.inr (by simpa [Event.opens] using hopens)
      · exact Or.inl (ih (List.mem_filterMap.mpr ⟨node, hnode, hopens⟩))
  | leave _ ih =>
      intro key hkey
      rw [List.flatMap_append, List.mem_append]
      obtain ⟨node, hnode, hopens⟩ := List.mem_filterMap.mp hkey
      exact Or.inl (ih (List.mem_filterMap.mpr ⟨node, List.mem_cons_of_mem _ hnode, hopens⟩))

/-! ## Events that are left out -/

theorem unskipped_sublist (control : Node → Control) (depth : Nat) (events : List Event) :
    (unskipped control depth events).Sublist events := by
  fun_induction unskipped control depth events with
  | case1 => exact .slnil
  | case2 _ _ ih | case3 _ _ ih | case4 _ _ ih => exact ih.cons_cons _
  | case5 _ _ _ ih | case6 _ _ _ ih => exact ih.cons _

/-- What is left of the first events does not depend on those that follow. -/
theorem unskipped_prefix (control : Node → Control) (depth : Nat) (past later : List Event) :
    unskipped control depth past <+: unskipped control depth (past ++ later) := by
  fun_induction unskipped control depth past with
  | case1 => exact List.nil_prefix
  | case2 _ _ ih | case3 _ _ ih | case4 _ _ ih =>
      rw [List.cons_append, unskipped]
      exact (List.prefix_cons_inj _).mpr ih
  | case5 _ _ _ ih | case6 _ _ _ ih =>
      rw [List.cons_append, unskipped]
      exact ih

theorem unskipped_eq_self (hgoes : ∀ shape, Event.enter shape ∈ events → control shape ≠ .skip) :
    unskipped control 0 events = events := by
  induction events with
  | nil => rfl
  | cons event rest ih =>
      have hrest := ih fun shape hmem => hgoes shape (List.mem_cons_of_mem _ hmem)
      cases event with
      | enter shape => rw [unskipped, if_neg (hgoes shape List.mem_cons_self), hrest]
      | leave shape => rw [unskipped, hrest]

/-! ## Calls of a visitor -/

namespace Visitor

variable {σ : Type} {visitor : Visitor σ} {start : σ}

/-- A visitor with a record of its calls. -/
def recorded (visitor : Visitor σ) : Visitor (σ × List Event) :=
  visitor.watched (fun shape _ calls => calls ++ [.enter shape])
    fun shape calls => calls ++ [.leave shape]

/-- Whether a visitor has come to its state through calls for some of the events of a walk, and has
left some nodes open, or others if the walk has been ended. -/
structure Reaches (visitor : Visitor σ) (start : σ) (events : List Event) (nodes : List Node)
    (result : (σ × List Event) × Bool) : Prop where
  state : result.1.1 = result.1.2.foldl visitor.perform start
  sublist : result.1.2.Sublist events
  opening : ∃ opened, Opening result.1.2 opened
  closed : result.2 = false → Opening result.1.2 nodes

theorem Reaches.enter {state : σ} {calls : List Event}
    (hbefore : visitor.Reaches start events nodes ((state, calls), false)) (shape : Node) :
    visitor.Reaches start (events ++ [.enter shape]) (shape :: nodes)
      (((visitor.enter shape state).2, calls ++ [.enter shape]), false) := by
  have hopening := (hbefore.closed rfl).enter shape
  refine ⟨?_, hbefore.sublist.append (.refl _), ⟨_, hopening⟩, fun _ => hopening⟩
  rw [List.foldl_append, ← hbefore.state]
  rfl

theorem Reaches.leave {state : σ} {calls : List Event} {shape : Node}
    (hbefore : visitor.Reaches start events (shape :: nodes) ((state, calls), false)) :
    visitor.Reaches start (events ++ [.leave shape]) nodes
      ((visitor.leave shape state, calls ++ [.leave shape]), false) := by
  have hopening := (hbefore.closed rfl).leave
  refine ⟨?_, hbefore.sublist.append (.refl _), ⟨_, hopening⟩, fun _ => hopening⟩
  rw [List.foldl_append, ← hbefore.state]
  rfl

/-- Events may be passed over. -/
theorem Reaches.pass {result : (σ × List Event) × Bool}
    (hreaches : visitor.Reaches start events nodes result) (later : List Event) :
    visitor.Reaches start (events ++ later) nodes result :=
  { hreaches with sublist := hreaches.sublist.trans (List.sublist_append_left events later) }

/-- What is open does not matter any more when the walk has been ended. -/
theorem Reaches.ended {result : σ × List Event} {ended : Bool}
    (hreaches : visitor.Reaches start events nodes (result, ended)) (others : List Node) :
    visitor.Reaches start events others (result, true) :=
  ⟨hreaches.state, hreaches.sublist, hreaches.opening, fun h => by contradiction⟩

mutual

theorem walk_reaches : ∀ (outline : Outline) (state : σ × List Event) (events : List Event)
    (nodes : List Node), visitor.Reaches start events nodes (state, false) →
      visitor.Reaches start (events ++ outline.events) nodes
        (visitor.recorded.walk outline state)
  | .node shape parts, (state, calls), events, nodes, hbefore => by
    have hparts := walkAll_reaches parts
    have hinside := hbefore.enter shape
    have henter : visitor.recorded.enter shape (state, calls) =
        ((visitor.enter shape state).1, (visitor.enter shape state).2, calls ++ [.enter shape]) :=
      rfl
    rw [Outline.events, List.append_cons, ← List.append_assoc]
    unfold walk
    rw [henter]
    generalize visitor.enter shape state = entered at hinside ⊢
    obtain ⟨control, next⟩ := entered
    cases control with
    | abort =>
        rw [List.append_assoc]
        exact (hinside.pass _).ended nodes
    | skip => exact (hinside.pass _).leave
    | proceed =>
        have hall := hparts _ _ _ hinside
        dsimp only at hall ⊢
        generalize visitor.recorded.walkAll parts (next, calls ++ [.enter shape]) = result at hall ⊢
        obtain ⟨⟨after, later⟩, ended⟩ := result
        cases ended with
        | true => exact (hall.pass _).ended nodes
        | false => exact hall.leave

theorem walkAll_reaches : ∀ (forest : List Outline) (state : σ × List Event) (events : List Event)
    (nodes : List Node), visitor.Reaches start events nodes (state, false) →
      visitor.Reaches start (events ++ Outline.eventsOf forest) nodes
        (visitor.recorded.walkAll forest state)
  | [], _, _, _, hbefore => by
    rw [Outline.eventsOf, List.append_nil]
    exact hbefore
  | first :: rest, state, events, nodes, hbefore => by
    have hfirst := walk_reaches first state events nodes hbefore
    have hrest := walkAll_reaches rest
    rw [Outline.eventsOf, ← List.append_assoc]
    unfold walkAll
    generalize visitor.recorded.walk first state = result at hfirst ⊢
    obtain ⟨middle, ended⟩ := result
    cases ended with
    | true => exact hfirst.pass _
    | false => exact hrest middle _ nodes hfirst

end

/-- A whole walk starts without open nodes. -/
theorem reaches_recorded (visitor : Visitor σ) (forest : List Outline) (start : σ) :
    visitor.Reaches start (Outline.eventsOf forest) []
      (visitor.recorded.walkAll forest (start, [])) :=
  walkAll_reaches forest (start, []) [] [] ⟨rfl, .slnil, ⟨[], .nil⟩, fun _ => .nil⟩

/-- A visitor is called for some of the events of the whole walk, in their order. -/
theorem calls_sublist (visitor : Visitor σ) (forest : List Outline) (start : σ) :
    (visitor.calls forest start).Sublist (Outline.eventsOf forest) :=
  (reaches_recorded visitor forest start).sublist

/-- At each moment of a walk the node that can be left is the innermost open one. -/
theorem opening_of_prefix_calls {forest : List Outline}
    (hpast : past <+: visitor.calls forest start) : Opening past (openNodes past) := by
  obtain ⟨nodes, hopening⟩ := (reaches_recorded visitor forest start).opening
  exact hopening.of_prefix hpast

/-- A walk that is not ended leaves all nodes again. -/
theorem openNodes_calls {forest : List Outline}
    (hended : (visitor.walkAll forest start).2 = false) :
    openNodes (visitor.calls forest start) = [] := by
  have hsame : (visitor.recorded.walkAll forest (start, [])).2 = (visitor.walkAll forest start).2 :=
    (walkAll_watched visitor _ _ forest (start, [])).2
  exact ((reaches_recorded visitor forest start).closed (hsame.trans hended)).openNodes_eq

/-- Nothing happens in a walk but the calls of the visitor. -/
theorem run_eq_foldl_calls (visitor : Visitor σ) (forest : List Outline) (start : σ) :
    visitor.run forest start = (visitor.calls forest start).foldl visitor.perform start := by
  have hstate := (reaches_recorded visitor forest start).state
  have hsame : (visitor.recorded.walkAll forest (start, [])).1.1 = visitor.run forest start :=
    (walkAll_watched visitor _ _ forest (start, [])).1
  exact hsame.symm.trans hstate

end Visitor

end Script
end ScriptBundler
