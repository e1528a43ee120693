import ScriptBundler.Script.Names

/-!
# Walks over outlines

A walk reports each node twice, when it is entered and when it is left.  A visitor answers each
entering with a `Control`: go on to the parts, skip them, or end the walk there.
-/

namespace ScriptBundler
namespace Script

/-- What a walk does after it has entered a node. -/
inductive Control where
  | proceed
  /-- Leaves out the parts of the node, but still leaves the node. -/
  | skip
  /-- Ends the walk; nothing more is reported. -/
  | abort
deriving Repr, DecidableEq

/-- What is done at a node, over states of type `σ`. -/
structure Visitor (σ : Type) where
  enter : Node → σ → Control × σ
  leave : Node → σ → σ

namespace Visitor

variable {σ : Type}

mutual

/-- Walks over an outline.  The flag of the result says that the walk was ended. -/
def walk (visitor : Visitor σ) : Outline → σ → σ × Bool
  | .node shape parts, state =>
    match visitor.enter shape state with
    | (.abort, state) => (state, true)
    | (.skip, state) => (visitor.leave shape state, false)
    | (.proceed, state) =>
      match visitor.walkAll parts state with
      | (state, true) => (state, true)
      | (state, false) => (visitor.leave shape state, false)

/-- Walks over outlines, one after the other. -/
def walkAll (visitor : Visitor σ) : List Outline → σ → σ × Bool
  | [], state => (state, false)
  | first :: rest, state =>
    match visitor.walk first state with
    | (state, true) => (state, true)
    | (state, false) => visitor.walkAll rest state

end

/-- The state after a walk. -/
def run (visitor : Visitor σ) (forest : List Outline) (state : σ) : σ :=
  (visitor.walkAll forest state).1

end Visitor

/-- A report of a walk. -/
inductive Event where
  | enter (shape : Node)
  | leave (shape : Node)

/-- The visitor that records the walk, steered by an answer for each node.  The events are
recorded in reverse order, and the node that ends the walk is not recorded. -/
def recorder (control : Node → Control) : Visitor (List Event) where
  enter shape events :=
    match control shape with
    | .abort => (.abort, events)
    | answer => (answer, .enter shape :: events)
  leave shape events := .leave shape :: events

/-- The events of a walk steered by an answer for each node. -/
def steeredEvents (control : Node → Control) (forest : List Outline) : List Event :=
  ((recorder control).run forest []).reverse

end Script
end ScriptBundler
