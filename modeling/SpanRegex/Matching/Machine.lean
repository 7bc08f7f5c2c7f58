import SpanRegex.Matching.Condition
import SpanRegex.Matching.Store

/-! # The matching machine

The tree of a pattern is walked without recursion. A cursor names the current node and whether it
is entered from above or returned to after its children. Every choice is a frame on a stack: the
cursor to go back to, and what to do there once the rest of the walk has succeeded or failed.

* `Cursor`: a place in the tree and an offset in the text.
* `Choice`, `Frame`: an open choice.
* `Machine`: the stack, the trail, the working values of the nodes and the captures.
* `Machine.setGuard`, `Machine.unwind`: guards of loops are written through the trail, and going
  back to a frame takes back the writes made since it was pushed.
-/

namespace SpanRegex
set_option autoImplicit false

open Pattern (Chain Edge Slot)

/-! ## Cursors -/

/-- A place in the tree, an offset, and the direction of the walk. -/
structure Cursor where
  /-- The current node and the siblings after it; no node once the root has been left. -/
  chain : Chain
  /-- The containers around it, innermost first, each with the siblings after it. -/
  above : List Chain
  pos : Nat
  /-- The node is entered from above, not returned to. -/
  entering : Bool
  deriving DecidableEq, Inhabited

namespace Cursor

def start (tree : Chain) (pos : Nat) : Cursor := ⟨tree, [], pos, true⟩

def descend (c : Cursor) (body : Chain) (pos : Nat) : Cursor :=
  ⟨body, c.chain :: c.above, pos, true⟩

/-- Leaves the current node for the siblings after it, or returns to the container. -/
def leave (c : Cursor) (next : Chain) (pos : Nat) : Cursor :=
  match next, c.above with
  | .nil, [] => ⟨.nil, [], pos, false⟩
  | .nil, container :: above => ⟨container, above, pos, false⟩
  | next, above => ⟨next, above, pos, true⟩

/-- Goes on after the current node. -/
def proceed (c : Cursor) : Cursor :=
  match c.chain with
  | .nil => c
  | .leaf _ _ next => c.leave next c.pos
  | .box _ _ _ next => c.leave next c.pos

end Cursor

/-! ## Choices -/

/-- What is left to do at a frame. Unless stated otherwise, success goes on to the frame below. -/
inductive Choice
  /-- A look: success goes on after the node, failure fails. -/
  | require
  /-- A negated look: success fails, failure goes on after the node. -/
  | refuse
  /-- Failure goes on after the node. -/
  | skip
  /-- Failure enters the children of an unbounded lazy loop. -/
  | again
  /-- Failure leaves a bounded greedy loop without the repetition that was taken. -/
  | settleForLess
  /-- Failure enters the children of a bounded lazy loop. -/
  | oneMore
  /-- Failure gives a repetition back and fails. -/
  | giveBack
  deriving DecidableEq, Repr, Inhabited

structure Frame where
  cursor : Cursor
  choice : Choice
  /-- The length of the trail when the frame was pushed. -/
  trail : Nat
  deriving DecidableEq, Inhabited

/-! ## The machine -/

/-- The repetitions of a loop that are still due, and those that may follow. -/
structure Count where
  due : UInt32 := 0
  spare : UInt32 := 0
  deriving DecidableEq, Repr, Inhabited

/-- What the walk changes. -/
structure Machine where
  /-- The open choices, latest first. -/
  frames : List Frame := []
  /-- The guards that have been overwritten, with their old values. -/
  trail : Array (Nat × Option Nat) := #[]
  /-- The offset at which each group was entered last. -/
  starts : Store Nat := {}
  /-- The repetitions left to each loop. -/
  counts : Store Count := {}
  /-- The offset at which each unbounded loop began its last repetition. -/
  guards : Store (Option Nat) := {}
  captures : Captures := {}
  /-- The start of the whole match is pinned. -/
  startPinned : Bool := false
  /-- The end of the whole match is pinned. -/
  stopPinned : Bool := false
  /-- How many nodes have been visited. -/
  visits : Nat := 0
  deriving DecidableEq, Inhabited

namespace Machine

/-- The machine before an attempt; the working values and the visits stay. -/
def ready (m : Machine) : Machine :=
  { m with frames := [], trail := #[], captures := {}, startPinned := false, stopPinned := false }

def push (m : Machine) (c : Cursor) (choice : Choice) : Machine :=
  { m with frames := ⟨c, choice, m.trail.size⟩ :: m.frames }

/-- Writes a guard; the trail keeps the old value if it was another. -/
def setGuard (m : Machine) (id : Nat) (value : Option Nat) : Machine :=
  let old := m.guards.get id
  if old == value then m
  else { m with trail := m.trail.push (id, old), guards := m.guards.set id value }

/-- Takes back the last `n` writes of the trail. -/
def takeBack (trail : Array (Nat × Option Nat)) (guards : Store (Option Nat)) :
    Nat → Array (Nat × Option Nat) × Store (Option Nat)
  | 0 => (trail, guards)
  | n + 1 =>
    match trail.back? with
    | some (id, old) => takeBack trail.pop (guards.set id old) n
    | none => (trail, guards)

/-- Takes back the writes of guards made since the trail had the given length. -/
def unwind (m : Machine) (length : Nat) : Machine :=
  if m.trail.size ≤ length then m
  else
    let (trail, guards) := takeBack m.trail m.guards (m.trail.size - length)
    { m with trail, guards }

def setCount (m : Machine) (id : Nat) (count : Count) : Machine :=
  { m with counts := m.counts.set id count }

/-- Records the span of a group; pinned edges of the whole match stay. -/
def record (m : Machine) (slot : Slot) (pos : Nat) (id : Nat) : Machine :=
  let whole := slot == Slot.whole
  let span := ⟨m.starts.get id, pos⟩
  { m with
    captures := m.captures.record slot span (whole && m.startPinned) (whole && m.stopPinned) }

def pin (m : Machine) (edge : Edge) (pos : Nat) : Machine :=
  match edge with
  | .start => { m with captures := m.captures.pin edge pos, startPinned := true }
  | .stop => { m with captures := m.captures.pin edge pos, stopPinned := true }

end Machine

end SpanRegex
