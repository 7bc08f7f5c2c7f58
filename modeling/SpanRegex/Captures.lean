import SpanRegex.Text
import SpanRegex.Pattern.Tree

/-! # Captures and matches

* `Span`: a range of offsets; `Bounds`: a capture slot, each side set or not.
* `Captures`: the ten numbered and the ten named slots.
* `Captures.get_set` says what a write changes.
* `Captures.record`: what a group writes when it closes.
* `Match`: captures whose slot 0, the whole match, is set.
-/

namespace SpanRegex
set_option autoImplicit false

/-! ## Slots -/

/-- The offsets from `start` up to `stop`. -/
structure Span where
  start : Nat
  stop : Nat
  deriving DecidableEq, Repr, Inhabited

/-- The state of a capture slot. -/
structure Bounds where
  start : Option Nat := none
  stop : Option Nat := none
  deriving DecidableEq, Repr, Inhabited

namespace Bounds

/-- The span of a slot that is set on both sides. -/
def span? (b : Bounds) : Option Span :=
  match b.start, b.stop with
  | some start, some stop => some ⟨start, stop⟩
  | _, _ => none

/-- The text that the slot holds, if its span lies inside the text. -/
def heldText? (b : Bounds) (t : Text) : Option Text :=
  match b.span? with
  | some s => if s.start ≤ s.stop ∧ s.stop ≤ t.size then some (t.slice s.start s.stop) else none
  | none => none

/-- Moves a start that lies behind the stop back to it. -/
def ordered (b : Bounds) : Bounds :=
  match b.start, b.stop with
  | some start, some stop => if stop < start then { b with start := some stop } else b
  | _, _ => b

theorem ordered_eq (start stop : Nat) :
    ordered ⟨some start, some stop⟩ = ⟨some (min start stop), some stop⟩ := by
  simp only [ordered]
  split
  · rw [Nat.min_eq_right (by omega)]
  · rw [Nat.min_eq_left (by omega)]

end Bounds

/-! ## Capture tables -/

structure Captures where
  numbered : Vector Bounds 10 := .replicate 10 {}
  named : Vector Bounds 10 := .replicate 10 {}
  deriving DecidableEq, Repr

namespace Captures

open Pattern (Slot SlotIndex Edge)

instance : Inhabited Captures := ⟨{}⟩

def get (c : Captures) : Slot → Bounds
  | .numbered n => c.numbered.get n
  | .named n => c.named.get n

def set (c : Captures) (slot : Slot) (b : Bounds) : Captures :=
  match slot with
  | .numbered n => { c with numbered := c.numbered.set n.val b n.isLt }
  | .named n => { c with named := c.named.set n.val b n.isLt }

theorem get_set (c : Captures) (slot slot' : Slot) (b : Bounds) :
    (c.set slot b).get slot' = if slot = slot' then b else c.get slot' := by
  have hvec : ∀ (v : Vector Bounds 10) (i j : SlotIndex),
      (v.set i.val b i.isLt).get j = if i = j then b else v.get j := by
    intro v i j
    show (v.set i.val b i.isLt)[j.val] = if i = j then b else v[j.val]
    rw [Vector.getElem_set]
    simp only [Fin.ext_iff]
  cases slot with
  | numbered i =>
    cases slot' with
    | numbered j => simp [get, set, hvec]
    | named j => simp [get, set]
  | named i =>
    cases slot' with
    | numbered j => simp [get, set]
    | named j => simp [get, set, hvec]

/-- Sets one edge of the whole match. -/
def pin (c : Captures) (edge : Edge) (pos : Nat) : Captures :=
  match edge with
  | .start => c.set Slot.whole { c.get Slot.whole with start := some pos }
  | .stop => c.set Slot.whole { c.get Slot.whole with stop := some pos }

/-- Records the span of a group, except on the sides that are held fast. -/
def record (c : Captures) (slot : Slot) (s : Span) (holdStart holdStop : Bool) : Captures :=
  let b := c.get slot
  let start := if holdStart then b.start else some s.start
  let stop := if holdStop then b.stop else some s.stop
  c.set slot (Bounds.ordered ⟨start, stop⟩)

def select (slots : Vector Bounds 10) (p : Bounds → Bool) : List (Nat × Bounds) :=
  (slots.toList.zipIdx.map fun (b, i) => (i, b)).filter fun (_, b) => p b

end Captures

/-! ## Matches -/

/-- A match: captures in which the slot of the whole match is set. -/
structure Match where
  captures : Captures
  span : Span
  whole : (captures.get Pattern.Slot.whole).span? = some span

namespace Match

/-- The match that the captures describe, if the whole match is set. -/
def ofCaptures? (c : Captures) : Option Match :=
  match h : (c.get Pattern.Slot.whole).span? with
  | some span => some ⟨c, span, h⟩
  | none => none

def length (m : Match) : Nat := m.span.stop - m.span.start

def isEmpty (m : Match) : Bool := m.span.stop ≤ m.span.start

/-- The matched units, if the span lies inside the text. -/
def text? (m : Match) (t : Text) : Option Text :=
  (m.captures.get Pattern.Slot.whole).heldText? t

end Match

end SpanRegex
