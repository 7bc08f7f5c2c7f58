import SpanRegex.CodeUnit.CaseMap
import SpanRegex.Captures

/-! # Matching input

* `Input`: a text, the offset at which it is taken to end, and where the scheme starts.
* `Input.at?`, `Input.before?`: the unit at an offset and the one before it.
* `Input.holdsAt`: an expected text stands at an offset.
* `Attachment`: a match of another pattern, for cross references.
-/

namespace SpanRegex
set_option autoImplicit false

/-- The text of a search and its bounds. -/
structure Input where
  text : Text
  /-- The text is taken to end here. -/
  stop : Nat
  /-- The offset at which the scheme starts. -/
  schemeStart : Nat
  deriving Inhabited

namespace Input

/-- The unit at the offset, if it is before the end. -/
def at? (i : Input) (pos : Nat) : Option CodeUnit :=
  if pos < i.stop then i.text[pos]? else none

def before? (i : Input) (pos : Nat) : Option CodeUnit :=
  if pos = 0 then none else i.text[pos - 1]?

/-- The units agree in number and one by one. -/
def agrees (same : CodeUnit → CodeUnit → Bool) : List CodeUnit → List CodeUnit → Bool
  | [], [] => true
  | u :: us, v :: vs => same u v && agrees same us vs
  | _, _ => false

/-- The expected text stands at the offset, up to `same`, and ends before the end. -/
def holdsAt (i : Input) (pos : Nat) (expected : Text) (same : CodeUnit → CodeUnit → Bool) : Bool :=
  pos + expected.size ≤ i.stop &&
    agrees same (i.text.slice pos (pos + expected.size)).toList expected.toList

end Input

/-- A match of another pattern that cross references look into. -/
structure Attachment where
  text : Text
  captures : Captures
  names : Pattern.GroupNames
  deriving Inhabited

namespace Attachment

open Pattern (CrossTarget GroupNames)

/-- The slot that a cross reference means, `names` being those of the referring pattern: a name
counts, not the slot that it has there. -/
def bounds? (a : Attachment) (names : GroupNames) : CrossTarget → Option Bounds
  | .slot (.numbered n) => some (a.captures.get (.numbered n))
  | .slot (.named n) => do
    let name ← names.name? n
    let slot ← a.names.lookup name
    pure (a.captures.get (.named slot))
  | .unresolved name => do
    let slot ← a.names.lookup name
    pure (a.captures.get (.named slot))

end Attachment

end SpanRegex
