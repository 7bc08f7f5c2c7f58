import SpanRegex.Matching.Turn

/-! # Matchers

* `Query`: a text to search and the bounds of the search.
* `Matcher`: a pattern, the captures of its last search, the attached match and the visit limit.
* `Matcher.exec`: one search; `Matcher.attach`, `Matcher.detach`, `Matcher.setLimit`.
* `Matcher.leastLimit?`: the limit that a search needs.

A search takes the first offset at which an attempt succeeds. Patterns exist on which an attempt
never ends, so a search is given `fuel`, a bound on the turns of one attempt; it has no answer if
an attempt needs more.
-/

namespace SpanRegex
set_option autoImplicit false

open Pattern (GroupNames Prefilter)

/-! ## Queries -/

/-- Which offsets a search tries. -/
inductive Mode
  /-- Only the first one. -/
  | anchored
  /-- Each one up to the end. -/
  | scan
  deriving DecidableEq, Repr, Inhabited

/-- A text and the bounds of a search in it. -/
structure Query where
  text : Text
  start : Nat := 0
  /-- The text is taken to end here, or at its own end if that comes first. -/
  stop : Nat := text.size
  schemeStart : Nat := 0
  mode : Mode := .scan
  deriving Inhabited

namespace Query

def bound (q : Query) : Nat := min q.stop q.text.size

def input (q : Query) : Input := ⟨q.text, q.bound, q.schemeStart⟩

def offsets (q : Query) : Nat :=
  match q.mode with
  | .anchored => 1
  | .scan => q.bound + 1 - q.start

end Query

/-! ## Searching -/

/-- Tries `count` offsets from `pos` on, those that the prefilter accepts, until one attempt is
decided otherwise than by failure. -/
def Setting.search (s : Setting) (prefilter : Prefilter) (fuel : Nat) :
    Nat → Nat → Machine → Option (Verdict × Machine)
  | 0, _, m => some (.failed, m)
  | count + 1, pos, m =>
    if prefilter.accepts s.input pos then
      match s.attempt fuel pos m with
      | none => none
      | some (.failed, m) => s.search prefilter fuel count (pos + 1) m
      | some decided => some decided
    else
      s.search prefilter fuel count (pos + 1) m

/-- A pattern with the state that lasts from one search to the next. -/
structure Matcher where
  pattern : Pattern
  /-- The captures of the last search. -/
  captures : Captures := {}
  attached : Option Attachment := none
  /-- The number of visits that one search may make. -/
  limit : Option Nat := none
  deriving Inhabited

namespace Matcher

/-- Cross references refer to this match from now on. -/
def attach (m : Matcher) (text : Text) (captures : Captures) (names : GroupNames) : Matcher :=
  { m with attached := some ⟨text, captures, names⟩ }

/-- Cross references refer to no match from now on. -/
def detach (m : Matcher) : Matcher := { m with attached := none }

def setLimit (m : Matcher) (limit : Option Nat) : Matcher := { m with limit }

def setting (m : Matcher) (q : Query) : Setting := ⟨m.pattern, q.input, m.attached, m.limit⟩

/-- The outcome of a search: the match, the captures that it leaves, and the nodes visited. -/
structure Outcome where
  found : Option Match
  captures : Captures
  visits : Nat

/-- Searches the text. A start behind the end finds nothing and leaves the captures as they are. -/
def search (m : Matcher) (fuel : Nat) (q : Query) : Option Outcome :=
  if q.bound < q.start then some ⟨none, m.captures, 0⟩
  else
    match (m.setting q).search m.pattern.prefilter fuel q.offsets q.start {} with
    | none => none
    | some (.matched, machine) =>
      some ⟨Match.ofCaptures? machine.captures, machine.captures, machine.visits⟩
    | some (_, machine) => some ⟨none, {}, machine.visits⟩

/-- Searches the text; answers the match and the matcher afterwards. -/
def exec (m : Matcher) (fuel : Nat) (q : Query) : Option (Option Match × Matcher) :=
  match m.search fuel q with
  | some o => some (o.found, { m with captures := o.captures })
  | none => none

/-- The least visit limit under which the search finds what it finds under `limit`. -/
def leastLimit? (m : Matcher) (fuel limit : Nat) (q : Query) : Option (Option Nat) :=
  match (m.setLimit (some limit)).search fuel q with
  | some o => some (if o.found.isSome then some o.visits else none)
  | none => none

end Matcher

end SpanRegex
