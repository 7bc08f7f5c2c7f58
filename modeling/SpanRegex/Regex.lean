import SpanRegex.Matching.Matcher

/-! # Regular expressions

* `Regex`: a matcher made from pattern text.
* `Regex.find`: the leftmost match from an offset on; `Regex.isMatch`.
* `Regex.findAll`: the matches of a whole text, each search resuming where the last match ended.
* `Regex.attachFrom`: cross references refer to the last match of another regex.
-/

namespace SpanRegex
set_option autoImplicit false

/-- A matcher made from pattern text. -/
structure Regex where
  matcher : Matcher
  deriving Inhabited

namespace Regex

def ofChars (o : Pattern.Options) (cs : List Char) : Except Pattern.Error Regex :=
  match Pattern.compile o cs with
  | .ok pattern => .ok ⟨{ pattern }⟩
  | .error e => .error e

def ofString (o : Pattern.Options) (s : String) : Except Pattern.Error Regex := ofChars o s.toList

def pattern (r : Regex) : Pattern := r.matcher.pattern

/-- Searches a text; answers the match and the regex afterwards. -/
def exec (r : Regex) (fuel : Nat) (q : Query) : Option (Option Match × Regex) :=
  (r.matcher.exec fuel q).map fun (found, matcher) => (found, ⟨matcher⟩)

/-- The leftmost match at or after an offset. -/
def find (r : Regex) (fuel : Nat) (text : Text) (start : Nat) : Option (Option Match × Regex) :=
  r.exec fuel { text, start }

/-- Where the search resumes after a match that was searched for from `start`. -/
def resume (start : Nat) (m : Match) : Nat := if start < m.span.stop then m.span.stop else start + 1

/-- The matches of the queries for `start`, `resume start …` and so on, while these offsets lie in
the text, until one finds nothing or `count` have been found. -/
def collect (query : Nat → Query) (fuel : Nat) :
    Nat → Nat → Regex → Option (List Match × Regex)
  | 0, _, r => some ([], r)
  | count + 1, start, r =>
    if (query start).bound < start then some ([], r)
    else
      match r.exec fuel (query start) with
      | none => none
      | some (none, r) => some ([], r)
      | some (some m, r) =>
        match collect query fuel count (resume start m) r with
        | none => none
        | some (ms, r) => some (m :: ms, r)

/-- The matches of a text from left to right. A match that does not end behind the offset it was
searched from makes the search resume one unit on. -/
def findAll (r : Regex) (fuel : Nat) (text : Text) : Option (List Match × Regex) :=
  collect (fun start => { text, start }) fuel (text.size + 1) 0 r

/-- Cross references refer to the last match of `other`, which was in `source`. -/
def attachFrom (r other : Regex) (source : Text) : Regex :=
  ⟨r.matcher.attach source other.matcher.captures other.pattern.names⟩

end Regex

end SpanRegex
