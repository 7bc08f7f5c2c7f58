import SpanRegex.CodeUnit.Blanks
import SpanRegex.CodeUnit.Letters
import SpanRegex.Matching.Input
import SpanRegex.Pattern.Compile

/-! # Tests and conditions

What the nodes without children ask of the input.

* `UnitTest.passes`: a unit passes a test.
* `Assertion.holds`: a condition holds at an offset.
* `Prefilter.accepts`: a match may start at an offset.
-/

namespace SpanRegex.Pattern
set_option autoImplicit false

def Symbol.passes (singleLine : Bool) (u : CodeUnit) : Symbol → Bool
  | anyChar => singleLine || !u.isLineTerminator
  | digit => u.isDigit
  | notDigit => !u.isDigit
  | word => u.isWord
  | notWord => !u.isWord
  | space => u.isSpace
  | notSpace => !u.isSpace
  | upper => u.isUpper
  | lower => u.isLower

/-- The unit is the expected one, or differs in case only where case is ignored. -/
def sameUnit (ignoreCase : Bool) (u v : CodeUnit) : Bool :=
  u == v || (ignoreCase && u.eqIgnoreCase v)

def UnitTest.passes (o : Options) (u : CodeUnit) : UnitTest → Bool
  | literal v => sameUnit o.ignoreCase u v
  | symbol s => s.passes o.singleLine u
  | set members negated => members.contains u != negated

def startsLine (i : Input) (pos : Nat) : Bool :=
  pos == 0 || (i.before? pos).any CodeUnit.isLineTerminator

/-- Exactly one of the units around the offset is a word unit. -/
def atWordEdge (i : Input) (pos : Nat) : Bool :=
  (i.before? pos).any CodeUnit.isWord != (i.at? pos).any CodeUnit.isWord

def Assertion.holds (o : Options) (i : Input) (pos : Nat) : Assertion → Bool
  | lineStart => startsLine i pos
  | schemeStart => pos == i.schemeStart
  | lineEnd => pos == i.stop || (o.multiline && (i.at? pos).any CodeUnit.isLineTerminator)
  | wordBoundary => atWordEdge i pos
  | notWordBoundary => !atWordEdge i pos
  | afterNonLetter => i.stop ≤ pos || (i.before? pos).all fun u => !u.isLetter

def Prefilter.accepts (i : Input) (pos : Nat) : Prefilter → Bool
  | anywhere => true
  | literal v ignoreCase => (i.at? pos).any fun u => sameUnit ignoreCase u v
  | lineStart => startsLine i pos
  | schemeStart => pos == i.schemeStart

end SpanRegex.Pattern
