import SpanRegex.Pattern.Compile

/-! # Outlines of patterns

* `Pattern.outline`: the tree as indented text, one node a line, two blanks for each level.
-/

namespace SpanRegex
set_option autoImplicit false

namespace Pattern

/-! ## Labels -/

def Symbol.label : Symbol → String
  | anyChar => "AnyChar"
  | digit => "Digit"
  | notDigit => "NotDigit"
  | word => "Word"
  | notWord => "NotWord"
  | space => "Space"
  | notSpace => "NotSpace"
  | upper => "Upper"
  | lower => "Lower"

def Assertion.label : Assertion → String
  | lineStart => "LineStart"
  | schemeStart => "SchemeStart"
  | lineEnd => "LineEnd"
  | wordBoundary => "WordBoundary"
  | notWordBoundary => "NotWordBoundary"
  | afterNonLetter => "PrecededByNonLetter"

def Edge.label : Edge → String
  | start => "MatchStart"
  | stop => "MatchEnd"

/-- A unit as four hexadecimal digits. -/
def hexUnit (u : CodeUnit) : String :=
  let digits := Quoted.hex u.toNat
  "0x" ++ String.ofList (List.replicate (4 - digits.length) '0' ++ digits)

def isControl (c : Char) : Bool := c.toNat < 0x20 || (0x7F ≤ c.toNat && c.toNat ≤ 0x9F)

/-- A unit in quotes, or its number if it is a control or half a surrogate pair. -/
def showUnit (u : CodeUnit) : String :=
  match u.toChar? with
  | some c => if isControl c then hexUnit u else Quoted.char c
  | none => hexUnit u

def braced (s : String) : String := "\x7b" ++ s ++ "\x7d"

def Slot.label (names : GroupNames) : Slot → String
  | numbered n => "#" ++ toString n.val
  | named n => braced ((names.name? n).getD "")

def Leaf.label (names : GroupNames) : Leaf → String
  | empty => "empty"
  | unit (.literal u) => "lit " ++ showUnit u
  | unit (.symbol s) => "meta " ++ s.label
  | unit (.set members negated) =>
    "class " ++ (if negated then "^" else "") ++ "[" ++ toString members.size ++ " units]"
  | assertion a => "meta " ++ a.label
  | pin e => "meta " ++ e.label
  | reference slot => "backref " ++ slot.label names
  | cross target ignoreCase =>
    let tag := if ignoreCase then "Y " else "y "
    match target with
    | .slot slot => "crossref " ++ tag ++ slot.label names
    | .unresolved name => "crossref " ++ tag ++ braced name ++ "?"

def Look.label (l : Look) : String :=
  let kind := if l.negated then "Not" else ""
  match l.behind with
  | none => kind ++ "Ahead"
  | some n => kind ++ "Behind(" ++ toString n ++ ")"

/-- The bounds of a quantifier and its order. -/
def Quantifier.label (q : Quantifier) : String :=
  let max := match q.max with
    | some m => toString m.toNat
    | none => "inf"
  toString q.min.toNat ++ ".." ++ max ++ (if q.lazy then " lazy" else "")

def Container.label (names : GroupNames) : Container → String
  | group none => "group"
  | group (some slot) => "group " ++ slot.label names
  | look l => "look " ++ l.label
  | alternative => "or"
  | loop q => "repeat " ++ q.label

/-! ## The outline -/

def outlineLine (depth : Nat) (label : String) : String :=
  String.ofList (List.replicate (2 * depth) ' ') ++ label ++ "\n"

/-- The lines of a chain at a depth, children below their node. -/
def Chain.outline (names : GroupNames) (depth : Nat) : Chain → List String
  | .nil => []
  | .leaf _ op next => outlineLine depth (op.label names) :: next.outline names depth
  | .box _ op body next =>
    outlineLine depth (op.label names) ::
      (body.outline names (depth + 1) ++ next.outline names depth)

/-- The tree as indented text. -/
def outline (p : Pattern) : String := String.join (p.tree.outline p.names 0)

end Pattern

end SpanRegex
