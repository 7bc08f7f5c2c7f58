import SpanRegex.Pattern.Compile
import SpanRegex.Proofs.Sequence

/-! # Trees built from tokens

A pattern can be compiled without a store: every part of a sequence is then a node with all that it holds.

* `Builder`: the groups open at a point of the text, and the items that have been read in them.
* `Builder.add`, `Builder.finish`: one token, and the end of the text.
* `build`: from pattern text to a pattern, or to the first error in it.
-/

namespace SpanRegex.Pattern
set_option autoImplicit false

structure OpenGroup where
  op : Container
  /-- The items before the group, latest first. -/
  before : List Item
  deriving DecidableEq

/-- The state between two tokens. -/
structure Builder where
  names : GroupNames := .empty
  /-- How many groups have a number so far. -/
  groups : Nat := 0
  /-- The number of the next node. -/
  next : Nat := 0
  /-- The items of the innermost open group, latest first. -/
  items : List Item := []
  /-- The open groups, innermost first. -/
  outer : List OpenGroup := []
  deriving DecidableEq

namespace Builder

def addLeaf (b : Builder) (op : Leaf) : Builder :=
  { b with items := .atom (.leaf b.next op) :: b.items, next := b.next + 1 }

/-- Adds a character that stands for itself; one above U+FFFF becomes a group of its two units. -/
def addLiteral (b : Builder) (c : Char) : Builder :=
  match CodeUnit.ofChar c with
  | [u] => b.addLeaf (.unit (.literal u))
  | units =>
    let nodes := units.mapIdx fun i u => Node.leaf (b.next + i) (.unit (.literal u))
    let id := b.next + nodes.length
    { b with
      items := .atom (.box id (.group none) (.ofNodes nodes)) :: b.items
      next := id + 1 }

def push (b : Builder) (op : Container) : Builder :=
  { b with items := [], outer := ⟨op, b.items⟩ :: b.outer }

/-- Opens a group. Nine plain groups get a number; a name gets a slot while there is room. -/
def openGroup (b : Builder) : Opening → Builder
  | .plain =>
    if h : b.groups + 1 < 10 then
      { b with groups := b.groups + 1 }.push (.group (some (.numbered ⟨b.groups + 1, h⟩)))
    else b.push (.group none)
  | .silent => b.push (.group none)
  | .named name =>
    if name.isEmpty then b.push (.group none)
    else
      let (names, slot) := b.names.define name
      { b with names }.push (.group (slot.map .named))
  | .look look => b.push (.look look)

def add (b : Builder) (pos : Nat) : Token → Except Error Builder
  | .opening kind => .ok (b.openGroup kind)
  | .closing =>
    match b.outer with
    | [] => .error ⟨.unbalancedGroup, pos⟩
    | group :: outer =>
      let (body, id) := Sequence.assemble b.next b.items.reverse
      .ok { b with items := .atom (.box id group.op body) :: group.before, next := id + 1, outer }
  | .bar => .ok { b with items := .bar :: b.items }
  | .quantifier q => .ok { b with items := .quantifier q :: b.items }
  | .literal c => .ok (b.addLiteral c)
  | .leaf op => .ok (b.addLeaf op)
  | .referenceName name =>
    match b.names.lookup name with
    | some slot => .ok (b.addLeaf (.reference (.named slot)))
    | none => .error ⟨.unknownGroupName name, pos⟩
  | .crossName name ignoreCase =>
    match b.names.lookup name with
    | some slot => .ok (b.addLeaf (.cross (.slot (.named slot)) ignoreCase))
    | none =>
      let b := { b with names := b.names.want name }
      .ok (b.addLeaf (.cross (.unresolved name) ignoreCase))

def addAll (b : Builder) : List (Nat × Token) → Except Error Builder
  | [] => .ok b
  | (pos, token) :: tokens =>
    match b.add pos token with
    | .ok b => b.addAll tokens
    | .error e => .error e

/-- The pattern at the end of the text, which is at `pos`. -/
def finish (b : Builder) (o : Options) (pos : Nat) : Except Error Pattern :=
  match b.outer with
  | [] =>
    let (body, rootId) := Sequence.assemble b.next b.items.reverse
    .ok { options := o, names := b.names, body, rootId }
  | _ :: _ => .error ⟨.unclosedGroup, pos⟩

end Builder

/-- The pattern of a text, built as a tree. The first error in the text is reported. -/
def build (o : Options) (cs : List Char) : Except Error Pattern :=
  let (tokens, fault) := Token.read o cs
  match Builder.addAll {} tokens, fault with
  | .error e, _ => .error e
  | .ok _, some e => .error e
  | .ok b, none => b.finish o cs.length

end SpanRegex.Pattern
