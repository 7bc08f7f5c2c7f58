import SpanRegex.Pattern.Arena
import SpanRegex.Pattern.Token

/-! # Compiling patterns

* `Pattern`: a pattern ready for matching.
* `Draft`: the groups open at a point of the text, and what has been read in them.
* `Draft.add`, `Draft.finish`: one token, and the end of the text.
* `Layout`: the nodes of a pattern in their store; `layout`: from pattern text to its nodes, or to the first
  error in it.
* `compile`: the pattern with the tree that the links spell.
* `Pattern.prefilter`: what an offset has to satisfy for a match to start there.
-/

namespace SpanRegex
set_option autoImplicit false

/-- A compiled pattern. Its root is the group with number 0, which is the last node made. -/
structure Pattern where
  options : Pattern.Options
  names : Pattern.GroupNames
  /-- The children of the root. -/
  body : Pattern.Chain
  rootId : Nat
  deriving DecidableEq

namespace Pattern

instance : Inhabited Pattern := ⟨⟨{}, .empty, .nil, 0⟩⟩

def size (p : Pattern) : Nat := p.rootId + 1

def tree (p : Pattern) : Chain := .box p.rootId (.group (some Slot.whole)) p.body .nil

/-! ## Placing the nodes -/

structure OpenParts where
  op : Container
  /-- The parts before the group, latest first. -/
  before : List Part
  deriving DecidableEq

/-- The state between two tokens. -/
structure Draft where
  names : GroupNames := .empty
  /-- How many groups have a number so far. -/
  groups : Nat := 0
  arena : Arena := .empty
  /-- The parts of the innermost open group, latest first. -/
  parts : List Part := []
  /-- The open groups, innermost first. -/
  outer : List OpenParts := []

/-- The nodes of a pattern in their store, with its root and its names. -/
structure Layout where
  names : GroupNames
  arena : Arena
  root : Nat

namespace Draft

def addLeaf (d : Draft) (op : Leaf) : Draft :=
  { d with arena := d.arena.alloc (.leaf op), parts := .atom d.arena.size :: d.parts }

/-- Adds a character that stands for itself; one above U+FFFF becomes a group of its two units. -/
def addLiteral (d : Draft) (c : Char) : Draft :=
  match CodeUnit.ofChar c with
  | [u] => d.addLeaf (.unit (.literal u))
  | units =>
    let first := d.arena.size
    let arena := units.foldl (fun a u => a.alloc (.leaf (.unit (.literal u)))) d.arena
    let arena := arena.link (List.range' first units.length)
    { d with arena := arena.contain (.group none) first, parts := .atom arena.size :: d.parts }

def push (d : Draft) (op : Container) : Draft := { d with parts := [], outer := ⟨op, d.parts⟩ :: d.outer }

/-- Opens a group. Nine plain groups get a number; a name gets a slot while there is room. -/
def openGroup (d : Draft) : Opening → Draft
  | .plain =>
    if h : d.groups + 1 < 10 then
      { d with groups := d.groups + 1 }.push (.group (some (.numbered ⟨d.groups + 1, h⟩)))
    else d.push (.group none)
  | .silent => d.push (.group none)
  | .named name =>
    if name.isEmpty then d.push (.group none)
    else
      let (names, slot) := d.names.define name
      { d with names }.push (.group (slot.map .named))
  | .look look => d.push (.look look)

def add (d : Draft) (pos : Nat) : Token → Except Error Draft
  | .opening kind => .ok (d.openGroup kind)
  | .closing =>
    match d.outer with
    | [] => .error ⟨.unbalancedGroup, pos⟩
    | group :: outer =>
      let (first, arena) := d.arena.restructure d.parts.reverse
      .ok { d with arena := arena.contain group.op first, parts := .atom arena.size :: group.before, outer }
  | .bar => .ok { d with parts := .bar :: d.parts }
  | .quantifier q => .ok { d with parts := .quantifier q :: d.parts }
  | .literal c => .ok (d.addLiteral c)
  | .leaf op => .ok (d.addLeaf op)
  | .referenceName name =>
    match d.names.lookup name with
    | some slot => .ok (d.addLeaf (.reference (.named slot)))
    | none => .error ⟨.unknownGroupName name, pos⟩
  | .crossName name ignoreCase =>
    match d.names.lookup name with
    | some slot => .ok (d.addLeaf (.cross (.slot (.named slot)) ignoreCase))
    | none =>
      let d := { d with names := d.names.want name }
      .ok (d.addLeaf (.cross (.unresolved name) ignoreCase))

def addAll (d : Draft) : List (Nat × Token) → Except Error Draft
  | [] => .ok d
  | (pos, token) :: tokens =>
    match d.add pos token with
    | .ok d => d.addAll tokens
    | .error e => .error e

/-- The nodes at the end of the text, which is at `pos`. -/
def finish (d : Draft) (pos : Nat) : Except Error Layout :=
  match d.outer with
  | [] =>
    let (first, arena) := d.arena.restructure d.parts.reverse
    .ok { names := d.names, arena := arena.contain (.group (some Slot.whole)) first, root := arena.size }
  | _ :: _ => .error ⟨.unclosedGroup, pos⟩

end Draft

/-- Places the nodes of a pattern text. The first error in the text is reported. -/
def layout (o : Options) (cs : List Char) : Except Error Layout :=
  let (tokens, fault) := Token.read o cs
  match Draft.addAll {} tokens, fault with
  | .error e, _ => .error e
  | .ok _, some e => .error e
  | .ok d, none => d.finish cs.length

/-- The pattern of the nodes: below the root stands the tree that the links spell. -/
def Layout.pattern (o : Options) (l : Layout) : Pattern where
  options := o
  names := l.names
  body := l.arena.chain l.arena.size ((l.arena.node? l.root).bind Linked.first)
  rootId := l.root

/-- Compiles pattern text. The first error in the text is reported. -/
def compile (o : Options) (cs : List Char) : Except Error Pattern := (layout o cs).map (Layout.pattern o)

/-! ## Where a match can start -/

/-- What an offset has to satisfy for a match to start there. -/
inductive Prefilter
  | anywhere
  /-- This unit comes next. -/
  | literal (unit : CodeUnit) (ignoreCase : Bool)
  | lineStart
  | schemeStart
  deriving DecidableEq, Repr

/-- The condition that the first node of the pattern puts on the start of a match. -/
def prefilter (p : Pattern) : Prefilter :=
  match p.body with
  | .leaf _ (.unit (.literal u)) _ => .literal u p.options.ignoreCase
  | .leaf _ (.assertion .lineStart) _ => .lineStart
  | .leaf _ (.assertion .schemeStart) _ => .schemeStart
  | _ => .anywhere

end Pattern

end SpanRegex
