import SpanRegex.UnitSet
import SpanRegex.Pattern.GroupNames

/-! # Pattern trees

A pattern is a tree of numbered nodes. The children of a node form a chain: a node, its next
sibling, and so on.

* `Leaf`: the nodes without children; `Container`: the nodes with a chain of children.
* `Chain`: siblings in order, each with its number.
* `Node`: one node apart from its siblings; `Chain.ofNodes` puts nodes side by side.
* `Chain.size`: the number of nodes.
-/

namespace SpanRegex.Pattern
set_option autoImplicit false

/-! ## What nodes do -/

/-- The named tests of one code unit. -/
inductive Symbol
  | anyChar
  | digit
  | notDigit
  | word
  | notWord
  | space
  | notSpace
  | upper
  | lower
  deriving DecidableEq, Repr

/-- A test that a code unit passes or fails. -/
inductive UnitTest
  | literal (unit : CodeUnit)
  | symbol (symbol : Symbol)
  /-- Membership in a set, or its opposite. -/
  | set (members : UnitSet) (negated : Bool)
  deriving DecidableEq

/-- A condition on an offset. -/
inductive Assertion
  | lineStart
  | schemeStart
  | lineEnd
  /-- Exactly one neighbour is a word unit. -/
  | wordBoundary
  /-- Both neighbours are word units, or neither. -/
  | notWordBoundary
  /-- No letter stands before, or the text ends here. -/
  | afterNonLetter
  deriving DecidableEq, Repr

/-- An edge of the whole match. -/
inductive Edge
  | start
  | stop
  deriving DecidableEq, Repr

/-- A capture slot: numbered groups and named groups have ten each. -/
inductive Slot
  | numbered (index : SlotIndex)
  | named (index : SlotIndex)
  deriving DecidableEq, Repr

def Slot.whole : Slot := .numbered ⟨0, Nat.zero_lt_succ 9⟩

/-- What a cross reference refers to in the attached match. -/
inductive CrossTarget
  /-- A slot of this pattern's numbering; a named one stands for its name. -/
  | slot (slot : Slot)
  /-- A name that had no slot when the reference was read. -/
  | unresolved (name : String)
  deriving DecidableEq, Repr

/-- A node without children. -/
inductive Leaf
  /-- Matches without reading. -/
  | empty
  /-- Reads one unit that passes the test. -/
  | unit (test : UnitTest)
  /-- Matches without reading where the condition holds. -/
  | assertion (condition : Assertion)
  /-- Pins an edge of the whole match to the offset reached. -/
  | pin (edge : Edge)
  /-- Reads what the slot holds. -/
  | reference (slot : Slot)
  /-- Reads what a slot of the attached match holds. -/
  | cross (target : CrossTarget) (ignoreCase : Bool)
  deriving DecidableEq

/-- A look at the text around an offset. -/
structure Look where
  /-- The children have to fail. -/
  negated : Bool
  /-- How far back the children start; `none` looks ahead. -/
  behind : Option Nat
  deriving DecidableEq, Repr

/-- How often an item repeats. -/
structure Quantifier where
  min : UInt32
  /-- The greatest number of repetitions, if there is one. -/
  max : Option UInt32
  /-- Few repetitions are tried first. -/
  lazy : Bool
  deriving DecidableEq, Repr

/-- A node with a chain of children. -/
inductive Container
  /-- A group, which records its span if it has a slot. -/
  | group (capture : Option Slot)
  /-- A look ahead or behind. -/
  | look (look : Look)
  /-- One alternative; the siblings that follow hold the others. -/
  | alternative
  /-- A repetition of the only child. -/
  | loop (quantifier : Quantifier)
  deriving DecidableEq, Repr

/-! ## Nodes and chains -/

/-- Sibling nodes in order. -/
inductive Chain
  | nil
  | leaf (id : Nat) (op : Leaf) (next : Chain)
  | box (id : Nat) (op : Container) (body : Chain) (next : Chain)
  deriving DecidableEq, Inhabited

/-- A node apart from its siblings. -/
inductive Node
  | leaf (id : Nat) (op : Leaf)
  | box (id : Nat) (op : Container) (body : Chain)
  deriving DecidableEq

/-- Puts a node before its siblings. -/
def Node.before : Node → Chain → Chain
  | .leaf id op, next => .leaf id op next
  | .box id op body, next => .box id op body next

/-- The nodes side by side. -/
def Chain.ofNodes (nodes : List Node) : Chain := nodes.foldr Node.before .nil

def Chain.size : Chain → Nat
  | .nil => 0
  | .leaf _ _ next => next.size + 1
  | .box _ _ body next => body.size + next.size + 1

end SpanRegex.Pattern
