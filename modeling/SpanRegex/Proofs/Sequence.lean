import SpanRegex.Pattern.Tree

/-! # Sequences of trees

The inside of a group is first a flat list of items: atoms, each with all that it holds, bars and quantifiers.
When the group closes, the list becomes a chain of nodes.

* `Item`: an atom, a bar or a quantifier.
* `Sequence.alternatives`: the atoms between the bars, each quantifier bound to the atom before it;
  an empty node stands where an operand is missing.
* `Sequence.chain`: every alternative but the last inside a node of its own, then the last one.
* `Sequence.assemble`: both, in this order.

New nodes take the numbers from `next` on, in the order in which they are made.
-/

namespace SpanRegex.Pattern
set_option autoImplicit false

/-- An item of a sequence. -/
inductive Item
  | atom (node : Node)
  | bar
  | quantifier (quantifier : Quantifier)
  deriving DecidableEq

namespace Sequence

/-- A node that matches without reading. -/
def emptyNode (id : Nat) : Node := .leaf id .empty

/-- A repetition of the node. -/
def loopNode (id : Nat) (q : Quantifier) (atom : Node) : Node :=
  .box id (.loop q) (.ofNodes [atom])

/-- Binds quantifiers and cuts the items at the bars; `run` holds the nodes since the last bar,
latest first. Answers the alternatives and the next number. -/
def alternatives (next : Nat) (run : List Node) : List Item → List (List Node) × Nat
  | [] =>
    match run with
    | [] => ([[emptyNode next]], next + 1)
    | _ :: _ => ([run.reverse], next)
  | .atom node :: items => alternatives next (node :: run) items
  | .bar :: items =>
    match run with
    | [] =>
      let (rest, next') := alternatives (next + 1) [] items
      ([emptyNode next] :: rest, next')
    | _ :: _ =>
      let (rest, next') := alternatives next [] items
      (run.reverse :: rest, next')
  | .quantifier q :: items =>
    match run with
    | [] => alternatives (next + 2) [loopNode (next + 1) q (emptyNode next)] items
    | atom :: run => alternatives (next + 1) (loopNode next q atom :: run) items

/-- The chain of the alternatives: all but the last are inside a node each. -/
def chain (next : Nat) : List (List Node) → Chain × Nat
  | [] => (.nil, next)
  | [last] => (.ofNodes last, next)
  | first :: rest =>
    let (others, next') := chain (next + 1) rest
    (.box next .alternative (.ofNodes first) others, next')

/-- The chain of a sequence of items, and the next number. -/
def assemble (next : Nat) (items : List Item) : Chain × Nat :=
  let (runs, next') := alternatives next [] items
  chain next' runs

end Sequence

end SpanRegex.Pattern
