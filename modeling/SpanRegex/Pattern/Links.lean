import SpanRegex.Pattern.Compile

/-! # Links between nodes

A tree says of each of its nodes which nodes stand next to it.

* `Chain.linked`: the nodes of siblings and below them, with their links.
* `Pattern.linked`: all nodes of a pattern, by number.
* `Pattern.classes`: the character classes, in the order of the tree.
-/

namespace SpanRegex.Pattern
set_option autoImplicit false

def Chain.head? : Chain → Option Nat
  | .nil => none
  | .leaf id _ _ => some id
  | .box id _ _ _ => some id

/-- The nodes of a chain in the order of the tree, below a container and after a sibling. -/
def Chain.linked (parent prev : Option Nat) : Chain → List Linked
  | .nil => []
  | .leaf id op next => ⟨id, .leaf op, parent, prev, next.head?⟩ :: next.linked parent (some id)
  | .box id op body next =>
    ⟨id, .box op body.head?, parent, prev, next.head?⟩ ::
      (body.linked (some id) none ++ next.linked parent (some id))

def linked (p : Pattern) : List Linked :=
  (p.tree.linked none none).mergeSort fun a b => a.id ≤ b.id

/-- The sets of the class nodes of a chain, with their negation, in the order of the tree. -/
def Chain.classes : Chain → List (UnitSet × Bool)
  | .nil => []
  | .leaf _ (.unit (.set members negated)) next => (members, negated) :: next.classes
  | .leaf _ _ next => next.classes
  | .box _ _ body next => body.classes ++ next.classes

def classes (p : Pattern) : List (UnitSet × Bool) := p.tree.classes

end SpanRegex.Pattern
