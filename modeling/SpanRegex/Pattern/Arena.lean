import SpanRegex.Pattern.Tree

/-! # Nodes in a store

While a pattern is read its nodes lie in a store, and each holds the numbers of the nodes next to it.

* `NodeOp`: what a node does, its first child by number; `Linked`: a node with its number and its links.
* `Arena`: the store; `Arena.alloc`, `Arena.write`: a new node without links, and one link of a node.
* `Arena.link`, `Arena.adopt`: nodes become siblings, and a node the parent of siblings;
  `Arena.contain`: a new node becomes their parent.
* `Part`: an atom by its number, a bar or a quantifier; `Arena.restructure`: the parts of a sequence become
  siblings, in the two passes `Arena.pad` and `Arena.split`.
* `Arena.chain`: the tree that the links spell.
-/

namespace SpanRegex.Pattern
set_option autoImplicit false

/-! ## Nodes -/

/-- What a node does; the first child of a container is given by its number. -/
inductive NodeOp
  | leaf (op : Leaf)
  | box (op : Container) (first : Option Nat)
  deriving DecidableEq

/-- A node with its number and links. -/
structure Linked where
  id : Nat
  op : NodeOp
  parent : Option Nat
  prev : Option Nat
  next : Option Nat
  deriving DecidableEq

/-- The first child, if there is one. -/
def Linked.first (n : Linked) : Option Nat :=
  match n.op with
  | .leaf _ => none
  | .box _ first => first

/-- The links that are written after a node has been made. -/
inductive Link
  | parent
  | prev
  | next
  deriving DecidableEq, Repr

def Linked.set (n : Linked) (target : Option Nat) : Link → Linked
  | .parent => { n with parent := target }
  | .prev => { n with prev := target }
  | .next => { n with next := target }

@[simp] theorem Linked.id_set (n : Linked) (target : Option Nat) (link : Link) : (n.set target link).id = n.id := by
  cases link <;> rfl

/-- Nodes, each at the place of its number. -/
structure Arena where
  nodes : List Linked
  numbered : nodes.map Linked.id = List.range nodes.length

namespace Arena

def empty : Arena := ⟨[], rfl⟩

/-- The number of nodes, which is also the number of the next one. -/
def size (a : Arena) : Nat := a.nodes.length

def node? (a : Arena) (i : Nat) : Option Linked := a.nodes[i]?

/-- A new node, without links. -/
def alloc (a : Arena) (op : NodeOp) : Arena where
  nodes := a.nodes ++ [⟨a.size, op, none, none, none⟩]
  numbered := by simp [a.numbered, size, List.range_succ]

theorem map_id_modify (nodes : List Linked) (target : Option Nat) (link : Link) : ∀ i : Nat,
    (nodes.modify i (·.set target link)).map Linked.id = nodes.map Linked.id := by
  induction nodes with
  | nil => simp
  | cons n nodes ih =>
    intro i
    cases i with
    | zero => simp
    | succ i => simp [ih i]

/-- Writes one link of a node. -/
def write (a : Arena) (i : Nat) (link : Link) (target : Option Nat) : Arena where
  nodes := a.nodes.modify i (·.set target link)
  numbered := by rw [map_id_modify, List.length_modify, a.numbered]

/-! ## Siblings and their parent -/

/-- Links every node of the row and the one after it to each other. -/
def pair (a : Arena) : List Nat → Arena
  | i :: j :: row => ((a.write i .next (some j)).write j .prev (some i)).pair (j :: row)
  | _ => a

/-- Makes the nodes of the row siblings; nothing is left before the first and after the last. -/
def link (a : Arena) (row : List Nat) : Arena :=
  let a := a.pair row
  let a :=
    match row.getLast? with
    | some last => a.write last .next none
    | none => a
  match row.head? with
  | some first => a.write first .prev none
  | none => a

/-- Writes the parent of a node and of those that follow it, of which there are no more than `most`. -/
def adopt (a : Arena) (parent : Nat) : Nat → Option Nat → Arena
  | most + 1, some i =>
    let a := a.write i .parent (some parent)
    a.adopt parent most ((a.node? i).bind Linked.next)
  | _, _ => a

/-- A new container for a node and those that follow it. -/
def contain (a : Arena) (op : Container) (first : Nat) : Arena :=
  (a.alloc (.box op (some first))).adopt a.size a.size (some first)

end Arena

/-! ## Sequences -/

/-- A part of a sequence. -/
inductive Part
  /-- A node that has no links yet. -/
  | atom (id : Nat)
  | bar
  | quantifier (quantifier : Quantifier)
  deriving DecidableEq

namespace Arena

/-- The first pass: puts an empty node where an operand is missing, and every quantifier around the atom
before it. `out` holds what has been put out, latest first: atoms, and `none` for a bar. -/
def pad (a : Arena) (out : List (Option Nat)) : List Part → List (Option Nat) × Arena
  | [] =>
    match out with
    | some _ :: _ => (out.reverse, a)
    | _ => ((some a.size :: out).reverse, a.alloc (.leaf .empty))
  | .atom id :: parts => a.pad (some id :: out) parts
  | .bar :: parts =>
    match out with
    | some _ :: _ => a.pad (none :: out) parts
    | _ => (a.alloc (.leaf .empty)).pad (none :: some a.size :: out) parts
  | .quantifier q :: parts =>
    match out with
    | some atom :: out => (a.contain (.loop q) atom).pad (some a.size :: out) parts
    | _ =>
      let atom := a.size
      let a := a.alloc (.leaf .empty)
      (a.contain (.loop q) atom).pad (some a.size :: out) parts

/-- The second pass: at every bar the atoms since the last one, which are in `run`, become the children of an
alternative. `before` holds the alternatives; both are latest first. Answers the first of the siblings. -/
def split (a : Arena) (before run : List Nat) : List (Option Nat) → Nat × Arena
  | [] =>
    match (run ++ before).reverse with
    | [] => (a.size, a.alloc (.leaf .empty))
    | first :: row => (first, a.link (first :: row))
  | some atom :: rest => a.split before (atom :: run) rest
  | none :: rest =>
    match run.reverse with
    | [] => a.split before [] rest
    | left :: row =>
      let a := a.link (left :: row)
      (a.contain .alternative left).split (a.size :: before) [] rest

/-- Makes siblings of the parts of a sequence; answers the first of them. -/
def restructure (a : Arena) (parts : List Part) : Nat × Arena :=
  let (out, a) := a.pad [] parts
  a.split [] [] out

/-! ## Reading the links -/

/-- The tree that the links spell from a node on, which has no more than `most` nodes. -/
def chain (a : Arena) : Nat → Option Nat → Chain
  | most + 1, some i =>
    match a.node? i with
    | some ⟨_, .leaf op, _, _, next⟩ => .leaf i op (a.chain most next)
    | some ⟨_, .box op first, _, _, next⟩ => .box i op (a.chain most first) (a.chain most next)
    | none => .nil
  | _, _ => .nil

end Arena

end SpanRegex.Pattern
