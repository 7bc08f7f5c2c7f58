import SpanRegex.Proofs.Builder

/-! # The tree in the order of the text

Read from the root on, a node before its children and these before its siblings, the leaves and groups of a
tree stand in the order in which the text has them.

* `Mark`: a leaf or a group. The other containers, and the empty leaves that stand for missing operands, leave
  no mark.
* `Chain.marks`: the marks of a tree; `Sequence.assemble_marks`: putting a sequence together keeps them.
* `Builder.marks`: the marks of what has been read; each token adds its own behind them.
* `Builder.marks_of_finish`: the marks of the finished tree.
-/

namespace SpanRegex.Pattern
set_option autoImplicit false

/-! ## Marks -/

/-- What a piece of text has made in the tree. -/
inductive Mark
  | leaf (op : Leaf)
  | group (capture : Option Slot)
  deriving DecidableEq

def Leaf.marks (op : Leaf) : List Mark := if op = .empty then [] else [.leaf op]

def Container.marks : Container → List Mark
  | .group capture => [.group capture]
  | _ => []

/-- The marks of a chain. -/
def Chain.marks : Chain → List Mark
  | .nil => []
  | .leaf _ op next => op.marks ++ next.marks
  | .box _ op body next => op.marks ++ (body.marks ++ next.marks)

def Node.marks (n : Node) : List Mark := (n.before .nil).marks

def Item.marks : Item → List Mark
  | .atom node => node.marks
  | _ => []

theorem Chain.marks_before (n : Node) (next : Chain) : (n.before next).marks = n.marks ++ next.marks := by
  cases n <;> simp [Node.before, Node.marks, Chain.marks]

theorem Chain.marks_ofNodes (nodes : List Node) : (Chain.ofNodes nodes).marks = nodes.flatMap Node.marks := by
  induction nodes with
  | nil => rfl
  | cons n nodes ih =>
    rw [List.flatMap_cons, ← ih]
    exact Chain.marks_before n _

/-! ## Sequences -/

namespace Sequence

theorem marks_emptyNode (id : Nat) : (emptyNode id).marks = [] := rfl

theorem marks_loopNode (id : Nat) (q : Quantifier) (atom : Node) :
    (loopNode id q atom).marks = atom.marks := by
  simp [loopNode, Node.marks, Node.before, Chain.marks, Container.marks, Chain.ofNodes]

theorem alternatives_marks (items : List Item) : ∀ (next : Nat) (run : List Node),
    (alternatives next run items).1.flatten.flatMap Node.marks =
      run.reverse.flatMap Node.marks ++ items.flatMap Item.marks := by
  induction items with
  | nil =>
    intro next run
    cases run with
    | nil => rfl
    | cons node run => simp [alternatives]
  | cons item items ih =>
    intro next run
    cases item with
    | atom node =>
      rw [alternatives, ih]
      simp [Item.marks]
    | bar =>
      cases run with
      | nil =>
        have hrest := ih (next + 1) []
        simp [alternatives, hrest, marks_emptyNode, Item.marks]
      | cons node run =>
        have hrest := ih next []
        simp [alternatives, hrest, Item.marks]
    | quantifier q =>
      cases run with
      | nil =>
        rw [alternatives, ih]
        simp [marks_loopNode, marks_emptyNode, Item.marks]
      | cons node run =>
        rw [alternatives, ih]
        simp [marks_loopNode, Item.marks]

theorem chain_marks (runs : List (List Node)) : ∀ next : Nat,
    (chain next runs).1.marks = runs.flatten.flatMap Node.marks := by
  induction runs with
  | nil => exact fun _ => rfl
  | cons first rest ih =>
    intro next
    cases rest with
    | nil => simp [chain, Chain.marks_ofNodes]
    | cons second rest =>
      rw [List.flatten_cons, List.flatMap_append, ← ih (next + 1), ← Chain.marks_ofNodes first]
      rfl

/-- Putting a sequence together keeps the marks of its items in their order. -/
theorem assemble_marks (next : Nat) (items : List Item) :
    (assemble next items).1.marks = items.flatMap Item.marks :=
  (chain_marks _ _).trans (alternatives_marks items next [])

end Sequence

/-! ## Builders -/

/-- The marks of what stands before a group that is open, and of the group. -/
def OpenGroup.marks (g : OpenGroup) : List Mark := g.before.reverse.flatMap Item.marks ++ g.op.marks

namespace Builder

def marks (b : Builder) : List Mark :=
  b.outer.reverse.flatMap OpenGroup.marks ++ b.items.reverse.flatMap Item.marks

theorem marks_addLeaf (b : Builder) (op : Leaf) : (b.addLeaf op).marks = b.marks ++ op.marks := by
  simp [marks, addLeaf, Item.marks, Node.marks, Node.before, Chain.marks]

theorem marks_addItem (b : Builder) {item : Item} (hitem : item.marks = []) :
    marks { b with items := item :: b.items } = b.marks := by
  simp [marks, hitem]

def literalMarks (c : Char) : List Mark :=
  match CodeUnit.ofChar c with
  | [u] => [.leaf (.unit (.literal u))]
  | units => .group none :: units.map fun u => .leaf (.unit (.literal u))

theorem marks_mapIdx_leaf (units : List CodeUnit) : ∀ n : Nat,
    (units.mapIdx fun i u => Node.leaf (n + i) (.unit (.literal u))).flatMap Node.marks =
      units.map fun u => .leaf (.unit (.literal u)) := by
  induction units with
  | nil => exact fun _ => rfl
  | cons u units ih =>
    intro n
    have hshift : (fun i u => Node.leaf (n + (i + 1)) (.unit (.literal u))) =
        fun i u => Node.leaf (n + 1 + i) (.unit (.literal u)) := by
      funext i u
      rw [Nat.add_right_comm, Nat.add_assoc]
    rw [List.mapIdx_cons, List.flatMap_cons, hshift, ih (n + 1)]
    rfl

theorem marks_addLiteral (b : Builder) (c : Char) : (b.addLiteral c).marks = b.marks ++ literalMarks c := by
  unfold addLiteral literalMarks
  generalize CodeUnit.ofChar c = units
  split
  · exact marks_addLeaf b _
  · simp [marks, Item.marks, Node.marks, Node.before, Chain.marks, Container.marks, Chain.marks_ofNodes,
      marks_mapIdx_leaf]

theorem marks_push (b : Builder) (op : Container) : (b.push op).marks = b.marks ++ op.marks := by
  simp [marks, push, OpenGroup.marks]

theorem marks_close {b : Builder} {g : OpenGroup} {outer : List OpenGroup} (ho : b.outer = g :: outer)
    {body : Chain} (hbody : body.marks = b.items.reverse.flatMap Item.marks) (id next : Nat) :
    marks { b with items := .atom (.box id g.op body) :: g.before, next, outer } = b.marks := by
  simp [marks, ho, OpenGroup.marks, Item.marks, Node.marks, Node.before, Chain.marks, hbody]

theorem marks_of_finish {b : Builder} {o : Options} {pos : Nat} {p : Pattern} (h : b.finish o pos = .ok p) :
    p.body.marks = b.marks ∧ p.names = b.names := by
  unfold finish at h
  split at h
  · rename_i ho
    rw [← Except.ok.inj h]
    exact ⟨(Sequence.assemble_marks b.next _).trans (by simp [marks, ho]), rfl⟩
  · simp at h

end Builder

end SpanRegex.Pattern
