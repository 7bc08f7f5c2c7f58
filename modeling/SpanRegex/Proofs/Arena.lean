import Mathlib.Data.List.Perm.Basic
import SpanRegex.Pattern.Links

/-! # What the store holds

Up to their order the nodes in a store are those of some trees, with the links that the trees have. Each of
the operations takes the trees that it is about from among the others, and leaves others in their place.

* `Node.cell`, `Node.inner`, `Node.alone`: a node and the nodes below it, the node itself without links.
* `Arena.perm_alloc`, `perm_write`: a new node, and one link of a node.
* `Arena.perm_link`, `perm_adopt`, `perm_contain`: nodes become siblings, and siblings get a parent.
* `Arena.chain_eq`: the links of a chain spell the chain.
-/

namespace SpanRegex.Pattern
set_option autoImplicit false

/-! ## Nodes of a tree -/

namespace Node

def id : Node → Nat
  | .leaf id _ => id
  | .box id _ _ => id

/-- The node itself, with these links. -/
def cell (parent prev next : Option Nat) : Node → Linked
  | .leaf id op => ⟨id, .leaf op, parent, prev, next⟩
  | .box id op body => ⟨id, .box op body.head?, parent, prev, next⟩

/-- The nodes below. -/
def inner : Node → List Linked
  | .leaf _ _ => []
  | .box id _ body => body.linked (some id) none

/-- The node without links, and the nodes below it with theirs. -/
def alone (n : Node) : List Linked := n.cell none none none :: n.inner

@[simp] theorem id_cell (n : Node) (parent prev next : Option Nat) : (n.cell parent prev next).id = n.id := by
  cases n <;> rfl

@[simp] theorem next_cell (n : Node) (parent prev next : Option Nat) : (n.cell parent prev next).next = next := by
  cases n <;> rfl

theorem set_parent_cell (n : Node) (parent prev next target : Option Nat) :
    (n.cell parent prev next).set target .parent = n.cell target prev next := by
  cases n <;> rfl

theorem set_next_cell (n : Node) (parent prev next target : Option Nat) :
    (n.cell parent prev next).set target .next = n.cell parent prev target := by
  cases n <;> rfl

theorem set_prev_cell (n : Node) (parent prev next target : Option Nat) :
    (n.cell parent prev next).set target .prev = n.cell parent target next := by
  cases n <;> rfl

end Node

namespace Chain

theorem head_before (n : Node) (next : Chain) : (n.before next).head? = some n.id := by
  cases n <;> rfl

theorem linked_before (n : Node) (next : Chain) (parent prev : Option Nat) :
    (n.before next).linked parent prev =
      n.cell parent prev next.head? :: (n.inner ++ next.linked parent (some n.id)) := by
  cases n <;> rfl

theorem linked_ofNodes_cons (n : Node) (nodes : List Node) (parent prev : Option Nat) :
    (ofNodes (n :: nodes)).linked parent prev =
      n.cell parent prev (ofNodes nodes).head? :: (n.inner ++ (ofNodes nodes).linked parent (some n.id)) :=
  linked_before n (ofNodes nodes) parent prev

theorem head_ofNodes (nodes : List Node) : (ofNodes nodes).head? = nodes.head?.map Node.id := by
  cases nodes with
  | nil => rfl
  | cons n nodes => exact head_before n (ofNodes nodes)

/-- A chain has no nodes, or a node before others. -/
theorem induction_before {motive : Chain → Prop} (nil : motive .nil)
    (before : ∀ (n : Node) (next : Chain), motive next → motive (n.before next)) : ∀ c, motive c
  | .nil => nil
  | .leaf id op next => before (.leaf id op) next (induction_before nil before next)
  | .box id op body next => before (.box id op body) next (induction_before nil before next)

end Chain

namespace Arena

variable {a : Arena} {others : List Linked}

/-! ## Single nodes -/

theorem node_of_mem {n : Linked} (h : n ∈ a.nodes) : a.node? n.id = some n := by
  obtain ⟨i, hi, rfl⟩ := List.getElem_of_mem h
  have hid : (a.nodes.map Linked.id)[i]? = some a.nodes[i].id := by simp [hi]
  rw [a.numbered, List.getElem?_range hi] at hid
  rw [← Option.some.inj hid]
  exact List.getElem?_eq_getElem hi

theorem size_eq {nodes : List Linked} (h : a.nodes.Perm nodes) : a.size = nodes.length := h.length_eq

@[simp] theorem size_alloc (a : Arena) (op : NodeOp) : (a.alloc op).size = a.size + 1 :=
  List.length_append

@[simp] theorem size_write (a : Arena) (i : Nat) (link : Link) (target : Option Nat) :
    (a.write i link target).size = a.size :=
  List.length_modify ..

theorem perm_alloc (op : NodeOp) (h : a.nodes.Perm others) :
    (a.alloc op).nodes.Perm (⟨a.size, op, none, none, none⟩ :: others) :=
  (List.perm_append_singleton _ _).trans (h.cons _)

theorem perm_write {n : Linked} (h : a.nodes.Perm (n :: others)) (link : Link) (target : Option Nat) :
    (a.write n.id link target).nodes.Perm (n.set target link :: others) := by
  obtain ⟨hi, hn⟩ := List.getElem?_eq_some_iff.1 (node_of_mem (h.symm.subset List.mem_cons_self))
  have hdrop : a.nodes.drop n.id = n :: a.nodes.drop (n.id + 1) := by rw [List.drop_eq_getElem_cons hi, hn]
  have hothers : (a.nodes.take n.id ++ a.nodes.drop (n.id + 1)).Perm others := by
    rw [← List.take_append_drop n.id a.nodes, hdrop] at h
    exact (List.perm_middle.symm.trans h).cons_inv
  have hwritten : (a.write n.id link target).nodes =
      a.nodes.take n.id ++ n.set target link :: a.nodes.drop (n.id + 1) :=
    (List.modify_eq_take_cons_drop hi).trans (by rw [hn])
  rw [hwritten]
  exact List.perm_middle.trans (hothers.cons _)

/-- A link that is there already may be written again. -/
theorem perm_rewrite {nodes : List Linked} (h : a.nodes.Perm nodes) {n : Linked} (hn : n ∈ nodes) (link : Link)
    {target : Option Nat} (hset : n.set target link = n) : (a.write n.id link target).nodes.Perm nodes := by
  have hfront := List.perm_cons_erase hn
  have hwritten := perm_write (h.trans hfront) link target
  rw [hset] at hwritten
  exact hwritten.trans hfront.symm

/-! ## Siblings -/

@[simp] theorem size_pair (row : List Nat) : ∀ a : Arena, (a.pair row).size = a.size := by
  induction row with
  | nil => exact fun _ => rfl
  | cons i row ih =>
    intro a
    cases row with
    | nil => rfl
    | cons j row => rw [pair, ih, size_write, size_write]

@[simp] theorem size_link (a : Arena) (row : List Nat) : (a.link row).size = a.size := by
  unfold link
  split <;> split <;> simp

/-- The first node of a row may have a node before it; the others have no links yet. -/
theorem perm_pair (nodes : List Node) : ∀ {a : Arena} {others : List Linked} (n : Node) (prev : Option Nat),
    a.nodes.Perm (n.cell none prev none :: (n.inner ++ (nodes.flatMap Node.alone ++ others))) →
      (a.pair ((n :: nodes).map Node.id)).nodes.Perm
        ((Chain.ofNodes (n :: nodes)).linked none prev ++ others) := by
  induction nodes with
  | nil =>
    intro a others n prev h
    rw [Chain.linked_ofNodes_cons]
    simpa [pair, Chain.ofNodes, Chain.linked, Chain.head?] using h
  | cons m nodes ih =>
    intro a others n prev h
    have hnext := perm_write h .next (some m.id)
    rw [Node.set_next_cell, Node.id_cell] at hnext
    -- The cell of the first node is done; the next one comes to the front.
    let first := n.cell none prev (some m.id) :: n.inner
    have hfront := hnext.trans (List.perm_append_comm_assoc first ((m :: nodes).flatMap Node.alone) others)
    rw [List.flatMap_cons, List.append_assoc] at hfront
    have hprev := perm_write hfront .prev (some n.id)
    rw [Node.set_prev_cell, Node.id_cell] at hprev
    have hrest := ih m (some n.id) hprev
    rw [Chain.linked_ofNodes_cons n, Chain.head_ofNodes, List.cons_append, List.append_assoc]
    exact hrest.trans (List.perm_append_comm_assoc _ first others)

theorem exists_last_linked (nodes : List Node) : ∀ (n : Node) (parent prev : Option Nat),
    ∃ last ∈ (Chain.ofNodes (n :: nodes)).linked parent prev,
      ((n :: nodes).map Node.id).getLast? = some last.id ∧ last.next = none := by
  induction nodes with
  | nil =>
    intro n parent prev
    exact ⟨n.cell parent prev none, by rw [Chain.linked_ofNodes_cons]; exact List.mem_cons_self, by simp,
      by cases n <;> rfl⟩
  | cons m nodes ih =>
    intro n parent prev
    obtain ⟨last, hmem, hlast, hnext⟩ := ih m parent (some n.id)
    refine ⟨last, ?_, ?_, hnext⟩
    · rw [Chain.linked_ofNodes_cons]
      exact List.mem_cons_of_mem _ (List.mem_append_right _ hmem)
    · rw [List.map_cons, List.map_cons, List.getLast?_cons_cons, ← List.map_cons, hlast]

theorem perm_link {nodes : List Node} (h : a.nodes.Perm (nodes.flatMap Node.alone ++ others)) :
    (a.link (nodes.map Node.id)).nodes.Perm ((Chain.ofNodes nodes).linked none none ++ others) := by
  cases nodes with
  | nil => exact h
  | cons n nodes =>
    rw [List.flatMap_cons, List.append_assoc] at h
    have hpair := perm_pair nodes n none h
    obtain ⟨last, hmem, hlast, hnext⟩ := exists_last_linked nodes n none none
    have hsame : last.set none .next = last := by rw [← hnext]; rfl
    have hend := perm_rewrite hpair (List.mem_append_left _ hmem) .next hsame
    let first := n.cell none none (Chain.ofNodes nodes).head?
    have hfirst : first ∈ (Chain.ofNodes (n :: nodes)).linked none none := by
      rw [Chain.linked_ofNodes_cons]
      exact List.mem_cons_self
    have hstart := perm_rewrite hend (List.mem_append_left _ hfirst) .prev (Node.set_prev_cell ..)
    rw [Node.id_cell] at hstart
    have hhead : ((n :: nodes).map Node.id).head? = some n.id := rfl
    simpa only [link, hlast, hhead] using hstart

/-! ## Parents -/

@[simp] theorem size_adopt (parent : Nat) : ∀ (most : Nat) (a : Arena) (first : Option Nat),
    (a.adopt parent most first).size = a.size
  | 0, a, first => rfl
  | most + 1, a, none => rfl
  | most + 1, a, some i => by rw [adopt, size_adopt parent most, size_write]

@[simp] theorem size_contain (a : Arena) (op : Container) (first : Nat) :
    (a.contain op first).size = a.size + 1 := by
  rw [contain, size_adopt, size_alloc]

/-- A container becomes the parent of siblings, whatever their parent was before. -/
theorem perm_adopt (parent : Nat) (c : Chain) : ∀ {most : Nat} {a : Arena} {others : List Linked}
    (old prev : Option Nat), (c.linked old prev).length ≤ most → a.nodes.Perm (c.linked old prev ++ others) →
      (a.adopt parent most c.head?).nodes.Perm (c.linked (some parent) prev ++ others) := by
  induction c using Chain.induction_before with
  | nil =>
    intro most a others old prev hmost h
    cases most <;> exact h
  | before n next ih =>
    intro most a others old prev hmost h
    rw [Chain.linked_before] at hmost h ⊢
    rw [List.length_cons, List.length_append] at hmost
    rw [List.cons_append, List.append_assoc] at h ⊢
    cases most with
    | zero => omega
    | succ most =>
      have hparent := perm_write h .parent (some parent)
      rw [Node.set_parent_cell, Node.id_cell] at hparent
      have hnode := node_of_mem (hparent.symm.subset List.mem_cons_self)
      rw [Node.id_cell] at hnode
      rw [Chain.head_before, adopt, hnode, Option.bind_some, Node.next_cell]
      -- The first node is done, and goes behind those that follow.
      let first := n.cell (some parent) prev next.head? :: n.inner
      have hfront := hparent.trans (List.perm_append_comm_assoc first _ others)
      have hlength : (next.linked old (some n.id)).length ≤ most := by omega
      exact (ih old (some n.id) hlength hfront).trans (List.perm_append_comm_assoc _ first others)

/-- A new container for siblings. -/
theorem perm_contain (op : Container) {c : Chain} {first : Nat} (hfirst : c.head? = some first)
    (h : a.nodes.Perm (c.linked none none ++ others)) :
    (a.contain op first).nodes.Perm ((Node.box a.size op c).alone ++ others) := by
  have hmost : (c.linked none none).length ≤ a.size := by
    rw [size_eq h, List.length_append]
    exact Nat.le_add_right _ _
  have hnew := perm_alloc (.box op (some first)) h
  have hadopt := perm_adopt a.size c none none hmost (hnew.trans List.perm_middle.symm)
  rw [hfirst] at hadopt
  refine hadopt.trans (List.perm_middle.trans ?_)
  rw [← hfirst]
  exact .refl _

/-! ## Reading -/

/-- A store that holds a chain with its links spells it. -/
theorem chain_eq (c : Chain) : ∀ (most : Nat) (parent prev : Option Nat), (c.linked parent prev).length ≤ most →
    c.linked parent prev ⊆ a.nodes → a.chain most c.head? = c := by
  induction c with
  | nil =>
    intro most parent prev hmost h
    cases most <;> rfl
  | leaf id op next ih =>
    intro most parent prev hmost h
    rw [Chain.linked, List.length_cons] at hmost
    cases most with
    | zero => omega
    | succ most =>
      obtain ⟨hmem, hrest⟩ := List.cons_subset.1 h
      have hnode : a.node? id = some _ := node_of_mem hmem
      have hnext := ih most parent (some id) (by omega) hrest
      rw [Chain.head?, chain, hnode]
      simp only [hnext]
  | box id op body next ihbody ihnext =>
    intro most parent prev hmost h
    rw [Chain.linked, List.length_cons, List.length_append] at hmost
    cases most with
    | zero => omega
    | succ most =>
      obtain ⟨hmem, hrest⟩ := List.cons_subset.1 h
      obtain ⟨hinside, hafter⟩ := List.append_subset.1 hrest
      have hnode : a.node? id = some _ := node_of_mem hmem
      have hbody := ihbody most (some id) none (by omega) hinside
      have hnext := ihnext most parent (some id) (by omega) hafter
      rw [Chain.head?, chain, hnode]
      simp only [hbody, hnext]

end Arena

end SpanRegex.Pattern
