import Mathlib.Data.List.Nodup
import SpanRegex.Proofs.Drafts

/-! # Nodes and their owners

The links in the store behind a pattern make its nodes a tree: each node is owned by one container, and all
are reached from the root.

* `Siblings`, `Visits`: what is reached over the links to the next node, and over those to the first
  child as well.
* `WellLinked`: how links have to fit together.
* `Chain.linked_…`: the links of a chain, by recursion on it.
* `Holds`: the nodes are those of a pattern; `Holds.wellLinked`.
* `wellLinked_of_compile`: the links that compiling has written fit together.
-/

namespace SpanRegex.Pattern
set_option autoImplicit false

/-! ## Following links -/

/-- The numbers that the node stores. -/
def Linked.Stores (n : Linked) (i : Nat) : Prop :=
  n.first = some i ∨ n.parent = some i ∨ n.prev = some i ∨ n.next = some i

/-- The links to the next node lead over these nodes to the end. -/
inductive Siblings (nodes : List Linked) : Option Nat → List Nat → Prop
  | nil : Siblings nodes none []
  | cons {n : Linked} {rest : List Nat} (mem : n ∈ nodes) (tail : Siblings nodes n.next rest) :
      Siblings nodes (some n.id) (n.id :: rest)

/-- The links to the first child, and after it to the next node, lead over these nodes, in this
order. -/
inductive Visits (nodes : List Linked) : Option Nat → List Nat → Prop
  | nil : Visits nodes none []
  | cons {n : Linked} {inner rest : List Nat} (mem : n ∈ nodes) (children : Visits nodes n.first inner)
      (siblings : Visits nodes n.next rest) : Visits nodes (some n.id) (n.id :: (inner ++ rest))

/-- The links make a tree of the nodes. -/
structure WellLinked (nodes : List Linked) (root : Nat) : Prop where
  /-- The nodes are numbered in order. -/
  numbers : nodes.map Linked.id = List.range nodes.length
  /-- Every number that is stored is that of a node. -/
  bounds : ∀ n ∈ nodes, ∀ i, n.Stores i → i < nodes.length
  /-- The root alone has no parent. -/
  orphan : ∀ n ∈ nodes, n.parent = none ↔ n.id = root
  /-- The root is the group with number 0 and has no siblings. -/
  top : ∃ n ∈ nodes, n.id = root ∧ (∃ first, n.op = .box (.group (some Slot.whole)) first) ∧
    n.prev = none ∧ n.next = none
  /-- Each node is reached from the root once. -/
  reached : ∃ order, Visits nodes (some root) order ∧ order.Perm (List.range nodes.length) ∧
    ∀ order', Visits nodes (some root) order' → order' = order
  /-- The links to the next node and to the one before are inverse to each other. -/
  inverse : ∀ a ∈ nodes, ∀ b ∈ nodes, a.next = some b.id ↔ b.prev = some a.id
  /-- Every chain ends. -/
  ends : ∀ n ∈ nodes, ∃ rest, Siblings nodes n.next rest
  /-- A container has a first child. -/
  children : ∀ n ∈ nodes, ∀ op first, n.op = .box op first → first ≠ none
  /-- A node is the parent of the chain that its first child heads, and of no other node. -/
  owned : ∀ a ∈ nodes, ∃ chain, Siblings nodes a.first chain ∧
    ∀ n ∈ nodes, n.parent = some a.id ↔ n.id ∈ chain
  /-- The child of a loop has no siblings. -/
  loops : ∀ a ∈ nodes, ∀ q first, a.op = .box (.loop q) first →
    ∃ n ∈ nodes, first = some n.id ∧ n.prev = none ∧ n.next = none
  /-- No alternative is the last of its chain. -/
  alternatives : ∀ a ∈ nodes, ∀ first, a.op = .box .alternative first → a.next ≠ none

/-- What a node asks of the nodes that it is linked to. -/
structure Linked.Stands (nodes : List Linked) (n : Linked) : Prop where
  next : ∀ i, n.next = some i → ∃ b ∈ nodes, b.id = i ∧ b.prev = some n.id
  ends : ∃ rest, Siblings nodes n.next rest
  children : ∀ op first, n.op = .box op first → first ≠ none
  owns : ∃ chain, Siblings nodes n.first chain ∧ ∀ i ∈ chain, ∃ b ∈ nodes, b.id = i ∧ b.parent = some n.id
  loops : ∀ q first, n.op = .box (.loop q) first →
    ∃ b ∈ nodes, first = some b.id ∧ b.prev = none ∧ b.next = none
  alternatives : ∀ first, n.op = .box .alternative first → n.next ≠ none

/-! ## Links of a chain -/

namespace Chain

variable {nodes : List Linked} {parent prev : Option Nat}

/-- The numbers of the nodes side by side, without their children. -/
def tops : Chain → List Nat
  | .nil => []
  | .leaf id _ next => id :: next.tops
  | .box id _ _ next => id :: next.tops

theorem linked_ids (c : Chain) : ∀ parent prev, (c.linked parent prev).map Linked.id = c.ids := by
  induction c with
  | nil => exact fun _ _ => rfl
  | leaf id op next ih => exact fun parent prev => congrArg (id :: ·) (ih parent (some id))
  | box id op body next ihbody ihnext =>
    intro parent prev
    simp only [linked, ids, List.map_cons, List.map_append, ihbody, ihnext]

theorem linked_subset_leaf {id : Nat} {op : Leaf} {next : Chain}
    (h : (Chain.leaf id op next).linked parent prev ⊆ nodes) :
    ⟨id, .leaf op, parent, prev, next.head?⟩ ∈ nodes ∧ next.linked parent (some id) ⊆ nodes :=
  List.cons_subset.1 h

theorem linked_subset_box {id : Nat} {op : Container} {body next : Chain}
    (h : (Chain.box id op body next).linked parent prev ⊆ nodes) :
    ⟨id, .box op body.head?, parent, prev, next.head?⟩ ∈ nodes ∧
      body.linked (some id) none ⊆ nodes ∧ next.linked parent (some id) ⊆ nodes := by
  obtain ⟨hmem, hrest⟩ := List.cons_subset.1 h
  exact ⟨hmem, (List.append_subset.1 hrest).1, (List.append_subset.1 hrest).2⟩

theorem siblings_linked (c : Chain) : ∀ parent prev, c.linked parent prev ⊆ nodes →
    Siblings nodes c.head? c.tops := by
  induction c with
  | nil => exact fun _ _ _ => .nil
  | leaf id op next ih =>
    intro parent prev h
    obtain ⟨hmem, hnext⟩ := linked_subset_leaf h
    exact .cons hmem (ih parent (some id) hnext)
  | box id op body next ihbody ihnext =>
    intro parent prev h
    obtain ⟨hmem, -, hnext⟩ := linked_subset_box h
    exact .cons hmem (ihnext parent (some id) hnext)

theorem visits_linked (c : Chain) : ∀ parent prev, c.linked parent prev ⊆ nodes →
    Visits nodes c.head? c.ids := by
  induction c with
  | nil => exact fun _ _ _ => .nil
  | leaf id op next ih =>
    intro parent prev h
    obtain ⟨hmem, hnext⟩ := linked_subset_leaf h
    exact .cons hmem .nil (ih parent (some id) hnext)
  | box id op body next ihbody ihnext =>
    intro parent prev h
    obtain ⟨hmem, hbody, hnext⟩ := linked_subset_box h
    exact .cons hmem (ihbody (some id) none hbody) (ihnext parent (some id) hnext)

theorem head_linked {c : Chain} {i : Nat} (h : c.head? = some i) (parent prev : Option Nat) :
    ∃ n ∈ c.linked parent prev, n.id = i ∧ n.prev = prev ∧ n.next = c.tail.head? := by
  cases c with
  | nil => simp [head?] at h
  | leaf id op next => exact ⟨_, List.mem_cons_self, Option.some.inj h, rfl, rfl⟩
  | box id op body next => exact ⟨_, List.mem_cons_self, Option.some.inj h, rfl, rfl⟩

theorem head_ne_none {c : Chain} (h : c ≠ .nil) : c.head? ≠ none := by
  cases c with
  | nil => exact absurd rfl h
  | leaf id op next => simp [head?]
  | box id op body next => simp [head?]

theorem parent_tops (c : Chain) : ∀ parent prev, ∀ i ∈ c.tops,
    ∃ n ∈ c.linked parent prev, n.id = i ∧ n.parent = parent := by
  induction c with
  | nil => exact fun _ _ i hi => absurd hi List.not_mem_nil
  | leaf id op next ih =>
    intro parent prev i hi
    rcases List.mem_cons.1 hi with rfl | hi
    · exact ⟨_, List.mem_cons_self, rfl, rfl⟩
    · obtain ⟨n, hn, hid, hparent⟩ := ih parent (some id) i hi
      exact ⟨n, List.mem_cons_of_mem _ hn, hid, hparent⟩
  | box id op body next ihbody ihnext =>
    intro parent prev i hi
    rcases List.mem_cons.1 hi with rfl | hi
    · exact ⟨_, List.mem_cons_self, rfl, rfl⟩
    · obtain ⟨n, hn, hid, hparent⟩ := ihnext parent (some id) i hi
      exact ⟨n, List.mem_cons_of_mem _ (List.mem_append_right _ hn), hid, hparent⟩

theorem next_linked {next : Chain} {id : Nat} (h : next.linked parent (some id) ⊆ nodes) {i : Nat}
    (hi : next.head? = some i) : ∃ b ∈ nodes, b.id = i ∧ b.prev = some id := by
  obtain ⟨b, hb, hid, hprev, -⟩ := head_linked hi parent (some id)
  exact ⟨b, h hb, hid, hprev⟩

theorem stands_leaf {id : Nat} {op : Leaf} {next : Chain} (h : next.linked parent (some id) ⊆ nodes) :
    Linked.Stands nodes ⟨id, .leaf op, parent, prev, next.head?⟩ where
  next i hi := next_linked h hi
  ends := ⟨next.tops, next.siblings_linked parent (some id) h⟩
  children op first hop := by simp at hop
  owns := ⟨[], .nil, fun i hi => absurd hi List.not_mem_nil⟩
  loops q first hop := by simp at hop
  alternatives first hop := by simp at hop

theorem stands_box {id : Nat} {op : Container} {body next : Chain} (hsuits : op.Suits body next)
    (hbody : body.linked (some id) none ⊆ nodes) (hnext : next.linked parent (some id) ⊆ nodes) :
    Linked.Stands nodes ⟨id, .box op body.head?, parent, prev, next.head?⟩ where
  next i hi := next_linked hnext hi
  ends := ⟨next.tops, next.siblings_linked parent (some id) hnext⟩
  children op' first hop := by
    obtain ⟨rfl, rfl⟩ := NodeOp.box.inj hop
    exact head_ne_none hsuits.children
  owns := by
    refine ⟨body.tops, body.siblings_linked (some id) none hbody, fun i hi => ?_⟩
    obtain ⟨b, hb, hid, hparent⟩ := body.parent_tops (some id) none i hi
    exact ⟨b, hbody hb, hid, hparent⟩
  loops q first hop := by
    obtain ⟨rfl, rfl⟩ := NodeOp.box.inj hop
    obtain ⟨i, hi⟩ := Option.ne_none_iff_exists'.1 (head_ne_none hsuits.children)
    obtain ⟨b, hb, hid, hprev, htail⟩ := head_linked hi (some id) none
    refine ⟨b, hbody hb, hid ▸ hi, hprev, ?_⟩
    rw [htail, hsuits.single q rfl]
    rfl
  alternatives first hop := by
    obtain ⟨rfl, rfl⟩ := NodeOp.box.inj hop
    exact head_ne_none (hsuits.following rfl)

/-- Every node of a chain finds its children and the nodes after it. -/
theorem linked_stands (c : Chain) : ∀ parent prev, c.Full → c.linked parent prev ⊆ nodes →
    ∀ n ∈ c.linked parent prev, n.Stands nodes := by
  induction c with
  | nil => exact fun _ _ _ _ n hn => absurd hn List.not_mem_nil
  | leaf id op next ih =>
    intro parent prev hfull h
    obtain ⟨-, hnext⟩ := linked_subset_leaf h
    exact List.forall_mem_cons.2 ⟨stands_leaf hnext, ih parent (some id) hfull hnext⟩
  | box id op body next ihbody ihnext =>
    intro parent prev hfull h
    obtain ⟨-, hbody, hnext⟩ := linked_subset_box h
    refine List.forall_mem_cons.2 ⟨stands_box hfull.1 hbody hnext, List.forall_mem_append.2 ⟨?_, ?_⟩⟩
    · exact ihbody (some id) none hfull.2.1 hbody
    · exact ihnext parent (some id) hfull.2.2 hnext

/-- A node is one of those side by side, or its parent is the container of the chain that it is in. -/
theorem linked_parent (c : Chain) : ∀ parent prev, c.linked parent prev ⊆ nodes →
    ∀ n ∈ c.linked parent prev, n.parent = parent ∧ n.id ∈ c.tops ∨
      ∃ a ∈ nodes, n.parent = some a.id ∧ ∃ chain, Siblings nodes a.first chain ∧ n.id ∈ chain := by
  induction c with
  | nil => exact fun _ _ _ n hn => absurd hn List.not_mem_nil
  | leaf id op next ih =>
    intro parent prev h
    obtain ⟨-, hnext⟩ := linked_subset_leaf h
    refine List.forall_mem_cons.2 ⟨.inl ⟨rfl, List.mem_cons_self⟩, fun n hn => ?_⟩
    exact (ih parent (some id) hnext n hn).imp_left fun hown => ⟨hown.1, List.mem_cons_of_mem _ hown.2⟩
  | box id op body next ihbody ihnext =>
    intro parent prev h
    obtain ⟨hmem, hbody, hnext⟩ := linked_subset_box h
    refine List.forall_mem_cons.2 ⟨.inl ⟨rfl, List.mem_cons_self⟩, List.forall_mem_append.2
      ⟨fun n hn => .inr ?_, fun n hn => ?_⟩⟩
    · rcases ihbody (some id) none hbody n hn with ⟨hparent, htop⟩ | hinner
      · exact ⟨_, hmem, hparent, body.tops, body.siblings_linked _ _ hbody, htop⟩
      · exact hinner
    · exact (ihnext parent (some id) hnext n hn).imp_left fun hown =>
        ⟨hown.1, List.mem_cons_of_mem _ hown.2⟩

/-- A node that follows another is linked from it; the others head a chain. -/
theorem linked_prev (c : Chain) : ∀ parent prev, c.linked parent prev ⊆ nodes →
    ∀ n ∈ c.linked parent prev, n.prev = none ∨ n.prev = prev ∧ c.head? = some n.id ∨
      ∃ a ∈ nodes, n.prev = some a.id ∧ a.next = some n.id := by
  induction c with
  | nil => exact fun _ _ _ n hn => absurd hn List.not_mem_nil
  | leaf id op next ih =>
    intro parent prev h
    obtain ⟨hmem, hnext⟩ := linked_subset_leaf h
    refine List.forall_mem_cons.2 ⟨.inr (.inl ⟨rfl, rfl⟩), fun n hn => ?_⟩
    rcases ih parent (some id) hnext n hn with hnone | ⟨hprev, hhead⟩ | hafter
    · exact .inl hnone
    · exact .inr (.inr ⟨_, hmem, hprev, hhead⟩)
    · exact .inr (.inr hafter)
  | box id op body next ihbody ihnext =>
    intro parent prev h
    obtain ⟨hmem, hbody, hnext⟩ := linked_subset_box h
    refine List.forall_mem_cons.2 ⟨.inr (.inl ⟨rfl, rfl⟩), List.forall_mem_append.2
      ⟨fun n hn => ?_, fun n hn => ?_⟩⟩
    · rcases ihbody (some id) none hbody n hn with hnone | ⟨hprev, -⟩ | hafter
      · exact .inl hnone
      · exact .inl hprev
      · exact .inr (.inr hafter)
    · rcases ihnext parent (some id) hnext n hn with hnone | ⟨hprev, hhead⟩ | hafter
      · exact .inl hnone
      · exact .inr (.inr ⟨_, hmem, hprev, hhead⟩)
      · exact .inr (.inr hafter)

end Chain

/-! ## One node for each number -/

section

variable {nodes : List Linked} (hids : (nodes.map Linked.id).Nodup)

include hids

theorem eq_of_id {a b : Linked} (ha : a ∈ nodes) (hb : b ∈ nodes) (h : a.id = b.id) : a = b :=
  List.inj_on_of_nodup_map hids ha hb h

theorem Siblings.unique {link : Option Nat} {l l' : List Nat} (h : Siblings nodes link l)
    (h' : Siblings nodes link l') : l' = l := by
  induction h generalizing l' with
  | nil => cases h'; rfl
  | @cons n rest mem tail ih =>
    generalize hlink : some n.id = link at h'
    cases h' with
    | nil => simp at hlink
    | @cons n' rest' mem' tail' =>
      obtain rfl := eq_of_id hids mem mem' (Option.some.inj hlink)
      rw [ih tail']

theorem Visits.unique {link : Option Nat} {l l' : List Nat} (h : Visits nodes link l)
    (h' : Visits nodes link l') : l' = l := by
  induction h generalizing l' with
  | nil => cases h'; rfl
  | @cons n inner rest mem children siblings ihchildren ihsiblings =>
    generalize hlink : some n.id = link at h'
    cases h' with
    | nil => simp at hlink
    | @cons n' inner' rest' mem' children' siblings' =>
      obtain rfl := eq_of_id hids mem mem' (Option.some.inj hlink)
      rw [ihchildren children', ihsiblings siblings']

end

/-! ## The nodes of a pattern -/

/-- The nodes are those of the pattern, numbered in order. -/
structure Holds (p : Pattern) (nodes : List Linked) : Prop where
  full : p.tree.Full
  perm : nodes.Perm (p.tree.linked none none)
  numbers : nodes.map Linked.id = List.range nodes.length

namespace Holds

variable {p : Pattern} {nodes : List Linked} (h : p.Holds nodes)

include h

theorem nodup : (nodes.map Linked.id).Nodup := h.numbers ▸ List.nodup_range

theorem subset : p.tree.linked none none ⊆ nodes := h.perm.symm.subset

theorem root : (⟨p.rootId, .box (.group (some Slot.whole)) p.body.head?, none, none, none⟩ : Linked) ∈
    nodes :=
  (Chain.linked_subset_box h.subset).1

theorem lt {n : Linked} (hn : n ∈ nodes) : n.id < nodes.length := by
  rw [← List.mem_range, ← h.numbers]
  exact List.mem_map_of_mem hn

theorem stands {n : Linked} (hn : n ∈ nodes) : n.Stands nodes :=
  p.tree.linked_stands none none h.full h.subset n (h.perm.subset hn)

theorem parent {n : Linked} (hn : n ∈ nodes) :
    (n.parent = none ∧ n.id ∈ p.tree.tops) ∨ ∃ a ∈ nodes, n.parent = some a.id ∧
      ∃ chain, Siblings nodes a.first chain ∧ n.id ∈ chain :=
  p.tree.linked_parent none none h.subset n (h.perm.subset hn)

theorem prev {n : Linked} (hn : n ∈ nodes) {i : Nat} (hi : n.prev = some i) :
    ∃ a ∈ nodes, a.id = i ∧ a.next = some n.id := by
  rcases p.tree.linked_prev none none h.subset n (h.perm.subset hn) with
    hnone | ⟨hnone, -⟩ | ⟨a, ha, hid, hafter⟩
  · simp [hnone] at hi
  · simp [hnone] at hi
  · exact ⟨a, ha, Option.some.inj (hid.symm.trans hi), hafter⟩

theorem siblings_lt {i : Nat} {chain : List Nat} (hchain : Siblings nodes (some i) chain) :
    i < nodes.length := by
  generalize hlink : some i = link at hchain
  cases hchain with
  | nil => simp at hlink
  | cons mem tail => exact Option.some.inj hlink ▸ h.lt mem

theorem bounds {n : Linked} (hn : n ∈ nodes) {i : Nat} (hi : n.Stores i) : i < nodes.length := by
  rcases hi with hfirst | hup | hbefore | hafter
  · obtain ⟨chain, hchain, -⟩ := (h.stands hn).owns
    exact h.siblings_lt (hfirst ▸ hchain)
  · rcases h.parent hn with ⟨hnone, -⟩ | ⟨a, ha, hid, -⟩
    · simp [hnone] at hup
    · exact Option.some.inj (hid.symm.trans hup) ▸ h.lt ha
  · obtain ⟨a, ha, rfl, -⟩ := h.prev hn hbefore
    exact h.lt ha
  · obtain ⟨rest, hrest⟩ := (h.stands hn).ends
    exact h.siblings_lt (hafter ▸ hrest)

theorem orphan {n : Linked} (hn : n ∈ nodes) : n.parent = none ↔ n.id = p.rootId := by
  constructor
  · intro hnone
    rcases h.parent hn with ⟨-, htop⟩ | ⟨a, -, hid, -⟩
    · simpa [Pattern.tree, Chain.tops] using htop
    · simp [hnone] at hid
  · intro hid
    rw [eq_of_id h.nodup hn h.root hid]

theorem reached : ∃ order, Visits nodes (some p.rootId) order ∧ order.Perm (List.range nodes.length) ∧
    ∀ order', Visits nodes (some p.rootId) order' → order' = order := by
  have hvisits := p.tree.visits_linked none none h.subset
  have horder : p.tree.ids.Perm (List.range nodes.length) := by
    rw [← h.numbers, ← p.tree.linked_ids none none]
    exact (h.perm.map Linked.id).symm
  exact ⟨p.tree.ids, hvisits, horder, fun order' h' => hvisits.unique h.nodup h'⟩

theorem inverse {a b : Linked} (ha : a ∈ nodes) (hb : b ∈ nodes) :
    a.next = some b.id ↔ b.prev = some a.id := by
  constructor
  · intro hnext
    obtain ⟨b', hb', hid, hbefore⟩ := (h.stands ha).next b.id hnext
    rwa [eq_of_id h.nodup hb' hb hid] at hbefore
  · intro hbefore
    obtain ⟨a', ha', hid, hafter⟩ := h.prev hb hbefore
    rwa [eq_of_id h.nodup ha' ha hid] at hafter

theorem owned {a : Linked} (ha : a ∈ nodes) : ∃ chain, Siblings nodes a.first chain ∧
    ∀ n ∈ nodes, n.parent = some a.id ↔ n.id ∈ chain := by
  obtain ⟨chain, hchain, howns⟩ := (h.stands ha).owns
  refine ⟨chain, hchain, fun n hn => ⟨fun hup => ?_, fun hin => ?_⟩⟩
  · rcases h.parent hn with ⟨hnone, -⟩ | ⟨a', ha', hid, chain', hchain', hin⟩
    · simp [hnone] at hup
    · obtain rfl := eq_of_id h.nodup ha' ha (Option.some.inj (hid.symm.trans hup))
      rwa [hchain.unique h.nodup hchain'] at hin
  · obtain ⟨b, hb, hid, hup⟩ := howns n.id hin
    rwa [eq_of_id h.nodup hb hn hid] at hup

theorem wellLinked : WellLinked nodes p.rootId where
  numbers := h.numbers
  bounds _ hn _ hi := h.bounds hn hi
  orphan _ hn := h.orphan hn
  top := ⟨_, h.root, rfl, ⟨_, rfl⟩, rfl, rfl⟩
  reached := h.reached
  inverse _ ha _ hb := h.inverse ha hb
  ends _ hn := (h.stands hn).ends
  children _ hn := (h.stands hn).children
  owned _ ha := h.owned ha
  loops _ ha := (h.stands ha).loops
  alternatives _ ha := (h.stands ha).alternatives

end Holds

theorem linked_numbers {p : Pattern} (h : p.Numbered) :
    p.linked.map Linked.id = List.range p.linked.length := by
  have hperm : (p.linked.map Linked.id).Perm (List.range p.linked.length) := by
    have hids : (p.linked.map Linked.id).Perm (List.range p.size) :=
      ((List.mergeSort_perm _ _).map Linked.id).trans ((p.tree.linked_ids none none).symm ▸ h.perm)
    have hlen := hids.length_eq
    rw [List.length_map, List.length_range] at hlen
    exact hlen ▸ hids
  have hsorted : (p.linked.map Linked.id).Pairwise (· ≤ ·) := by
    rw [List.pairwise_map]
    have hpair : p.linked.Pairwise fun a b => decide (a.id ≤ b.id) = true :=
      List.pairwise_mergeSort (by simpa using fun a b c => Nat.le_trans)
        (by simpa using fun a b => Nat.le_total _ _) _
    exact hpair.imp fun hle => of_decide_eq_true hle
  exact hperm.eq_of_pairwise (fun _ _ _ _ => Nat.le_antisymm) hsorted
    (List.pairwise_lt_range.imp Nat.le_of_lt)

/-- Nodes that are numbered in order have no other order. -/
theorem eq_of_numbers {nodes nodes' : List Linked} (hperm : nodes.Perm nodes')
    (h : nodes.map Linked.id = List.range nodes.length) (h' : nodes'.map Linked.id = List.range nodes'.length) :
    nodes = nodes' := by
  have hsorted : ∀ {row : List Linked}, row.map Linked.id = List.range row.length →
      row.Pairwise fun a b => a.id < b.id := by
    intro row hrow
    rw [← List.pairwise_map, hrow]
    exact List.pairwise_lt_range
  exact hperm.eq_of_pairwise (fun a b _ _ hab hba => absurd hab (Nat.lt_asymm hba)) (hsorted h) (hsorted h')

/-- When a text compiles, the links that have been written in the store make a tree of its nodes. They are
those of the compiled pattern, by number. -/
theorem wellLinked_of_compile {o : Options} {cs : List Char} {p : Pattern} (h : compile o cs = .ok p) :
    ∃ l, layout o cs = .ok l ∧ l.pattern o = p ∧ l.root = p.rootId ∧ l.arena.nodes = p.linked ∧
      WellLinked l.arena.nodes l.root := by
  obtain ⟨l, hlayout, hpattern, hdraws⟩ := layout_of_compile h
  have hnumbered := numbered_of_compile h
  have hlinked : l.arena.nodes = p.linked :=
    eq_of_numbers (hdraws.nodes.trans (List.mergeSort_perm _ _).symm) l.arena.numbered (linked_numbers hnumbered)
  have hholds : p.Holds l.arena.nodes := ⟨hnumbered.full, hdraws.nodes, l.arena.numbered⟩
  exact ⟨l, hlayout, hpattern, hdraws.root, hlinked, hdraws.root ▸ hholds.wellLinked⟩

/-- The parents, the nodes before and the nodes after of the eight nodes of `(?:a|)*|b`, by number. -/
example :
    (layout {} "(?:a|)*|b".toList).map (fun l => l.arena.nodes.map fun n => (n.parent, n.prev, n.next)) =
      .ok [(some 2, none, none), (some 3, some 2, none), (some 3, none, some 1), (some 5, none, none),
        (some 7, some 6, none), (some 6, none, none), (some 7, none, some 4), (none, none, none)] := by
  decide +kernel

/-- The pattern `(?:a|)*|b`. -/
def splitLoop : Pattern where
  options := {}
  names := .empty
  body :=
    .box 6 .alternative
      (.box 5 (.loop ⟨0, none, false⟩)
        (.box 3 (.group none)
          (.box 2 .alternative (.leaf 0 (.unit (.literal 97)) .nil) (.leaf 1 .empty .nil)) .nil) .nil)
      (.leaf 4 (.unit (.literal 98)) .nil)
  rootId := 7

/-- The eight nodes of `(?:a|)*|b` are linked. -/
theorem wellLinked_splitLoop :
    compile {} "(?:a|)*|b".toList = .ok splitLoop ∧
    ∃ l, layout {} "(?:a|)*|b".toList = .ok l ∧ l.pattern {} = splitLoop ∧ l.root = 7 ∧
      l.arena.nodes = splitLoop.linked ∧ WellLinked l.arena.nodes l.root := by
  have h : compile {} "(?:a|)*|b".toList = .ok splitLoop := by decide +kernel
  exact ⟨h, wellLinked_of_compile h⟩

end SpanRegex.Pattern
