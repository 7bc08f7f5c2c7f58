import SpanRegex.Proofs.Builder

/-! # The numbers of nodes

Each node of a compiled pattern has a number of its own, and every container has the children that it
should have.

* `Chain.ids`: the numbers in use.
* `Container.Suits`, `Chain.Full`: no container is empty, a loop has one child, and siblings follow
  an alternative.
* `Adds`: the numbers from one bound up to another come into use, once each.
* `Builder.Takes`: what a builder makes of a token; `Builder.add_eq_ok`, `Builder.addAll_cons`.
* `Builder.Sound`: what holds between two tokens; `Builder.Sound.add` preserves it.
* `Numbered`, `numbered_of_build`: what holds of the finished tree.
-/

namespace SpanRegex.Pattern
set_option autoImplicit false

/-! ## Numbers in a tree -/

/-- The numbers of the nodes of a chain, children included. -/
def Chain.ids : Chain → List Nat
  | .nil => []
  | .leaf id _ next => id :: next.ids
  | .box id _ body next => id :: (body.ids ++ next.ids)

/-- The siblings after the first node. -/
def Chain.tail : Chain → Chain
  | .nil => .nil
  | .leaf _ _ next => next
  | .box _ _ _ next => next

/-- A container may have these children and be followed by these siblings. -/
structure Container.Suits (op : Container) (body next : Chain) : Prop where
  children : body ≠ .nil
  following : op = .alternative → next ≠ .nil
  single : ∀ q, op = .loop q → body.tail = .nil

/-- Every container has the children and the siblings that it should have. -/
def Chain.Full : Chain → Prop
  | .nil => True
  | .leaf _ _ next => next.Full
  | .box _ op body next => op.Suits body next ∧ body.Full ∧ next.Full

/-- The container is written with brackets: it is neither an alternative nor a loop. -/
def Container.Bracket (op : Container) : Prop := op ≠ .alternative ∧ ∀ q, op ≠ .loop q

theorem Container.Bracket.suits {op : Container} (h : op.Bracket) {body : Chain} (hne : body ≠ .nil)
    (next : Chain) : op.Suits body next :=
  ⟨hne, fun halternative => absurd halternative h.1, fun q hloop => absurd hloop (h.2 q)⟩

theorem Container.Bracket.group (capture : Option Slot) : (Container.group capture).Bracket := by
  simp [Bracket]

theorem Container.Bracket.look (look : Look) : (Container.look look).Bracket := by simp [Bracket]

def Node.ids (n : Node) : List Nat := (n.before .nil).ids

def Node.Full (n : Node) : Prop := (n.before .nil).Full

theorem Chain.mem_ids_of_body {id i : Nat} {op : Container} {body next : Chain}
    (h : i ∈ body.ids) : i ∈ (Chain.box id op body next).ids :=
  List.mem_cons_of_mem _ (List.mem_append_left _ h)

theorem Chain.mem_ids_of_next {id i : Nat} {op : Container} {body next : Chain}
    (h : i ∈ next.ids) : i ∈ (Chain.box id op body next).ids :=
  List.mem_cons_of_mem _ (List.mem_append_right _ h)

theorem Chain.ids_before (n : Node) (next : Chain) : (n.before next).ids = n.ids ++ next.ids := by
  cases n <;> simp [Node.ids, Node.before, Chain.ids]

theorem Chain.full_before {n : Node} {next : Chain} (hn : n.Full) (hnext : next.Full) :
    (n.before next).Full := by
  cases n with
  | leaf id op => exact hnext
  | box id op body =>
    obtain ⟨⟨hchildren, hfollowing, hsingle⟩, hbody, -⟩ := hn
    exact ⟨⟨hchildren, fun h => absurd rfl (hfollowing h), hsingle⟩, hbody, hnext⟩

theorem Chain.ids_ofNodes (nodes : List Node) : (Chain.ofNodes nodes).ids = nodes.flatMap Node.ids := by
  induction nodes with
  | nil => rfl
  | cons n nodes ih =>
    rw [Chain.ofNodes, List.foldr_cons, Chain.ids_before, List.flatMap_cons, ← ih, Chain.ofNodes]

theorem Chain.full_ofNodes {nodes : List Node} (h : ∀ n ∈ nodes, n.Full) : (Chain.ofNodes nodes).Full := by
  induction nodes with
  | nil => trivial
  | cons n nodes ih =>
    obtain ⟨hn, hnodes⟩ := List.forall_mem_cons.1 h
    exact Chain.full_before hn (ih hnodes)

theorem Chain.ofNodes_ne_nil {nodes : List Node} (h : nodes ≠ []) : Chain.ofNodes nodes ≠ .nil := by
  cases nodes with
  | nil => exact absurd rfl h
  | cons n nodes => cases n <;> simp [Chain.ofNodes, Node.before]

/-! ## Sequences -/

def Item.ids : Item → List Nat
  | .atom node => node.ids
  | _ => []

def Item.Full : Item → Prop
  | .atom node => node.Full
  | _ => True

/-- The new numbers are the old ones and those from `next` up to `next'`. -/
structure Adds (next next' : Nat) (old new : List Nat) : Prop where
  le : next ≤ next'
  perm : new.Perm (old ++ List.range' next (next' - next))

theorem Adds.trans {a b c : Nat} {old mid new : List Nat} (h : Adds a b old mid)
    (h' : Adds b c mid new) : Adds a c old new := by
  refine ⟨Nat.le_trans h.le h'.le, h'.perm.trans ?_⟩
  have hr : List.range' a (c - a) = List.range' a (b - a) ++ List.range' b (c - b) := by
    have h1 := h.le
    have h2 := h'.le
    rw [show c - a = (b - a) + (c - b) by omega, ← List.range'_append_1, show a + (b - a) = b by omega]
  rw [hr, ← List.append_assoc]
  exact h.perm.append_right _

theorem Adds.one (n : Nat) (old : List Nat) : Adds n (n + 1) old (n :: old) := by
  refine ⟨Nat.le_succ n, ?_⟩
  have hr : List.range' n (n + 1 - n) = [n] := by simp
  rw [hr]
  exact (List.perm_append_singleton n old).symm

theorem Adds.of_perm {n n' : Nat} {old old' new new' : List Nat} (h : Adds n n' old new)
    (ho : old.Perm old') (hn : new.Perm new') : Adds n n' old' new' :=
  ⟨h.le, hn.symm.trans (h.perm.trans (ho.append_right _))⟩

theorem Adds.append_left {n n' : Nat} {old new : List Nat} (xs : List Nat) (h : Adds n n' old new) :
    Adds n n' (xs ++ old) (xs ++ new) := by
  refine ⟨h.le, ?_⟩
  rw [List.append_assoc]
  exact h.perm.append_left xs

theorem Adds.refl (n : Nat) (old : List Nat) : Adds n n old old :=
  ⟨Nat.le_refl n, by simp⟩

/-- What is in use up to `n` is in use up to `n'` after the new numbers are added. -/
theorem Adds.perm_range {n n' : Nat} {old new rest : List Nat} (h : Adds n n' old new)
    (hr : (old ++ rest).Perm (List.range n)) : (new ++ rest).Perm (List.range n') := by
  have hsplit : List.range n' = List.range n ++ List.range' n (n' - n) := by
    have hle := h.le
    rw [List.range_eq_range', List.range_eq_range', show n' = n + (n' - n) by omega,
      ← List.range'_append_1, Nat.add_sub_cancel_left, Nat.zero_add]
  rw [hsplit]
  refine ((h.perm.append_right rest).trans ?_).trans (hr.append_right _)
  rw [List.append_assoc, List.append_assoc]
  exact List.perm_append_comm.append_left old

namespace Sequence

theorem ids_emptyNode (id : Nat) : (emptyNode id).ids = [id] := rfl

theorem ids_loopNode (id : Nat) (q : Quantifier) (atom : Node) :
    (loopNode id q atom).ids = id :: atom.ids := by
  simp [loopNode, Node.ids, Node.before, Chain.ids, Chain.ids_ofNodes]

theorem full_loopNode {id : Nat} {q : Quantifier} {atom : Node} (h : atom.Full) :
    (loopNode id q atom).Full := by
  refine ⟨⟨Chain.ofNodes_ne_nil (List.cons_ne_nil _ _), by simp, fun _ _ => ?_⟩,
    Chain.full_ofNodes (by simpa using h), trivial⟩
  cases atom <;> rfl

theorem alternatives_adds (items : List Item) : ∀ (next : Nat) (run : List Node),
    Adds next (alternatives next run items).2 (run.flatMap Node.ids ++ items.flatMap Item.ids)
      ((alternatives next run items).1.flatten.flatMap Node.ids) := by
  -- `run` holds the nodes of the alternative that is being read, in reverse.
  induction items with
  | nil =>
    intro next run
    cases run with
    | nil => exact Adds.one next []
    | cons node run =>
      refine (Adds.refl next _).of_perm (List.Perm.refl _) ?_
      simp only [alternatives, List.flatten_singleton, List.flatMap_nil, List.append_nil]
      exact ((List.reverse_perm _).flatMap_right _).symm
  | cons item items ih =>
    intro next run
    cases item with
    | atom node =>
      refine (ih next (node :: run)).of_perm ?_ (List.Perm.refl _)
      simp only [List.flatMap_cons, Item.ids, ← List.append_assoc]
      exact List.perm_append_comm.append_right _
    | bar =>
      cases run with
      | nil =>
        have h := (Adds.one next _).trans ((ih (next + 1) []).append_left [next])
        simpa [alternatives, Item.ids, ids_emptyNode] using h
      | cons node run =>
        have h := (ih next []).append_left ((node :: run).flatMap Node.ids)
        refine h.of_perm (by simp [Item.ids]) ?_
        simp only [alternatives, List.flatten_cons, List.flatMap_append]
        exact (((List.reverse_perm _).flatMap_right _).symm).append_right _
    | quantifier q =>
      cases run with
      | nil =>
        have h := ih (next + 2) [loopNode (next + 1) q (emptyNode next)]
        have h2 := ((Adds.one next (items.flatMap Item.ids)).trans (Adds.one (next + 1) _)).trans
          (h.of_perm (by simp [ids_loopNode, ids_emptyNode]) (List.Perm.refl _))
        simpa [alternatives, Item.ids] using h2
      | cons node run =>
        have h := ih (next + 1) (loopNode next q node :: run)
        have h2 := (Adds.one next ((node :: run).flatMap Node.ids ++ items.flatMap Item.ids)).trans
          (h.of_perm (by simp [ids_loopNode]) (List.Perm.refl _))
        simpa [alternatives, Item.ids] using h2

theorem alternatives_full (items : List Item) (hi : ∀ item ∈ items, item.Full) :
    ∀ (next : Nat) (run : List Node), (∀ node ∈ run, node.Full) →
      (alternatives next run items).1 ≠ [] ∧
        ∀ nodes ∈ (alternatives next run items).1, nodes ≠ [] ∧ ∀ node ∈ nodes, node.Full := by
  induction items with
  | nil =>
    intro next run hrun
    cases run with
    | nil => simp [alternatives, emptyNode, Node.Full, Node.before, Chain.Full]
    | cons node run => simpa [alternatives, or_imp, forall_and, and_comm] using hrun
  | cons item items ih =>
    intro next run hrun
    obtain ⟨hitem, hitems⟩ := List.forall_mem_cons.1 hi
    cases item with
    | atom node => exact ih hitems next (node :: run) (List.forall_mem_cons.2 ⟨hitem, hrun⟩)
    | bar =>
      cases run with
      | nil =>
        obtain ⟨-, h⟩ := ih hitems (next + 1) [] (by simp)
        refine ⟨List.cons_ne_nil _ _, List.forall_mem_cons.2 ⟨?_, h⟩⟩
        simp [emptyNode, Node.Full, Node.before, Chain.Full]
      | cons node run =>
        obtain ⟨-, h⟩ := ih hitems next [] (by simp)
        refine ⟨List.cons_ne_nil _ _, List.forall_mem_cons.2 ⟨⟨by simp, ?_⟩, h⟩⟩
        simpa [or_imp, forall_and, and_comm] using hrun
    | quantifier q =>
      cases run with
      | nil =>
        refine ih hitems (next + 2) _ (List.forall_mem_cons.2 ⟨full_loopNode ?_, by simp⟩)
        simp [emptyNode, Node.Full, Node.before, Chain.Full]
      | cons node run =>
        obtain ⟨hnode, hrun⟩ := List.forall_mem_cons.1 hrun
        exact ih hitems (next + 1) _ (List.forall_mem_cons.2 ⟨full_loopNode hnode, hrun⟩)

theorem chain_adds (runs : List (List Node)) : ∀ next : Nat,
    Adds next (chain next runs).2 (runs.flatten.flatMap Node.ids) (chain next runs).1.ids := by
  induction runs with
  | nil => intro next; exact Adds.refl next []
  | cons first rest ih =>
    intro next
    cases rest with
    | nil =>
      refine (Adds.refl next _).of_perm (List.Perm.refl _) ?_
      simp [chain, Chain.ids_ofNodes]
    | cons second rest =>
      have h := (Adds.one next _).trans
        ((ih (next + 1)).append_left (next :: first.flatMap Node.ids))
      refine h.of_perm ?_ ?_
      · simp
      · simp [chain, Chain.ids, Chain.ids_ofNodes]

theorem chain_full (runs : List (List Node))
    (h : ∀ nodes ∈ runs, nodes ≠ [] ∧ ∀ node ∈ nodes, node.Full) : ∀ next : Nat,
    (chain next runs).1.Full ∧ (runs ≠ [] → (chain next runs).1 ≠ .nil) := by
  induction runs with
  | nil => intro next; simp [chain, Chain.Full]
  | cons first rest ih =>
    intro next
    obtain ⟨⟨hne, hfirst⟩, hrest⟩ := List.forall_mem_cons.1 h
    cases rest with
    | nil =>
      exact ⟨Chain.full_ofNodes hfirst, fun _ => Chain.ofNodes_ne_nil hne⟩
    | cons second rest =>
      obtain ⟨hothers, hne'⟩ := ih hrest (next + 1)
      refine ⟨⟨⟨Chain.ofNodes_ne_nil hne, fun _ => hne' (List.cons_ne_nil _ _), by simp⟩,
        Chain.full_ofNodes hfirst, hothers⟩, fun _ => by simp [chain]⟩

theorem assemble_adds (next : Nat) (items : List Item) :
    Adds next (assemble next items).2 (items.flatMap Item.ids) (assemble next items).1.ids := by
  have h := (alternatives_adds items next []).trans (chain_adds _ _)
  simpa [assemble] using h

theorem assemble_full (next : Nat) (items : List Item) (h : ∀ item ∈ items, item.Full) :
    (assemble next items).1.Full ∧ (assemble next items).1 ≠ .nil := by
  obtain ⟨hne, hruns⟩ := alternatives_full items h next [] (by simp)
  obtain ⟨hfull, hnil⟩ := chain_full _ hruns (alternatives next [] items).2
  exact ⟨hfull, hnil hne⟩

end Sequence

/-! ## Builders -/

namespace Builder

/-- What the builder makes of a token that is no error. The position does not matter. -/
inductive Takes (b : Builder) : Token → Builder → Prop
  | opening (kind : Opening) : b.Takes (.opening kind) (b.openGroup kind)
  | closing {g : OpenGroup} {outer : List OpenGroup} (innermost : b.outer = g :: outer) :
      b.Takes .closing
        { b with
          items := .atom (.box (Sequence.assemble b.next b.items.reverse).2 g.op
            (Sequence.assemble b.next b.items.reverse).1) :: g.before
          next := (Sequence.assemble b.next b.items.reverse).2 + 1
          outer }
  | bar : b.Takes .bar { b with items := .bar :: b.items }
  | quantifier (q : Quantifier) : b.Takes (.quantifier q) { b with items := .quantifier q :: b.items }
  | literal (c : Char) : b.Takes (.literal c) (b.addLiteral c)
  | leaf (op : Leaf) : b.Takes (.leaf op) (b.addLeaf op)
  | reference {name : String} {slot : SlotIndex} (known : b.names.lookup name = some slot) :
      b.Takes (.referenceName name) (b.addLeaf (.reference (.named slot)))
  | cross {name : String} {slot : SlotIndex} (ignoreCase : Bool) (known : b.names.lookup name = some slot) :
      b.Takes (.crossName name ignoreCase) (b.addLeaf (.cross (.slot (.named slot)) ignoreCase))
  | want {name : String} (ignoreCase : Bool) (unknown : b.names.lookup name = none) :
      b.Takes (.crossName name ignoreCase)
        (addLeaf { b with names := b.names.want name } (.cross (.unresolved name) ignoreCase))

theorem add_eq_ok {b b' : Builder} {pos : Nat} {token : Token} : b.add pos token = .ok b' ↔ b.Takes token b' := by
  constructor
  · intro h
    cases token with
    | opening kind => exact Except.ok.inj h ▸ .opening kind
    | closing =>
      simp only [add] at h
      split at h
      · cases h
      · exact Except.ok.inj h ▸ .closing ‹_›
    | bar => exact Except.ok.inj h ▸ .bar
    | quantifier q => exact Except.ok.inj h ▸ .quantifier q
    | literal c => exact Except.ok.inj h ▸ .literal c
    | leaf op => exact Except.ok.inj h ▸ .leaf op
    | referenceName name =>
      simp only [add] at h
      split at h
      · exact Except.ok.inj h ▸ .reference ‹_›
      · cases h
    | crossName name ignoreCase =>
      simp only [add] at h
      split at h
      · exact Except.ok.inj h ▸ .cross ignoreCase ‹_›
      · exact Except.ok.inj h ▸ .want ignoreCase ‹_›
  · intro h
    cases h with
    | opening kind => rfl
    | closing innermost => simp only [add, innermost]
    | bar => rfl
    | quantifier q => rfl
    | literal c => rfl
    | leaf op => rfl
    | reference known => simp only [add, known]
    | cross ignoreCase known => simp only [add, known]
    | want ignoreCase unknown => simp only [add, unknown]

theorem addAll_cons {b b' : Builder} {entry : Nat × Token} {tokens : List (Nat × Token)} :
    b.addAll (entry :: tokens) = .ok b' ↔ ∃ b₁, b.Takes entry.2 b₁ ∧ b₁.addAll tokens = .ok b' := by
  constructor
  · intro h
    simp only [addAll] at h
    split at h
    · exact ⟨_, add_eq_ok.1 ‹_›, h⟩
    · cases h
  · rintro ⟨b₁, htakes, hrest⟩
    have hadd : b.add entry.1 entry.2 = .ok b₁ := add_eq_ok.2 htakes
    simp only [addAll, hadd, hrest]

def ids (b : Builder) : List Nat :=
  b.items.flatMap Item.ids ++ b.outer.flatMap fun g => g.before.flatMap Item.ids

/-- Each number below the next one is in use once, and every container is as it should be. -/
structure Sound (b : Builder) : Prop where
  perm : b.ids.Perm (List.range b.next)
  items : ∀ item ∈ b.items, item.Full
  outer : ∀ g ∈ b.outer, g.op.Bracket ∧ ∀ item ∈ g.before, item.Full

theorem Sound.empty : Sound {} := ⟨List.Perm.refl _, by simp, by simp⟩

/-- An item that takes the numbers from `next` up to `next'` leaves the builder sound. -/
theorem Sound.add_item {b : Builder} (h : b.Sound) (item : Item) (next' : Nat)
    (hids : Adds b.next next' [] item.ids) (hfull : item.Full) :
    Sound { b with items := item :: b.items, next := next' } := by
  refine ⟨?_, List.forall_mem_cons.2 ⟨hfull, h.items⟩, h.outer⟩
  rw [show ids { b with items := item :: b.items, next := next' } = item.ids ++ b.ids by simp [ids]]
  exact hids.perm_range h.perm

theorem Sound.addLeaf {b : Builder} (h : b.Sound) (op : Leaf) : (b.addLeaf op).Sound :=
  h.add_item (.atom (.leaf b.next op)) (b.next + 1) (Adds.one b.next []) trivial

theorem ids_mapIdx_leaf (units : List CodeUnit) (op : CodeUnit → Leaf) : ∀ n : Nat,
    (units.mapIdx fun i u => Node.leaf (n + i) (op u)).flatMap Node.ids =
      List.range' n units.length := by
  induction units with
  | nil => intro n; rfl
  | cons u units ih =>
    intro n
    have hf : (fun (i : Nat) (v : CodeUnit) => Node.leaf (n + (i + 1)) (op v)) =
        fun i v => Node.leaf (n + 1 + i) (op v) := by
      funext i v
      rw [Nat.add_assoc, Nat.add_comm 1 i]
    rw [List.mapIdx_cons, hf, List.flatMap_cons, ih (n + 1), List.length_cons, List.range'_succ]
    rfl

theorem Sound.addLiteral {b : Builder} (h : b.Sound) (c : Char) : (b.addLiteral c).Sound := by
  unfold Builder.addLiteral
  split
  · exact h.addLeaf _
  · rename_i units hunits
    refine h.add_item _ _ ⟨by simp; omega, ?_⟩
      ⟨(Container.Bracket.group none).suits (Chain.ofNodes_ne_nil ?_) _, Chain.full_ofNodes ?_, trivial⟩
    · simp only [Item.ids, Node.ids, Node.before, Chain.ids, Chain.ids_ofNodes, ids_mapIdx_leaf,
        List.length_mapIdx, List.append_nil, List.nil_append]
      rw [show b.next + (CodeUnit.ofChar c).length + 1 - b.next = (CodeUnit.ofChar c).length + 1 by
        omega, List.range'_concat]
      simpa using (List.perm_append_singleton _ _).symm
    · unfold CodeUnit.ofChar
      split <;> simp
    · intro node hnode
      obtain ⟨i, hi, rfl⟩ := List.mem_mapIdx.1 hnode
      trivial

theorem Sound.push {b : Builder} (h : b.Sound) {op : Container} (hop : op.Bracket) : (b.push op).Sound := by
  refine ⟨?_, by simp [Builder.push], ?_⟩
  · simpa [Builder.push, ids] using h.perm
  · exact List.forall_mem_cons.2 ⟨⟨hop, h.items⟩, h.outer⟩

theorem Sound.openGroup {b : Builder} (h : b.Sound) (kind : Opening) : (b.openGroup kind).Sound := by
  cases kind with
  | plain =>
    simp only [Builder.openGroup]
    split
    · exact Sound.push (b := { b with groups := b.groups + 1 }) ⟨h.perm, h.items, h.outer⟩
        (.group _)
    · exact h.push (.group _)
  | silent => exact h.push (.group _)
  | named name =>
    simp only [Builder.openGroup]
    split
    · exact h.push (.group _)
    · exact Sound.push (b := { b with names := (b.names.define name).1 })
        ⟨h.perm, h.items, h.outer⟩ (.group _)
  | look look => exact h.push (.look look)

theorem Sound.close {b : Builder} (h : b.Sound) {g : OpenGroup} {outer : List OpenGroup}
    (ho : b.outer = g :: outer) :
    Sound { b with
      items := .atom (.box (Sequence.assemble b.next b.items.reverse).2 g.op
        (Sequence.assemble b.next b.items.reverse).1) :: g.before
      next := (Sequence.assemble b.next b.items.reverse).2 + 1
      outer } := by
  obtain ⟨hp, hi, hout⟩ := h
  rw [ho] at hout
  obtain ⟨⟨hop, hbefore⟩, houter⟩ := List.forall_mem_cons.1 hout
  have hrev : ∀ item ∈ b.items.reverse, item.Full := by simpa using hi
  obtain ⟨hfull, hne⟩ := Sequence.assemble_full b.next b.items.reverse hrev
  have hadds := (Sequence.assemble_adds b.next b.items.reverse).trans (Adds.one _ _)
  refine ⟨?_, List.forall_mem_cons.2 ⟨⟨hop.suits hne _, hfull, trivial⟩, hbefore⟩, houter⟩
  have hold : (b.items.reverse.flatMap Item.ids ++
      (g :: outer).flatMap fun g => g.before.flatMap Item.ids).Perm (List.range b.next) := by
    refine List.Perm.trans (List.Perm.append_right _ ?_) (by simpa [ids, ho] using hp)
    exact (List.reverse_perm _).flatMap_right _
  have hnew := hadds.perm_range hold
  simpa [ids, Item.ids, Node.ids, Node.before, Chain.ids] using hnew

theorem Sound.add {b b' : Builder} (h : b.Sound) {token : Token} (htakes : b.Takes token b') : b'.Sound := by
  cases htakes with
  | opening kind => exact h.openGroup kind
  | closing innermost => exact h.close innermost
  | bar => exact h.add_item .bar b.next (Adds.refl _ _) trivial
  | quantifier q => exact h.add_item (.quantifier q) b.next (Adds.refl _ _) trivial
  | literal c => exact h.addLiteral c
  | leaf op => exact h.addLeaf op
  | reference => exact h.addLeaf _
  | cross => exact h.addLeaf _
  | @want name =>
    exact Sound.addLeaf (b := { b with names := b.names.want name }) ⟨h.perm, h.items, h.outer⟩ _

theorem Sound.addAll {tokens : List (Nat × Token)} : ∀ {b b' : Builder}, b.Sound →
    b.addAll tokens = .ok b' → b'.Sound := by
  induction tokens with
  | nil =>
    intro b b' h hb
    obtain rfl := Except.ok.inj hb
    exact h
  | cons entry tokens ih =>
    intro b b' h hb
    obtain ⟨b₁, htakes, hrest⟩ := addAll_cons.1 hb
    exact ih (h.add htakes) hrest

end Builder

/-! ## Patterns -/

/-- The numbers of the tree are those below its size, each in use once, and every container is as it
should be. -/
structure Numbered (p : Pattern) : Prop where
  perm : p.tree.ids.Perm (List.range p.size)
  full : p.tree.Full

theorem Builder.Sound.finish {b : Builder} (h : b.Sound) {o : Options} {pos : Nat} {p : Pattern}
    (hp : b.finish o pos = .ok p) : p.Numbered := by
  simp only [Builder.finish] at hp
  split at hp
  · rename_i ho
    obtain rfl := Except.ok.inj hp
    have hrev : ∀ item ∈ b.items.reverse, item.Full := by simpa using h.items
    obtain ⟨hfull, hne⟩ := Sequence.assemble_full b.next b.items.reverse hrev
    refine ⟨?_, (Container.Bracket.group _).suits hne _, hfull, trivial⟩
    have hold : (b.items.reverse.flatMap Item.ids ++ []).Perm (List.range b.next) := by
      refine List.Perm.trans (List.Perm.append_right _ ?_) (by simpa [ids, ho] using h.perm)
      exact (List.reverse_perm _).flatMap_right _
    have hadds := (Sequence.assemble_adds b.next b.items.reverse).trans (Adds.one _ _)
    simpa [tree, size, Chain.ids] using hadds.perm_range hold
  · simp at hp

theorem numbered_of_build {o : Options} {cs : List Char} {p : Pattern}
    (h : build o cs = .ok p) : p.Numbered := by
  unfold build at h
  split at h
  rename_i tokens fault _
  split at h
  · simp at h
  · simp at h
  · rename_i b hb _
    exact (Builder.Sound.empty.addAll hb).finish h

theorem Numbered.nodup {p : Pattern} (h : p.Numbered) : p.tree.ids.Nodup :=
  h.perm.nodup_iff.2 List.nodup_range

theorem Numbered.rootId_notMem {p : Pattern} (h : p.Numbered) : p.rootId ∉ p.body.ids := fun hmem =>
  (List.nodup_cons.1 h.nodup).1 (List.mem_append_left _ hmem)

end SpanRegex.Pattern
