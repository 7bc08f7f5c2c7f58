import SpanRegex.Proofs.Alternation

/-! # Drafts and trees

Reading a text into a store and building its tree go on side by side: token by token the store holds the
nodes of the tree, those of open groups not yet linked to each other, and both come upon the same error.

* `Draft.Draws`: the parts and nodes of a draft are those of a builder; `Draws.add`, `Draws.addAll`.
* `Layout.Draws`: the store holds the nodes of a pattern; `Layout.Draws.pattern`: its links spell the pattern.
* `layout_draws`, `compile_eq`: a text is compiled to the tree that is built from its tokens.
* `layout_of_compile`, `numbered_of_compile`: the store behind a pattern, and the numbers of its tree.
* `layout_of_tokens`: the store depends on the tokens alone.
-/

namespace SpanRegex.Pattern
set_option autoImplicit false

/-- Both are the same error, or both are results and these are related. -/
inductive Agree {α β : Type} (r : α → β → Prop) : Except Error α → Except Error β → Prop
  | ok {a : α} {b : β} (related : r a b) : Agree r (.ok a) (.ok b)
  | error (e : Error) : Agree r (.error e) (.error e)

/-! ## Between two tokens -/

/-- The open group with parts for its items. -/
def OpenGroup.parts (g : OpenGroup) : OpenParts := ⟨g.op, g.before.map Item.part⟩

/-- The nodes of all items that have been read. -/
def Builder.alone (b : Builder) : List Linked :=
  b.items.flatMap Item.alone ++ b.outer.flatMap fun g => g.before.flatMap Item.alone

theorem ofChar_cases (c : Char) :
    (∃ u, CodeUnit.ofChar c = [u]) ∨ ∃ high low, CodeUnit.ofChar c = [high, low] := by
  unfold CodeUnit.ofChar
  split
  · exact .inl ⟨_, rfl⟩
  · exact .inr ⟨_, _, rfl⟩

namespace Draft

/-- The draft has the parts of the builder, and in its store the nodes of the builder's items. -/
structure Draws (d : Draft) (b : Builder) : Prop where
  names : d.names = b.names
  groups : d.groups = b.groups
  size : d.arena.size = b.next
  parts : d.parts = b.items.map Item.part
  outer : d.outer = b.outer.map OpenGroup.parts
  nodes : d.arena.nodes.Perm b.alone

namespace Draws

variable {d : Draft} {b : Builder}

theorem empty : Draws {} {} := ⟨rfl, rfl, rfl, rfl, rfl, .nil⟩

theorem outer_nil (h : d.Draws b) (houter : b.outer = []) : d.outer = [] := by
  rw [h.outer, houter, List.map_nil]

theorem outer_cons (h : d.Draws b) {g : OpenGroup} {outer : List OpenGroup} (houter : b.outer = g :: outer) :
    d.outer = g.parts :: outer.map OpenGroup.parts := by
  rw [h.outer, houter, List.map_cons]

/-- An item without nodes. -/
theorem add_item (h : d.Draws b) (item : Item) (hitem : item.alone = []) :
    Draws { d with parts := item.part :: d.parts } { b with items := item :: b.items } where
  names := h.names
  groups := h.groups
  size := h.size
  parts := congrArg (item.part :: ·) h.parts
  outer := h.outer
  nodes := by simpa [Builder.alone, hitem] using h.nodes

/-- A node that is not linked to others. -/
theorem add_atom (h : d.Draws b) {arena : Arena} (node : Node) {i next : Nat} (hid : i = node.id)
    (hsize : arena.size = next) (hnodes : arena.nodes.Perm (node.alone ++ b.alone)) :
    Draws { d with arena, parts := .atom i :: d.parts } { b with items := .atom node :: b.items, next } where
  names := h.names
  groups := h.groups
  size := hsize
  parts := by rw [List.map_cons, ← h.parts, Item.part, hid]
  outer := h.outer
  nodes := by simpa [Builder.alone, Item.alone] using hnodes

theorem addLeaf (h : d.Draws b) (op : Leaf) : (d.addLeaf op).Draws (b.addLeaf op) := by
  refine h.add_atom (.leaf b.next op) h.size ?_ ?_
  · rw [Arena.size_alloc, h.size]
  · rw [← h.size]
    exact Arena.perm_alloc (.leaf op) h.nodes

theorem addLiteral (h : d.Draws b) (c : Char) : (d.addLiteral c).Draws (b.addLiteral c) := by
  unfold Draft.addLiteral Builder.addLiteral
  rcases ofChar_cases c with ⟨u, hunits⟩ | ⟨high, low, hunits⟩
  · rw [hunits]
    exact h.addLeaf _
  · rw [hunits]
    let nodes : List Node :=
      [.leaf b.next (.unit (.literal high)), .leaf (b.next + 1) (.unit (.literal low))]
    let arena := (d.arena.alloc (.leaf (.unit (.literal high)))).alloc (.leaf (.unit (.literal low)))
    have hsize : arena.size = b.next + 2 := by simp [arena, h.size]
    have hpair : arena.nodes.Perm (nodes.flatMap Node.alone ++ b.alone) := by
      have hlow := Arena.perm_alloc (.leaf (.unit (.literal low)))
        (Arena.perm_alloc (.leaf (.unit (.literal high))) h.nodes)
      rw [Arena.size_alloc, h.size] at hlow
      exact hlow.trans (.swap ..)
    have hlink := Arena.perm_link hpair
    have hcontain := Arena.perm_contain (.group none) (Chain.head_ofNodes nodes) hlink
    rw [Arena.size_link, hsize] at hcontain
    have hrow : List.range' d.arena.size [high, low].length = nodes.map Node.id := by rw [h.size]; rfl
    refine h.add_atom (.box (b.next + 2) (.group none) (.ofNodes nodes)) ?_ ?_ ?_
    · rw [Arena.size_link]
      exact hsize
    · rw [Arena.size_contain, Arena.size_link]
      exact congrArg (· + 1) hsize
    · rw [hrow, h.size]
      exact hcontain

theorem push (h : d.Draws b) (op : Container) : (d.push op).Draws (b.push op) where
  names := h.names
  groups := h.groups
  size := h.size
  parts := rfl
  outer := by simp [Draft.push, Builder.push, OpenGroup.parts, h.parts, h.outer]
  nodes := h.nodes

theorem openGroup (h : d.Draws b) (kind : Opening) : (d.openGroup kind).Draws (b.openGroup kind) := by
  cases kind with
  | plain =>
    simp only [Draft.openGroup, Builder.openGroup, h.groups]
    split
    · have hnumbered : Draws { d with groups := b.groups + 1 } { b with groups := b.groups + 1 } :=
        ⟨h.names, rfl, h.size, h.parts, h.outer, h.nodes⟩
      exact hnumbered.push _
    · exact h.push _
  | silent => exact h.push _
  | named name =>
    simp only [Draft.openGroup, Builder.openGroup, h.names]
    split
    · exact h.push _
    · have hnamed : Draws { d with names := (b.names.define name).1 } { b with names := (b.names.define name).1 } :=
        ⟨rfl, h.groups, h.size, h.parts, h.outer, h.nodes⟩
      exact hnamed.push _
  | look look => exact h.push _

/-- The parts of the innermost group become siblings, and they leave the other nodes alone. -/
theorem restructure (h : d.Draws b) :
    Sequence.Laid (b.outer.flatMap fun g => g.before.flatMap Item.alone)
      (d.arena.restructure d.parts.reverse) (Sequence.assemble b.next b.items.reverse) := by
  rw [h.parts, ← List.map_reverse, ← h.size]
  exact Sequence.laid_restructure (h.nodes.trans (.append_right _ ((List.reverse_perm _).symm.flatMap_right _)))

/-- The innermost group closes, or both find that none is open. -/
theorem closing (h : d.Draws b) (pos : Nat) : Agree Draws (d.add pos .closing) (b.add pos .closing) := by
  cases houter : b.outer with
  | nil =>
    simp only [Draft.add, Builder.add, houter, h.outer_nil houter]
    exact .error _
  | cons g outer =>
    have hlaid := h.restructure
    rw [houter, List.flatMap_cons] at hlaid
    have hcontain := Arena.perm_contain g.op hlaid.head hlaid.nodes
    rw [hlaid.size] at hcontain
    simp only [Draft.add, Builder.add, houter, h.outer_cons houter]
    refine .ok ⟨h.names, h.groups, ?_, ?_, rfl, ?_⟩
    · rw [Arena.size_contain, hlaid.size]
    · rw [hlaid.size]
      rfl
    · simpa [Builder.alone, Item.alone, OpenGroup.parts] using hcontain

theorem add (h : d.Draws b) (pos : Nat) (token : Token) : Agree Draws (d.add pos token) (b.add pos token) := by
  cases token with
  | opening kind => exact .ok (h.openGroup kind)
  | closing => exact h.closing pos
  | bar => exact .ok (h.add_item .bar rfl)
  | quantifier q => exact .ok (h.add_item (.quantifier q) rfl)
  | literal c => exact .ok (h.addLiteral c)
  | leaf op => exact .ok (h.addLeaf op)
  | referenceName name =>
    simp only [Draft.add, Builder.add, h.names]
    cases b.names.lookup name with
    | some slot => exact .ok (h.addLeaf _)
    | none => exact .error _
  | crossName name ignoreCase =>
    simp only [Draft.add, Builder.add, h.names]
    cases b.names.lookup name with
    | some slot => exact .ok (h.addLeaf _)
    | none =>
      have hwant : Draws { d with names := b.names.want name } { b with names := b.names.want name } :=
        ⟨rfl, h.groups, h.size, h.parts, h.outer, h.nodes⟩
      exact .ok (hwant.addLeaf _)

theorem addAll (tokens : List (Nat × Token)) : ∀ {d : Draft} {b : Builder}, d.Draws b →
    Agree Draws (d.addAll tokens) (b.addAll tokens) := by
  induction tokens with
  | nil => exact fun h => .ok h
  | cons entry tokens ih =>
    intro d b h
    obtain ⟨pos, token⟩ := entry
    have hadd := h.add pos token
    rw [Draft.addAll, Builder.addAll]
    generalize d.add pos token = added, b.add pos token = built at hadd
    cases hadd with
    | ok related => exact ih related
    | error e => exact .error e

end Draws

end Draft

/-! ## Whole texts -/

/-- The store holds the nodes of the pattern. -/
structure Layout.Draws (l : Layout) (p : Pattern) : Prop where
  names : l.names = p.names
  root : l.root = p.rootId
  nodes : l.arena.nodes.Perm (p.tree.linked none none)

/-- The links of a store that holds the nodes of a pattern spell this pattern. -/
theorem Layout.Draws.pattern {l : Layout} {p : Pattern} (h : l.Draws p) : l.pattern p.options = p := by
  have hsubset : p.tree.linked none none ⊆ l.arena.nodes := h.nodes.symm.subset
  obtain ⟨hroot, hrest⟩ := List.cons_subset.1 hsubset
  have hnode : l.arena.node? p.rootId = some _ := Arena.node_of_mem hroot
  have hlength : (p.body.linked (some p.rootId) none).length ≤ l.arena.size := by
    rw [Arena.size_eq h.nodes]
    simp [Pattern.tree, Chain.linked]
  have hbody := Arena.chain_eq p.body _ _ _ hlength (List.append_subset.1 hrest).1
  rw [Layout.pattern, h.names, h.root, hnode, Option.bind_some, Linked.first, hbody]

theorem Draft.Draws.finish {d : Draft} {b : Builder} (h : d.Draws b) (o : Options) (pos : Nat) :
    Agree (fun l p => l.Draws p ∧ p.options = o) (d.finish pos) (b.finish o pos) := by
  cases houter : b.outer with
  | nil =>
    have hlaid := h.restructure
    rw [houter, List.flatMap_nil] at hlaid
    have hcontain := Arena.perm_contain (.group (some Slot.whole)) hlaid.head hlaid.nodes
    rw [hlaid.size, List.append_nil] at hcontain
    simp only [Draft.finish, Builder.finish, houter, h.outer_nil houter]
    refine .ok ⟨⟨h.names, hlaid.size, ?_⟩, rfl⟩
    simpa [Pattern.tree, Chain.linked, Node.alone, Node.cell, Node.inner, Chain.head?] using hcontain
  | cons g outer =>
    simp only [Draft.finish, Builder.finish, houter, h.outer_cons houter]
    exact .error _

theorem layout_draws (o : Options) (cs : List Char) :
    Agree (fun l p => l.Draws p ∧ p.options = o) (layout o cs) (build o cs) := by
  unfold layout build
  obtain ⟨tokens, fault⟩ := Token.read o cs
  have hadd := Draft.Draws.empty.addAll tokens
  simp only
  generalize Draft.addAll {} tokens = drafted, Builder.addAll {} tokens = built at hadd
  cases hadd with
  | ok related =>
    cases fault with
    | none => exact related.finish o cs.length
    | some e => exact .error e
  | error e => exact .error e

/-- A text is compiled to the pattern that is built from its tokens. -/
theorem compile_eq (o : Options) (cs : List Char) : compile o cs = build o cs := by
  have hdraws := layout_draws o cs
  rw [compile]
  generalize layout o cs = placed, build o cs = built at hdraws
  cases hdraws with
  | ok related =>
    obtain ⟨hl, rfl⟩ := related
    rw [Except.map, hl.pattern]
  | error e => rfl

/-- A pattern is compiled from a store that holds its nodes. -/
theorem layout_of_compile {o : Options} {cs : List Char} {p : Pattern} (h : compile o cs = .ok p) :
    ∃ l, layout o cs = .ok l ∧ l.pattern o = p ∧ l.Draws p := by
  have hdraws := layout_draws o cs
  rw [← compile_eq, h] at hdraws
  generalize hlayout : layout o cs = placed at hdraws
  cases hdraws with
  | @ok l _ related =>
    obtain ⟨hl, rfl⟩ := related
    exact ⟨l, rfl, hl.pattern, hl⟩

/-- The position of a token is only reported in errors. -/
theorem Draft.add_pos {d d' : Draft} {pos : Nat} {token : Token} (h : d.add pos token = .ok d') (pos' : Nat) :
    d.add pos' token = .ok d' := by
  cases token with
  | closing =>
    simp only [add] at h ⊢
    split at h
    · cases h
    · exact h
  | referenceName name =>
    simp only [add] at h ⊢
    split at h
    · exact h
    · cases h
  | crossName name ignoreCase =>
    simp only [add] at h ⊢
    split at h <;> exact h
  | _ => exact h

theorem Draft.addAll_pos (tokens : List (Nat × Token)) : ∀ {tokens' : List (Nat × Token)} {d d' : Draft},
    tokens.map Prod.snd = tokens'.map Prod.snd → d.addAll tokens = .ok d' → d.addAll tokens' = .ok d' := by
  induction tokens with
  | nil =>
    intro tokens' d d' htokens h
    obtain rfl := List.map_eq_nil_iff.1 htokens.symm
    exact h
  | cons entry tokens ih =>
    intro tokens' d d' htokens h
    obtain ⟨⟨pos', token⟩, rest, rfl, rfl, hrest⟩ := List.map_eq_cons_iff.1 htokens.symm
    rw [addAll] at h ⊢
    cases hadd : d.add entry.1 entry.2 with
    | ok d₁ =>
      simp only [hadd] at h
      simp only [add_pos hadd pos']
      exact ih hrest.symm h
    | error e => simp [hadd] at h

/-- Texts of the same tokens have the same nodes. -/
theorem layout_of_tokens {o o' : Options} {cs cs' : List Char} {tokens tokens' : List (Nat × Token)} {l : Layout}
    (h : layout o cs = .ok l) (hread : Token.read o cs = (tokens, none))
    (hread' : Token.read o' cs' = (tokens', none)) (htokens : tokens.map Prod.snd = tokens'.map Prod.snd) :
    layout o' cs' = .ok l := by
  simp only [layout, hread, hread'] at h ⊢
  cases hadd : Draft.addAll {} tokens with
  | ok d =>
    simp only [hadd] at h
    simp only [Draft.addAll_pos tokens htokens hadd]
    unfold Draft.finish at h ⊢
    split at h
    · exact h
    · cases h
  | error e => simp [hadd] at h

theorem numbered_of_compile {o : Options} {cs : List Char} {p : Pattern} (h : compile o cs = .ok p) :
    p.Numbered := by
  rw [compile_eq] at h
  exact numbered_of_build h

end SpanRegex.Pattern
