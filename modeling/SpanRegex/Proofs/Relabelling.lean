import SpanRegex.Proofs.Numbering

/-! # Exchanging leaves

A tree in which some leaves have been exchanged for others, node by node, is what the same tokens make if
those leaves are exchanged when they are read.

* `Chain.relabel`, `Builder.relabel`: the leaves exchanged as `f` says, by their number and what they do.
* `Fixes`: leaves with new numbers stay as they are.
* `Builder.addAll_relabel`, `Builder.finish_relabel`: reading on after an exchange.
* `Builder.Sound.relabel_eq`: an exchange of leaves that do not exist yet.
-/

namespace SpanRegex.Pattern
set_option autoImplicit false

/-! ## Trees -/

/-- The chain with the leaves exchanged. -/
def Chain.relabel (f : Nat → Leaf → Leaf) : Chain → Chain
  | .nil => .nil
  | .leaf id op next => .leaf id (f id op) (next.relabel f)
  | .box id op body next => .box id op (body.relabel f) (next.relabel f)

def Node.relabel (f : Nat → Leaf → Leaf) : Node → Node
  | .leaf id op => .leaf id (f id op)
  | .box id op body => .box id op (body.relabel f)

def Item.relabel (f : Nat → Leaf → Leaf) : Item → Item
  | .atom node => .atom (node.relabel f)
  | .bar => .bar
  | .quantifier q => .quantifier q

/-- Leaves with numbers from `n` on stay as they are. -/
def Fixes (f : Nat → Leaf → Leaf) (n : Nat) : Prop := ∀ id op, n ≤ id → f id op = op

theorem Fixes.mono {f : Nat → Leaf → Leaf} {n n' : Nat} (h : Fixes f n) (hle : n ≤ n') : Fixes f n' :=
  fun id op hid => h id op (Nat.le_trans hle hid)

section

variable {f : Nat → Leaf → Leaf}

theorem Chain.relabel_ofNodes (nodes : List Node) :
    (Chain.ofNodes nodes).relabel f = .ofNodes (nodes.map (Node.relabel f)) := by
  induction nodes with
  | nil => rfl
  | cons node nodes ih =>
    have hbefore : (node.before (.ofNodes nodes)).relabel f =
        (node.relabel f).before ((Chain.ofNodes nodes).relabel f) := by
      cases node <;> rfl
    rw [ih] at hbefore
    exact hbefore

theorem Chain.relabel_eq {c : Chain} (h : ∀ id ∈ c.ids, ∀ op, f id op = op) : c.relabel f = c := by
  induction c with
  | nil => rfl
  | leaf id op next ih =>
    obtain ⟨hid, hnext⟩ := List.forall_mem_cons.1 h
    rw [relabel, hid, ih hnext]
  | box id op body next ihBody ihNext =>
    rw [relabel, ihBody fun id hid => h id (mem_ids_of_body hid), ihNext fun id hid => h id (mem_ids_of_next hid)]

theorem Node.relabel_eq {node : Node} (h : ∀ id ∈ node.ids, ∀ op, f id op = op) : node.relabel f = node := by
  have hchain := Chain.relabel_eq h
  cases node with
  | leaf id op =>
    obtain ⟨-, hop, -⟩ := Chain.leaf.inj hchain
    exact congrArg _ hop
  | box id op body =>
    obtain ⟨-, -, hbody, -⟩ := Chain.box.inj hchain
    exact congrArg _ hbody

theorem Item.relabel_eq {item : Item} (h : ∀ id ∈ item.ids, ∀ op, f id op = op) : item.relabel f = item := by
  cases item with
  | atom node => exact congrArg _ (Node.relabel_eq h)
  | bar => rfl
  | quantifier q => rfl

/-! ## Sequences -/

namespace Sequence

theorem relabel_emptyNode {next : Nat} (hf : Fixes f next) : (emptyNode next).relabel f = emptyNode next :=
  congrArg (Node.leaf next) (hf next .empty (Nat.le_refl next))

theorem relabel_loopNode (id : Nat) (q : Quantifier) (node : Node) :
    (loopNode id q node).relabel f = loopNode id q (node.relabel f) :=
  congrArg (Node.box id (.loop q)) (Chain.relabel_ofNodes [node])

theorem alternatives_relabel (items : List Item) : ∀ {next : Nat}, Fixes f next → ∀ run : List Node,
    alternatives next (run.map (Node.relabel f)) (items.map (Item.relabel f)) =
      ((alternatives next run items).1.map (List.map (Node.relabel f)), (alternatives next run items).2) := by
  induction items with
  | nil =>
    intro next hf run
    cases run with
    | nil => simp [alternatives, relabel_emptyNode hf]
    | cons node run => simp [alternatives]
  | cons item items ih =>
    intro next hf run
    cases item with
    | atom node => exact ih hf (node :: run)
    | bar =>
      cases run with
      | nil =>
        have hrest := ih (hf.mono (Nat.le_succ next)) []
        simp only [List.map_nil] at hrest
        simp [alternatives, Item.relabel, hrest, relabel_emptyNode hf]
      | cons node run =>
        have hrest := ih hf []
        simp only [List.map_nil] at hrest
        simp [alternatives, Item.relabel, hrest]
    | quantifier q =>
      cases run with
      | nil =>
        have hrest := ih (hf.mono (Nat.le_add_right next 2)) [loopNode (next + 1) q (emptyNode next)]
        rwa [List.map_singleton, relabel_loopNode, relabel_emptyNode hf] at hrest
      | cons node run =>
        have hrest := ih (hf.mono (Nat.le_succ next)) (loopNode next q node :: run)
        rwa [List.map_cons, relabel_loopNode] at hrest

theorem chain_relabel (runs : List (List Node)) : ∀ next : Nat,
    chain next (runs.map (List.map (Node.relabel f))) =
      ((chain next runs).1.relabel f, (chain next runs).2) := by
  induction runs with
  | nil => exact fun _ => rfl
  | cons first rest ih =>
    intro next
    cases rest with
    | nil => simp [chain, Chain.relabel_ofNodes]
    | cons second rest =>
      have hrest := ih (next + 1)
      simp only [List.map_cons] at hrest
      simp [chain, hrest, Chain.relabel, Chain.relabel_ofNodes]

theorem assemble_relabel {next : Nat} (hf : Fixes f next) (items : List Item) :
    assemble next (items.map (Item.relabel f)) =
      ((assemble next items).1.relabel f, (assemble next items).2) := by
  have halternatives := alternatives_relabel items hf []
  rw [List.map_nil] at halternatives
  simp only [assemble, halternatives, chain_relabel]

end Sequence

/-! ## Builders -/

/-- The group that is open, with the leaves exchanged before it. -/
def OpenGroup.relabel (f : Nat → Leaf → Leaf) (g : OpenGroup) : OpenGroup :=
  { g with before := g.before.map (Item.relabel f) }

namespace Builder

def relabel (f : Nat → Leaf → Leaf) (b : Builder) : Builder :=
  { b with items := b.items.map (Item.relabel f), outer := b.outer.map (OpenGroup.relabel f) }

variable {b b' : Builder}

theorem relabel_addLeaf (b : Builder) (op : Leaf) :
    (b.addLeaf op).relabel f = (b.relabel f).addLeaf (f b.next op) := rfl

theorem addLiteral_relabel (hf : Fixes f b.next) (c : Char) :
    (b.relabel f).addLiteral c = (b.addLiteral c).relabel f := by
  unfold addLiteral
  split
  · rw [relabel_addLeaf, hf b.next _ (Nat.le_refl _)]
  · have hnodes : ∀ units : List CodeUnit,
        (units.mapIdx fun i u => Node.leaf (b.next + i) (.unit (.literal u))).map (Node.relabel f) =
          units.mapIdx fun i u => Node.leaf (b.next + i) (.unit (.literal u)) := by
      intro units
      refine List.ext_getElem (by simp) fun i _ _ => ?_
      simp only [List.getElem_map, List.getElem_mapIdx]
      exact congrArg _ (hf _ _ (Nat.le_add_right _ _))
    simp [relabel, Item.relabel, Node.relabel, Chain.relabel_ofNodes, hnodes]

theorem openGroup_relabel (kind : Opening) : (b.relabel f).openGroup kind = (b.openGroup kind).relabel f := by
  cases kind with
  | plain =>
    have hgroups : (b.relabel f).groups = b.groups := rfl
    simp only [openGroup, hgroups]
    split <;> rfl
  | silent => rfl
  | named name =>
    simp only [openGroup]
    split <;> rfl
  | look look => rfl

theorem Takes.relabel (hf : Fixes f b.next) {token : Token} (h : b.Takes token b') :
    (b.relabel f).Takes token (b'.relabel f) := by
  have hleaf : ∀ op, (b.addLeaf op).relabel f = (b.relabel f).addLeaf op := by
    intro op
    rw [relabel_addLeaf, hf b.next op (Nat.le_refl _)]
  cases h with
  | opening kind => exact openGroup_relabel (f := f) kind ▸ .opening kind
  | @closing g outer innermost =>
    have hassemble := Sequence.assemble_relabel hf b.items.reverse
    rw [List.map_reverse] at hassemble
    have hinnermost : (b.relabel f).outer = g.relabel f :: outer.map (OpenGroup.relabel f) := by
      simp [Builder.relabel, innermost]
    have hclosing := Takes.closing hinnermost
    simpa [Builder.relabel, hassemble, OpenGroup.relabel, Item.relabel, Node.relabel] using hclosing
  | bar => exact .bar
  | quantifier q => exact .quantifier q
  | literal c => exact addLiteral_relabel hf c ▸ .literal c
  | leaf op => exact hleaf op ▸ .leaf op
  | reference known => exact hleaf _ ▸ .reference known
  | cross ignoreCase known => exact hleaf _ ▸ .cross ignoreCase known
  | want ignoreCase unknown =>
    rw [relabel_addLeaf, hf _ _ (Nat.le_refl _)]
    exact .want ignoreCase unknown

theorem openGroup_next (b : Builder) (kind : Opening) : (b.openGroup kind).next = b.next := by
  cases kind with
  | plain =>
    simp only [openGroup]
    split <;> rfl
  | silent => rfl
  | named name =>
    simp only [openGroup]
    split <;> rfl
  | look look => rfl

/-- No number is given out twice: the next one does not decrease. -/
theorem Takes.next_le {token : Token} (h : b.Takes token b') : b.next ≤ b'.next := by
  cases h with
  | opening kind => exact Nat.le_of_eq (openGroup_next b kind).symm
  | closing => exact Nat.le_succ_of_le (Sequence.assemble_adds b.next b.items.reverse).le
  | bar => exact Nat.le_refl _
  | quantifier => exact Nat.le_refl _
  | literal c =>
    unfold addLiteral
    split
    · exact Nat.le_succ _
    · exact Nat.le_succ_of_le (Nat.le_add_right _ _)
  | leaf => exact Nat.le_succ _
  | reference => exact Nat.le_succ _
  | cross => exact Nat.le_succ _
  | want => exact Nat.le_succ _

/-- What the tokens add after an exchange is what they add before it, with the leaves exchanged. -/
theorem addAll_relabel (tokens : List (Nat × Token)) : ∀ {b : Builder}, Fixes f b.next →
    b.addAll tokens = .ok b' → (b.relabel f).addAll tokens = .ok (b'.relabel f) := by
  induction tokens with
  | nil =>
    intro b hf h
    exact congrArg _ (congrArg (relabel f) (Except.ok.inj h))
  | cons entry tokens ih =>
    intro b hf h
    obtain ⟨b₁, htakes, hrest⟩ := addAll_cons.1 h
    exact addAll_cons.2 ⟨_, htakes.relabel hf, ih (hf.mono htakes.next_le) hrest⟩

theorem next_le_of_addAll (tokens : List (Nat × Token)) : ∀ {b : Builder},
    b.addAll tokens = .ok b' → b.next ≤ b'.next := by
  induction tokens with
  | nil =>
    intro b h
    exact Nat.le_of_eq (congrArg next (Except.ok.inj h))
  | cons entry tokens ih =>
    intro b h
    obtain ⟨b₁, htakes, hrest⟩ := addAll_cons.1 h
    exact Nat.le_trans htakes.next_le (ih hrest)

theorem Sound.relabel_eq (h : b.Sound) (hf : ∀ id op, id < b.next → f id op = op) : b.relabel f = b := by
  have hids : ∀ id ∈ b.ids, ∀ op, f id op = op := by
    intro id hid op
    exact hf id op (List.mem_range.1 (h.perm.mem_iff.1 hid))
  have hitems : b.items.map (Item.relabel f) = b.items := by
    refine List.map_congr_left (fun item hitem => ?_) |>.trans b.items.map_id
    exact Item.relabel_eq fun id hid =>
      hids id (List.mem_append_left _ (List.mem_flatMap.2 ⟨item, hitem, hid⟩))
  have houter : b.outer.map (OpenGroup.relabel f) = b.outer := by
    refine List.map_congr_left (fun g hg => ?_) |>.trans b.outer.map_id
    have hbefore : g.before.map (Item.relabel f) = g.before := by
      refine List.map_congr_left (fun item hitem => ?_) |>.trans g.before.map_id
      refine Item.relabel_eq fun id hid => hids id (List.mem_append_right _ ?_)
      exact List.mem_flatMap.2 ⟨g, hg, List.mem_flatMap.2 ⟨item, hitem, hid⟩⟩
    rw [OpenGroup.relabel, hbefore]
    rfl
  rw [relabel, hitems, houter]

theorem finish_relabel {o : Options} {pos : Nat} {p : Pattern} (hf : Fixes f b.next) (h : b.finish o pos = .ok p)
    (pos' : Nat) : (b.relabel f).finish o pos' = .ok { p with body := p.body.relabel f } := by
  simp only [finish] at h
  split at h
  · rename_i houter
    obtain rfl := Except.ok.inj h
    have hassemble := Sequence.assemble_relabel hf b.items.reverse
    rw [List.map_reverse] at hassemble
    simp [finish, relabel, houter, hassemble]
  · cases h

/-! ## Positions -/

/-- The position of a token is only reported in errors. -/
theorem addAll_pos (tokens : List (Nat × Token)) : ∀ {tokens' : List (Nat × Token)} {b : Builder},
    tokens.map Prod.snd = tokens'.map Prod.snd → b.addAll tokens = .ok b' → b.addAll tokens' = .ok b' := by
  induction tokens with
  | nil =>
    intro tokens' b htokens h
    obtain rfl := List.map_eq_nil_iff.1 htokens.symm
    exact h
  | cons entry tokens ih =>
    intro tokens' b htokens h
    obtain ⟨entry', rest, rfl, htoken, hrest⟩ := List.map_eq_cons_iff.1 htokens.symm
    obtain ⟨b₁, htakes, hadd⟩ := addAll_cons.1 h
    exact addAll_cons.2 ⟨b₁, htoken ▸ htakes, ih hrest.symm hadd⟩

end Builder

end

end SpanRegex.Pattern
