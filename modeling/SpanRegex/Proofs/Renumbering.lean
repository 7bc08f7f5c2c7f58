import SpanRegex.Proofs.Relabelling

/-! # New numbers for nodes

What tokens make after other items does not depend on these, except for the numbers of its nodes.

* `Chain.renumber`: the tree with other numbers.
* `Renumbers`: no two numbers become one, and none becomes smaller.
* `alternatives_renumber`, `chain_renumber`: sequences of items with other numbers.
* `alternatives_append`: the alternatives before a bar, and those after it.
* `Builder.after`, `Builder.Behind`: a builder that has other items before its own; `Behind.addAll`.
-/

namespace SpanRegex.Pattern
set_option autoImplicit false

/-! ## Trees -/

/-- The chain with other numbers. -/
def Chain.renumber (ρ : Nat → Nat) : Chain → Chain
  | .nil => .nil
  | .leaf id op next => .leaf (ρ id) op (next.renumber ρ)
  | .box id op body next => .box (ρ id) op (body.renumber ρ) (next.renumber ρ)

def Node.renumber (ρ : Nat → Nat) : Node → Node
  | .leaf id op => .leaf (ρ id) op
  | .box id op body => .box (ρ id) op (body.renumber ρ)

def Item.renumber (ρ : Nat → Nat) : Item → Item
  | .atom node => .atom (node.renumber ρ)
  | .bar => .bar
  | .quantifier q => .quantifier q

/-- Different numbers stay different, and none becomes smaller. -/
structure Renumbers (ρ : Nat → Nat) : Prop where
  injective : ∀ i j, ρ i = ρ j → i = j
  le : ∀ i, i ≤ ρ i

theorem Renumbers.refl : Renumbers fun i => i := ⟨fun _ _ h => h, Nat.le_refl⟩

section

variable {ρ σ : Nat → Nat}

theorem Chain.renumber_ofNodes (nodes : List Node) :
    (Chain.ofNodes nodes).renumber ρ = .ofNodes (nodes.map (Node.renumber ρ)) := by
  induction nodes with
  | nil => rfl
  | cons node nodes ih =>
    rw [List.map_cons, Chain.ofNodes, Chain.ofNodes, List.foldr_cons, List.foldr_cons, ← Chain.ofNodes,
      ← Chain.ofNodes, ← ih]
    cases node <;> rfl

theorem Chain.renumber_congr {c : Chain} (h : ∀ id ∈ c.ids, ρ id = σ id) : c.renumber ρ = c.renumber σ := by
  induction c with
  | nil => rfl
  | leaf id op next ih =>
    obtain ⟨hid, hnext⟩ := List.forall_mem_cons.1 h
    rw [renumber, renumber, hid, ih hnext]
  | box id op body next ihBody ihNext =>
    rw [renumber, renumber, h id List.mem_cons_self, ihBody fun id hid => h id (mem_ids_of_body hid),
      ihNext fun id hid => h id (mem_ids_of_next hid)]

theorem Chain.renumber_refl (c : Chain) : c.renumber (fun i => i) = c := by
  induction c with
  | nil => rfl
  | leaf _ _ next ih => rw [renumber, ih]
  | box _ _ body next ihBody ihNext => rw [renumber, ihBody, ihNext]

theorem Node.renumber_congr {node : Node} (h : ∀ id ∈ node.ids, ρ id = σ id) :
    node.renumber ρ = node.renumber σ := by
  have hchain := Chain.renumber_congr h
  cases node with
  | leaf id op =>
    obtain ⟨hid, -, -⟩ := Chain.leaf.inj hchain
    exact congrArg (Node.leaf · op) hid
  | box id op body =>
    obtain ⟨hid, -, hbody, -⟩ := Chain.box.inj hchain
    simp only [renumber, hid, hbody]

theorem Item.renumber_congr {item : Item} (h : ∀ id ∈ item.ids, ρ id = σ id) :
    item.renumber ρ = item.renumber σ := by
  cases item with
  | atom node => exact congrArg _ (Node.renumber_congr h)
  | bar => rfl
  | quantifier q => rfl

theorem Item.renumber_eq {item : Item} (h : ∀ id ∈ item.ids, ρ id = id) : item.renumber ρ = item := by
  rw [renumber_congr (σ := fun i => i) h]
  cases item with
  | atom node => cases node <;> simp [renumber, Node.renumber, Chain.renumber_refl]
  | bar => rfl
  | quantifier q => rfl

/-! ## Sequences -/

namespace Sequence

theorem renumber_loopNode (id : Nat) (q : Quantifier) (node : Node) :
    (loopNode id q node).renumber ρ = loopNode (ρ id) q (node.renumber ρ) :=
  congrArg (Node.box (ρ id) (.loop q)) (Chain.renumber_ofNodes [node])

/-- The numbers from one on become those from another on. -/
def Shifts (ρ : Nat → Nat) (next next' : Nat) : Prop := ∀ j, ρ (next + j) = next' + j

theorem Shifts.at {next next' : Nat} (h : Shifts ρ next next') : ρ next = next' := h 0

theorem Shifts.add {next next' : Nat} (h : Shifts ρ next next') (k : Nat) : Shifts ρ (next + k) (next' + k) := by
  intro j
  rw [Nat.add_assoc, h, Nat.add_assoc]

theorem alternatives_renumber (items : List Item) : ∀ {next next' : Nat}, Shifts ρ next next' → ∀ run : List Node,
    alternatives next' (run.map (Node.renumber ρ)) (items.map (Item.renumber ρ)) =
      ((alternatives next run items).1.map (List.map (Node.renumber ρ)), ρ (alternatives next run items).2) := by
  induction items with
  | nil =>
    intro next next' hρ run
    cases run with
    | nil => simp [alternatives, emptyNode, Node.renumber, hρ.at, hρ 1]
    | cons node run => simp [alternatives, hρ.at]
  | cons item items ih =>
    intro next next' hρ run
    cases item with
    | atom node => exact ih hρ (node :: run)
    | bar =>
      cases run with
      | nil =>
        have hrest := ih (hρ.add 1) []
        simp only [List.map_nil] at hrest
        simp [alternatives, Item.renumber, hrest, emptyNode, Node.renumber, hρ.at]
      | cons node run =>
        have hrest := ih hρ []
        simp only [List.map_nil] at hrest
        simp [alternatives, Item.renumber, hrest]
    | quantifier q =>
      cases run with
      | nil =>
        have hrest := ih (hρ.add 2) [loopNode (next + 1) q (emptyNode next)]
        rwa [List.map_singleton, renumber_loopNode, emptyNode, Node.renumber, hρ.at, hρ 1] at hrest
      | cons node run =>
        have hrest := ih (hρ.add 1) (loopNode next q node :: run)
        rwa [List.map_cons, renumber_loopNode, hρ.at] at hrest

theorem chain_renumber (runs : List (List Node)) : ∀ {next next' : Nat}, Shifts ρ next next' →
    chain next' (runs.map (List.map (Node.renumber ρ))) =
      ((chain next runs).1.renumber ρ, ρ (chain next runs).2) := by
  induction runs with
  | nil => exact fun hρ => Prod.ext rfl hρ.at.symm
  | cons first rest ih =>
    intro next next' hρ
    cases rest with
    | nil => simp [chain, Chain.renumber_ofNodes, hρ.at]
    | cons second rest =>
      have hrest := ih (hρ.add 1)
      simp only [List.map_cons] at hrest
      simp [chain, hrest, Chain.renumber, Chain.renumber_ofNodes, hρ.at]

theorem assemble_renumber {next next' : Nat} (hρ : Shifts ρ next next') (items : List Item) :
    assemble next' (items.map (Item.renumber ρ)) =
      ((assemble next items).1.renumber ρ, ρ (assemble next items).2) := by
  have halternatives := alternatives_renumber items hρ []
  rw [List.map_nil] at halternatives
  have hnext : Shifts ρ (alternatives next [] items).2 (ρ (alternatives next [] items).2) := by
    obtain ⟨k, hk⟩ := Nat.exists_eq_add_of_le (alternatives_adds items next []).le
    rw [hk, hρ k]
    exact hρ.add k
  simp only [assemble, halternatives, chain_renumber _ hnext]

theorem alternatives_append (items rest : List Item) : ∀ (next : Nat) (run : List Node),
    alternatives next run (items ++ .bar :: rest) =
      ((alternatives next run items).1 ++ (alternatives (alternatives next run items).2 [] rest).1,
        (alternatives (alternatives next run items).2 [] rest).2) := by
  induction items with
  | nil =>
    intro next run
    cases run <;> rfl
  | cons item items ih =>
    intro next run
    cases item with
    | atom node => exact ih next (node :: run)
    | bar =>
      cases run with
      | nil => simp [alternatives, ih]
      | cons node run => simp [alternatives, ih]
    | quantifier q =>
      cases run with
      | nil => exact ih (next + 2) _
      | cons node run => exact ih (next + 1) _

end Sequence

/-! ## Builders -/

/-- The items of the open groups, the innermost first, with other numbers; at the outermost level they stand
after the items `first`. -/
def stacked (ρ : Nat → Nat) (first : List Item) : List Item → List OpenGroup → List Item × List OpenGroup
  | items, [] => (items.map (Item.renumber ρ) ++ first, [])
  | items, g :: outer =>
    (items.map (Item.renumber ρ),
      { g with before := (stacked ρ first g.before outer).1 } :: (stacked ρ first g.before outer).2)

theorem stacked_cons (first : List Item) (item : Item) (items : List Item) (outer : List OpenGroup) :
    stacked ρ first (item :: items) outer =
      (item.renumber ρ :: (stacked ρ first items outer).1, (stacked ρ first items outer).2) := by
  cases outer <;> rfl

theorem GroupNames.want_defined (t : GroupNames) (name : String) : (t.want name).defined = t.defined := by
  unfold want
  split <;> rfl

theorem GroupNames.lookup_congr {t t' : GroupNames} (h : t'.defined = t.defined) (name : String) :
    t'.lookup name = t.lookup name := by
  obtain ⟨defined, unresolved, fits⟩ := t
  obtain ⟨defined', unresolved', fits'⟩ := t'
  obtain rfl : defined' = defined := h
  rfl

theorem GroupNames.define_congr {t t' : GroupNames} (h : t'.defined = t.defined) (name : String) :
    (t'.define name).1.defined = (t.define name).1.defined ∧ (t'.define name).2 = (t.define name).2 := by
  unfold define
  rw [lookup_congr h]
  cases t.lookup name with
  | some slot => exact ⟨h, rfl⟩
  | none =>
    by_cases hroom : t.defined.length < 10
    · simp [hroom, h]
    · simp [hroom, h]

namespace Builder

variable {b b' : Builder} {names : GroupNames}

/-- The builder after other items, with numbers that are greater by `k`. -/
def after (b : Builder) (names : GroupNames) (first : List Item) (k : Nat) : Builder :=
  { names
    groups := b.groups
    next := b.next + k
    items := (stacked (· + k) first b.items b.outer).1
    outer := (stacked (· + k) first b.items b.outer).2 }

theorem after_item (b : Builder) (names : GroupNames) (first : List Item) (k : Nat) (item : Item) (next : Nat) :
    after { b with items := item :: b.items, next } names first k =
      { b.after names first k with
        items := item.renumber (· + k) :: (b.after names first k).items, next := next + k } := by
  simp [after, stacked_cons]

theorem after_addLeaf (b : Builder) (names : GroupNames) (first : List Item) (k : Nat) (op : Leaf) :
    (b.addLeaf op).after names first k = (b.after names first k).addLeaf op :=
  (after_item b names first k _ _).trans (by
    simp [addLeaf, after, Item.renumber, Node.renumber, Nat.add_right_comm])

theorem addLiteral_names (b : Builder) (c : Char) : (b.addLiteral c).names = b.names := by
  unfold addLiteral
  split <;> rfl

theorem after_addLiteral (b : Builder) (names : GroupNames) (first : List Item) (k : Nat) (c : Char) :
    (b.addLiteral c).after names first k = (b.after names first k).addLiteral c := by
  unfold addLiteral
  split
  · exact after_addLeaf b names first k _
  · have hnodes : ∀ units : List CodeUnit,
        (units.mapIdx fun i u => Node.leaf (b.next + i) (.unit (.literal u))).map (Node.renumber (· + k)) =
          units.mapIdx fun i u => Node.leaf (b.next + k + i) (.unit (.literal u)) := by
      intro units
      refine List.ext_getElem (by simp) fun i _ _ => ?_
      simp [Node.renumber, Nat.add_right_comm]
    refine (after_item b names first k _ _).trans ?_
    simp [after, Item.renumber, Node.renumber, Chain.renumber_ofNodes, hnodes, Nat.add_right_comm]

/-- The second builder is the first after other items, and knows the same names. -/
def Behind (first : List Item) (k : Nat) (b c : Builder) : Prop :=
  ∃ names : GroupNames, names.defined = b.names.defined ∧ c = b.after names first k

section

variable {c : Builder} {first : List Item} {k : Nat}

theorem Behind.openGroup (h : Behind first k b c) (kind : Opening) :
    Behind first k (b.openGroup kind) (c.openGroup kind) := by
  obtain ⟨names, hnames, rfl⟩ := h
  cases kind with
  | plain =>
    have hgroups : (b.after names first k).groups = b.groups := rfl
    simp only [Builder.openGroup, hgroups]
    split
    · exact ⟨names, hnames, rfl⟩
    · exact ⟨names, hnames, rfl⟩
  | silent => exact ⟨names, hnames, rfl⟩
  | named name =>
    obtain ⟨hdefined, hslot⟩ := GroupNames.define_congr hnames name
    have hafter : (b.after names first k).names = names := rfl
    simp only [Builder.openGroup, hafter]
    split
    · exact ⟨names, hnames, rfl⟩
    · exact ⟨(names.define name).1, hdefined, by rw [hslot]; rfl⟩
  | look look => exact ⟨names, hnames, rfl⟩

theorem Behind.add (h : Behind first k b c) {token : Token} (htakes : b.Takes token b') :
    ∃ c', c.Takes token c' ∧ Behind first k b' c' := by
  obtain ⟨names, hnames, rfl⟩ := h
  have hlookup : ∀ name, (b.after names first k).names.lookup name = b.names.lookup name :=
    GroupNames.lookup_congr hnames
  cases htakes with
  | opening kind => exact ⟨_, .opening kind, Behind.openGroup ⟨names, hnames, rfl⟩ kind⟩
  | @closing g outer innermost =>
    have hshifts : Sequence.Shifts (· + k) b.next (b.next + k) := fun j => Nat.add_right_comm b.next j k
    have hassemble := Sequence.assemble_renumber hshifts b.items.reverse
    rw [List.map_reverse] at hassemble
    have hinnermost : (b.after names first k).outer =
        ⟨g.op, (stacked (· + k) first g.before outer).1⟩ :: (stacked (· + k) first g.before outer).2 := by
      simp [after, innermost, stacked]
    refine ⟨_, .closing hinnermost, names, hnames, ?_⟩
    simp [after, innermost, stacked, stacked_cons, hassemble, Item.renumber, Node.renumber, Nat.add_right_comm]
  | bar => exact ⟨_, .bar, names, hnames, (after_item b names first k .bar b.next).symm⟩
  | quantifier q =>
    exact ⟨_, .quantifier q, names, hnames, (after_item b names first k (.quantifier q) b.next).symm⟩
  | literal c =>
    exact ⟨_, .literal c, names, hnames.trans (congrArg _ (addLiteral_names b c).symm),
      (after_addLiteral b names first k c).symm⟩
  | leaf op => exact ⟨_, .leaf op, names, hnames, (after_addLeaf b names first k op).symm⟩
  | reference known =>
    exact ⟨_, .reference ((hlookup _).trans known), names, hnames, (after_addLeaf b names first k _).symm⟩
  | cross ignoreCase known =>
    exact ⟨_, .cross ignoreCase ((hlookup _).trans known), names, hnames,
      (after_addLeaf b names first k _).symm⟩
  | @want name ignoreCase unknown =>
    refine ⟨_, .want ignoreCase ((hlookup _).trans unknown), names.want name, ?_,
      (after_addLeaf b (names.want name) first k _).symm⟩
    exact (GroupNames.want_defined names name).trans (hnames.trans (GroupNames.want_defined b.names name).symm)

/-- Tokens add the same after other items. -/
theorem Behind.addAll (tokens : List (Nat × Token)) : ∀ {b b' c : Builder}, Behind first k b c →
    b.addAll tokens = .ok b' → ∃ c', c.addAll tokens = .ok c' ∧ Behind first k b' c' := by
  induction tokens with
  | nil =>
    intro b b' c h hadd
    obtain rfl := Except.ok.inj hadd
    exact ⟨c, rfl, h⟩
  | cons entry tokens ih =>
    intro b b' c h hadd
    obtain ⟨b₁, htakes, hrest⟩ := addAll_cons.1 hadd
    obtain ⟨c₁, htakes₁, hbehind⟩ := h.add htakes
    obtain ⟨c', hrest', hbehind'⟩ := ih hbehind hrest
    exact ⟨c', addAll_cons.2 ⟨c₁, htakes₁, hrest'⟩, hbehind'⟩

end

end Builder

end

end SpanRegex.Pattern
