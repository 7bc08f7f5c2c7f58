import Mathlib.Data.List.Forall2
import SpanRegex.Proofs.Arena
import SpanRegex.Proofs.Numbering

/-! # Sequences become alternatives

When a group closes, its items are cut at the bars. Every alternative has the atoms of its run in their
order, and every quantifier holds what stands right before it.

* `Binds`: the nodes of a run of atoms and quantifiers; `Operand`: those of a run that may be empty.
* `alternation`: every alternative but the last inside a node of its own, the last one after them.
* `pad`, `split?`: the work in two passes, first the missing operands and the quantifiers, then the bars;
  `split_pad`: the second pass meets nothing that it has no answer for.
* `Laid`: a chain that stands in a store; `Padded.of_nodes`, `Laid.of_split`: the passes over a store do what
  the passes over trees do; `laid_restructure`.
* `assemble_alternation`: the chain of a sequence, its alternatives, its new numbers and the two passes.
-/

namespace SpanRegex.Pattern
set_option autoImplicit false

/-! ## Items of a store -/

/-- The item as a part, in which a node stands by its number. -/
def Item.part : Item → Part
  | .atom node => .atom node.id
  | .bar => .bar
  | .quantifier q => .quantifier q

/-- The item as the first pass puts it out. -/
def Item.cut : Item → Option Nat
  | .atom node => some node.id
  | .bar => none
  | .quantifier _ => none

/-- The nodes of the item: one that is not linked to others, and those below it. -/
def Item.alone : Item → List Linked
  | .atom node => node.alone
  | .bar => []
  | .quantifier _ => []

namespace Sequence

/-! ## Runs between bars -/

/-- The nodes of a run: the atoms in order, each inside the loops of the quantifiers that follow it. A
quantifier at the start of the run repeats an empty node. -/
inductive Binds : List Item → List Node → Prop
  | none : Binds [] []
  | atom {items : List Item} {nodes : List Node} (node : Node) :
      Binds items nodes → Binds (items ++ [.atom node]) (nodes ++ [node])
  | wrap {items : List Item} {nodes : List Node} {node : Node} (id : Nat) (q : Quantifier) :
      Binds items (nodes ++ [node]) → Binds (items ++ [.quantifier q]) (nodes ++ [loopNode id q node])
  | bare (id empty : Nat) (q : Quantifier) : Binds [.quantifier q] [loopNode id q (emptyNode empty)]

/-- The nodes of an operand: an empty node stands for a run without items. -/
inductive Operand : List Item → List Node → Prop
  | written {items : List Item} {nodes : List Node} : Binds items nodes → items ≠ [] → Operand items nodes
  | missing (id : Nat) : Operand [] [emptyNode id]

theorem Binds.eq_nil_iff {items : List Item} {nodes : List Node} (h : Binds items nodes) :
    items = [] ↔ nodes = [] := by
  cases h <;> simp

theorem Binds.operand {items : List Item} {run : List Node} (h : Binds items run.reverse) (id : Nat) :
    Operand items (if run = [] then [emptyNode id] else run.reverse) := by
  by_cases hrun : run = []
  · subst hrun
    obtain rfl := h.eq_nil_iff.2 rfl
    exact .missing id
  · rw [if_neg hrun]
    exact .written h fun hnil => hrun (List.reverse_eq_nil_iff.1 (h.eq_nil_iff.1 hnil))

theorem splitOn_bar (items : List Item) : (Item.bar :: items).splitOn .bar = [] :: items.splitOn .bar := by
  rw [List.splitOn, List.splitOnP_cons_eq_if_modifyHead, if_pos (beq_self_eq_true _)]
  rfl

theorem splitOn_cons {item : Item} (hbar : item ≠ .bar) (written items : List Item) :
    ((item :: items).splitOn .bar).modifyHead (written ++ ·) =
      (items.splitOn .bar).modifyHead ((written ++ [item]) ++ ·) := by
  rw [List.splitOn, List.splitOnP_cons_eq_if_modifyHead, if_neg (by simpa using hbar), List.modifyHead_modifyHead]
  congr 1
  funext rest
  simp

theorem Operand.ne_nil {items : List Item} {nodes : List Node} (h : Operand items nodes) : nodes ≠ [] := by
  cases h with
  | written hbinds hne => exact fun hnil => hne (hbinds.eq_nil_iff.2 hnil)
  | missing id => exact List.cons_ne_nil _ _

theorem length_splitOn (items : List Item) : (items.splitOn .bar).length = items.count .bar + 1 := by
  induction items with
  | nil => rfl
  | cons item items ih =>
    by_cases hbar : item = .bar
    · rw [hbar, splitOn_bar, List.length_cons, ih, List.count_cons_self]
    · have hcons := congrArg List.length (splitOn_cons hbar [] items)
      rw [List.length_modifyHead, List.length_modifyHead] at hcons
      rw [hcons, ih, List.count_cons_of_ne hbar]

/-- The alternatives are the operands between the bars; `written` are the items whose nodes are in `run`. -/
theorem operands_of_alternatives (items : List Item) : ∀ (next : Nat) (run : List Node)
    (written : List Item), Binds written run.reverse →
      List.Forall₂ Operand ((items.splitOn .bar).modifyHead (written ++ ·)) (alternatives next run items).1 := by
  induction items with
  | nil =>
    intro next run written h
    have hoperand := h.operand next
    cases run <;> simpa [alternatives] using hoperand
  | cons item items ih =>
    intro next run written h
    cases item with
    | atom node =>
      rw [splitOn_cons Item.noConfusion, alternatives]
      refine ih next _ _ ?_
      rw [List.reverse_cons]
      exact h.atom node
    | bar =>
      rw [splitOn_bar, List.modifyHead_cons, List.append_nil]
      have hoperand := h.operand next
      have hrest : ∀ next', List.Forall₂ Operand (items.splitOn .bar) (alternatives next' [] items).1 := by
        intro next'
        have hafter := ih next' [] [] .none
        rwa [show (([] : List Item) ++ ·) = id from rfl, List.modifyHead_id] at hafter
      cases run with
      | nil => exact .cons hoperand (hrest (next + 1))
      | cons node run => exact .cons hoperand (hrest next)
    | quantifier q =>
      rw [splitOn_cons Item.noConfusion]
      cases run with
      | nil =>
        obtain rfl := h.eq_nil_iff.2 rfl
        exact ih (next + 2) _ _ (.bare (next + 1) next q)
      | cons node run =>
        refine ih (next + 1) _ _ ?_
        rw [List.reverse_cons] at h ⊢
        exact h.wrap next q

/-! ## The chain of the alternatives -/

/-- A node for every alternative, which has the number given with it. -/
def hang (lefts : List (List Node × Nat)) : List Node :=
  lefts.map fun left => .box left.2 .alternative (.ofNodes left.1)

/-- Every alternative but the last inside a node of its own, the last one after them. -/
def alternation (lefts : List (List Node × Nat)) (last : List Node) : Chain := .ofNodes (hang lefts ++ last)

theorem alternatives_ne_nil (next : Nat) (run : List Node) (items : List Item) :
    (alternatives next run items).1 ≠ [] := by
  induction items generalizing next run with
  | nil => cases run <;> simp [alternatives]
  | cons item items ih =>
    cases item with
    | atom node => exact ih next (node :: run)
    | bar => cases run <;> exact List.cons_ne_nil _ _
    | quantifier q => cases run <;> exact ih _ _

/-- A sequence has one operand before each bar and one after the last. -/
theorem exists_operands (next : Nat) (items : List Item) :
    ∃ lefts last, (alternatives next [] items).1 = lefts ++ [last] ∧
      List.Forall₂ Operand (items.splitOn .bar) (lefts ++ [last]) := by
  have hoperands := operands_of_alternatives items next [] [] .none
  rw [show (([] : List Item) ++ ·) = id from rfl, List.modifyHead_id] at hoperands
  obtain ⟨lefts, last, hruns⟩ := (List.eq_nil_or_concat _).resolve_left (alternatives_ne_nil next [] items)
  rw [List.concat_eq_append] at hruns
  exact ⟨lefts, last, hruns, hruns ▸ hoperands⟩

theorem assemble_eq (next : Nat) (items : List Item) :
    assemble next items = chain (alternatives next [] items).2 (alternatives next [] items).1 := rfl

theorem chain_concat (lefts : List (List Node)) (last : List Node) : ∀ next : Nat,
    chain next (lefts ++ [last]) = (alternation (lefts.zipIdx next) last, next + lefts.length) := by
  induction lefts with
  | nil => exact fun _ => rfl
  | cons first lefts ih =>
    intro next
    obtain ⟨second, rest, hrest⟩ : ∃ second rest, lefts ++ [last] = second :: rest :=
      List.exists_cons_of_ne_nil (by simp)
    rw [List.cons_append, hrest, chain, ← hrest, ih (next + 1), List.length_cons, Nat.add_right_comm,
      Nat.add_assoc]
    · rfl
    · simp

/-! ## Two passes -/

/-- The first pass: binds the quantifiers and puts an empty node where an operand is missing; `out` holds
the items that have been put out, latest first. -/
def pad (next : Nat) (out : List Item) : List Item → List Item × Nat
  | [] =>
    match out with
    | .atom _ :: _ => (out.reverse, next)
    | _ => ((.atom (emptyNode next) :: out).reverse, next + 1)
  | .atom node :: items => pad next (.atom node :: out) items
  | .bar :: items =>
    match out with
    | .atom _ :: _ => pad next (.bar :: out) items
    | _ => pad (next + 1) (.bar :: .atom (emptyNode next) :: out) items
  | .quantifier q :: items =>
    match out with
    | .atom node :: out => pad (next + 1) (.atom (loopNode next q node) :: out) items
    | _ => pad (next + 2) (.atom (loopNode (next + 1) q (emptyNode next)) :: out) items

/-- The second pass: puts the nodes since the last bar, which are in `run`, inside a node at every bar.
There is no answer for a quantifier, for a bar after no node, or for no node at all. -/
def split? (next : Nat) (before run : List Node) : List Item → Option (Chain × Nat)
  | [] =>
    match run ++ before with
    | [] => none
    | nodes => some (.ofNodes nodes.reverse, next)
  | .atom node :: items => split? next before (node :: run) items
  | .bar :: items =>
    match run with
    | [] => none
    | _ :: _ => split? (next + 1) (.box next .alternative (.ofNodes run.reverse) :: before) [] items
  | .quantifier _ :: _ => none

def barred : List (List Node) → List Item
  | [] => []
  | [last] => last.map .atom
  | first :: rest => first.map .atom ++ .bar :: barred rest

theorem barred_cons (first : List Node) {rest : List (List Node)} (hne : rest ≠ []) :
    barred (first :: rest) = first.map .atom ++ .bar :: barred rest := by
  cases rest with
  | nil => exact absurd rfl hne
  | cons second rest => rfl

/-- What the first pass puts out: the alternatives of the rest, of which `run` holds the first nodes. -/
theorem pad_eq (items : List Item) : ∀ (next : Nat) (run : List Node) (out : List Item),
    (∀ node, out.head? ≠ some (.atom node)) →
      pad next (run.map .atom ++ out) items =
        (out.reverse ++ barred (alternatives next run items).1, (alternatives next run items).2) := by
  induction items with
  | nil =>
    intro next run out hout
    cases run with
    | nil =>
      rw [List.map_nil, List.nil_append, pad]
      · simp [alternatives, barred]
      · rintro node rest rfl
        exact hout node rfl
    | cons node run => simp [pad, alternatives, barred]
  | cons item items ih =>
    intro next run out hout
    cases item with
    | atom node => exact ih next (node :: run) out hout
    | bar =>
      cases run with
      | nil =>
        have hrest := ih (next + 1) [] (.bar :: .atom (emptyNode next) :: out) (by simp)
        rw [List.map_nil, List.nil_append, pad]
        · simpa [alternatives, barred_cons _ (alternatives_ne_nil (next + 1) [] items)] using hrest
        · rintro node rest rfl
          exact hout node rfl
      | cons node run =>
        have hrest := ih next [] (.bar :: ((node :: run).map .atom ++ out)) (by simp)
        simpa [pad, alternatives, barred_cons _ (alternatives_ne_nil next [] items)] using hrest
    | quantifier q =>
      cases run with
      | nil =>
        rw [List.map_nil, List.nil_append, pad]
        · exact ih (next + 2) [loopNode (next + 1) q (emptyNode next)] out hout
        · rintro node rest rfl
          exact hout node rfl
      | cons node run => exact ih (next + 1) (loopNode next q node :: run) out hout

theorem split_atoms (next : Nat) (before : List Node) (items : List Item) (nodes : List Node) :
    ∀ run : List Node, split? next before run (nodes.map .atom ++ items) =
      split? next before (nodes.reverse ++ run) items := by
  induction nodes with
  | nil => exact fun _ => rfl
  | cons node nodes ih =>
    intro run
    rw [List.map_cons, List.cons_append, split?, ih, List.reverse_cons, List.append_assoc]
    rfl

/-- The second pass makes the chain of alternatives that each have a node. -/
theorem split_barred {last : List Node} (hlast : last ≠ []) (lefts : List (List Node)) :
    (∀ nodes ∈ lefts, nodes ≠ []) → ∀ (next : Nat) (before : List Node),
      split? next before [] (barred (lefts ++ [last])) =
        some (.ofNodes (before.reverse ++ hang (lefts.zipIdx next) ++ last), next + lefts.length) := by
  induction lefts with
  | nil =>
    intro _ next before
    have hrun : last.reverse ++ before ≠ [] := by simpa using fun hnil => absurd hnil hlast
    rw [List.nil_append, barred, ← List.append_nil (last.map Item.atom), split_atoms, List.append_nil]
    cases hnodes : last.reverse ++ before with
    | nil => exact absurd hnodes hrun
    | cons node nodes =>
      simp only [split?, hnodes]
      simp [hang, ← hnodes]
  | cons first lefts ih =>
    intro hne next before
    obtain ⟨hfirst, hlefts⟩ := List.forall_mem_cons.1 hne
    rw [List.cons_append, barred_cons first (by simp), split_atoms, List.append_nil]
    cases hrun : first.reverse with
    | nil => exact absurd (List.reverse_eq_nil_iff.1 hrun) hfirst
    | cons node run =>
      rw [split?, ih hlefts, ← hrun, List.reverse_reverse]
      simp [hang, List.zipIdx_cons, Nat.add_assoc, Nat.add_comm 1]

theorem quantifier_notMem_barred (q : Quantifier) (runs : List (List Node)) :
    .quantifier q ∉ barred runs := by
  induction runs with
  | nil => exact List.not_mem_nil
  | cons first rest ih =>
    cases rest with
    | nil => simp [barred]
    | cons second rest => simpa [barred] using ih

/-- The second pass has an answer after the first, and both together make the chain of the sequence. -/
theorem split_pad (next : Nat) (items : List Item) :
    split? (pad next [] items).2 [] [] (pad next [] items).1 = some (assemble next items) := by
  obtain ⟨lefts, last, hruns, hoperands⟩ := exists_operands next items
  have hne : ∀ nodes ∈ lefts ++ [last], nodes ≠ [] := by
    intro nodes hmem
    obtain ⟨i, hi, rfl⟩ := List.getElem_of_mem hmem
    exact (hoperands.get (by rw [hoperands.length_eq]; exact hi) hi).ne_nil
  have hpad := pad_eq items next [] [] (by simp)
  rw [List.map_nil, List.append_nil] at hpad
  rw [hpad, assemble_eq, hruns, chain_concat]
  exact split_barred (hne last (by simp)) lefts (fun nodes hmem => hne nodes (by simp [hmem])) _ []

/-! ## Two passes over a store -/

/-- The first pass over a store has put out these items, and the store holds their nodes. -/
structure Padded (others : List Linked) (padded : List (Option Nat) × Arena) (items : List Item × Nat) :
    Prop where
  out : padded.1 = items.1.map Item.cut
  size : padded.2.size = items.2
  nodes : padded.2.nodes.Perm (items.1.flatMap Item.alone ++ others)

/-- The chain stands in the store, with its links; it is known by its first node. -/
structure Laid (others : List Linked) (laid : Nat × Arena) (chain : Chain × Nat) : Prop where
  head : chain.1.head? = some laid.1
  size : laid.2.size = chain.2
  nodes : laid.2.nodes.Perm (chain.1.linked none none ++ others)

section

variable {a : Arena} {others : List Linked}

theorem perm_emptyNode (h : a.nodes.Perm others) :
    (a.alloc (.leaf .empty)).nodes.Perm ((emptyNode a.size).alone ++ others) :=
  Arena.perm_alloc _ h

theorem perm_loopNode (q : Quantifier) {node : Node} (h : a.nodes.Perm (node.alone ++ others)) :
    (a.contain (.loop q) node.id).nodes.Perm ((loopNode a.size q node).alone ++ others) := by
  apply Arena.perm_contain (.loop q) (Chain.head_ofNodes [node])
  rw [Chain.linked_ofNodes_cons]
  simpa [Node.alone, Chain.ofNodes, Chain.linked, Chain.head?] using h

/-- What has been put out ends with an atom or it does not. -/
theorem atom_or_not (out : List Item) :
    (∃ node rest, out = .atom node :: rest) ∨ ∀ node rest, out ≠ .atom node :: rest := by
  match out with
  | .atom node :: rest => exact .inl ⟨node, rest, rfl⟩
  | [] => exact .inr (by simp)
  | .bar :: rest => exact .inr (by simp)
  | .quantifier q :: rest => exact .inr (by simp)

theorem map_cut_ne {out : List Item} (h : ∀ node rest, out ≠ .atom node :: rest) :
    ∀ i rest, out.map Item.cut ≠ some i :: rest := by
  match out with
  | .atom node :: rest => exact absurd rfl (h node rest)
  | [] => simp
  | .bar :: rest => simp [Item.cut]
  | .quantifier q :: rest => simp [Item.cut]

/-- The first pass over a store does what the one over trees does. -/
theorem Padded.of_nodes (items : List Item) : ∀ {a : Arena} {others : List Linked} (out : List Item),
    a.nodes.Perm (out.flatMap Item.alone ++ (items.flatMap Item.alone ++ others)) →
      Padded others (a.pad (out.map Item.cut) (items.map Item.part)) (pad a.size out items) := by
  induction items with
  | nil =>
    intro a others out h
    rcases atom_or_not out with ⟨node, rest, rfl⟩ | hout
    · refine ⟨by simp [Arena.pad, pad, Item.cut], rfl, h.trans (.append_right _ ?_)⟩
      exact (List.reverse_perm _).symm.flatMap_right _
    · have hempty := perm_emptyNode h
      rw [← List.append_assoc] at hempty
      rw [List.map_nil, Arena.pad, pad]
      · refine ⟨by simp [Item.cut, emptyNode, Node.id], Arena.size_alloc .., hempty.trans (.append_right others ?_)⟩
        exact (List.reverse_perm (.atom (emptyNode a.size) :: out)).symm.flatMap_right Item.alone
      · exact hout
      · exact map_cut_ne hout
  | cons item items ih =>
    intro a others out h
    cases item with
    | atom node =>
      refine ih (.atom node :: out) (h.trans ?_)
      rw [List.flatMap_cons, List.flatMap_cons, List.append_assoc, List.append_assoc]
      exact List.perm_append_comm_assoc _ node.alone _
    | bar =>
      rcases atom_or_not out with ⟨node, rest, rfl⟩ | hout
      · exact ih (.bar :: .atom node :: rest) h
      · have hrest := ih (.bar :: .atom (emptyNode a.size) :: out) (perm_emptyNode h)
        rw [Arena.size_alloc] at hrest
        rw [List.map_cons, Item.part, Arena.pad, pad]
        · exact hrest
        · exact hout
        · exact map_cut_ne hout
    | quantifier q =>
      rcases atom_or_not out with ⟨node, rest, rfl⟩ | hout
      · rw [List.flatMap_cons, List.append_assoc] at h
        have hloop := perm_loopNode q h
        rw [← List.append_assoc] at hloop
        have hrest := ih (.atom (loopNode a.size q node) :: rest) hloop
        rw [Arena.size_contain] at hrest
        exact hrest
      · have hloop := perm_loopNode q (perm_emptyNode h)
        rw [Arena.size_alloc, ← List.append_assoc] at hloop
        have hrest := ih (.atom (loopNode (a.size + 1) q (emptyNode a.size)) :: out) hloop
        rw [Arena.size_contain, Arena.size_alloc] at hrest
        rw [List.map_cons, Item.part, Arena.pad, pad]
        · rw [Arena.size_alloc]
          exact hrest
        · exact hout
        · exact map_cut_ne hout

/-- A row that has become siblings. -/
theorem laid_link {first : Node} {row : List Node} (h : a.nodes.Perm ((first :: row).flatMap Node.alone ++ others)) :
    Laid others (first.id, a.link (first.id :: row.map Node.id)) (.ofNodes (first :: row), a.size) :=
  ⟨Chain.head_before first _, Arena.size_link a _, Arena.perm_link h⟩

/-- A run that has become the children of an alternative. -/
theorem perm_alternative {left : Node} {row : List Node}
    (h : a.nodes.Perm ((left :: row).flatMap Node.alone ++ others)) :
    ((a.link (left.id :: row.map Node.id)).contain .alternative left.id).nodes.Perm
      ((Node.box a.size .alternative (.ofNodes (left :: row))).alone ++ others) := by
  have hcontain := Arena.perm_contain .alternative (laid_link h).head (laid_link h).nodes
  rwa [Arena.size_link] at hcontain

/-- The second pass over a store does what the one over trees does. -/
theorem Laid.of_split (items : List Item) : ∀ {a : Arena} {others : List Linked} (before run : List Node)
    {tree : Chain × Nat}, split? a.size before run items = some tree →
      a.nodes.Perm (run.flatMap Node.alone ++
        (before.flatMap Node.alone ++ (items.flatMap Item.alone ++ others))) →
      Laid others (a.split (before.map Node.id) (run.map Node.id) (items.map Item.cut)) tree := by
  induction items with
  | nil =>
    intro a others before run tree htree h
    rw [List.map_nil, Arena.split, ← List.map_append, ← List.map_reverse]
    have hnodes : a.nodes.Perm ((run ++ before).reverse.flatMap Node.alone ++ others) := by
      rw [← List.append_assoc, ← List.flatMap_append] at h
      exact h.trans (.append_right _ ((List.reverse_perm _).symm.flatMap_right _))
    rw [split?] at htree
    split at htree
    · simp at htree
    · obtain rfl := Option.some.inj htree
      cases hrow : (run ++ before).reverse with
      | nil => exact absurd (List.reverse_eq_nil_iff.1 hrow) ‹_›
      | cons first row => exact laid_link (hrow ▸ hnodes)
  | cons item items ih =>
    intro a others before run tree htree h
    cases item with
    | atom node =>
      refine ih before (node :: run) htree (h.trans ?_)
      rw [List.flatMap_cons, List.flatMap_cons, List.append_assoc, List.append_assoc]
      refine (List.Perm.append_left _ (List.perm_append_comm_assoc _ node.alone _)).trans ?_
      exact List.perm_append_comm_assoc _ node.alone _
    | bar =>
      have hnodes : a.nodes.Perm (run.reverse.flatMap Node.alone ++
          (before.flatMap Node.alone ++ (items.flatMap Item.alone ++ others))) :=
        h.trans (.append_right _ ((List.reverse_perm _).symm.flatMap_right _))
      rw [List.map_cons, Item.cut, Arena.split, ← List.map_reverse]
      cases run with
      | nil => simp [split?] at htree
      | cons node run =>
        rw [split?] at htree
        cases hrow : (node :: run).reverse with
        | nil => simp at hrow
        | cons left row =>
          rw [hrow] at htree hnodes
          have hor := perm_alternative hnodes
          rw [← List.append_assoc] at hor
          have hsize : ((a.link (left.id :: row.map Node.id)).contain .alternative left.id).size = a.size + 1 := by
            rw [Arena.size_contain, Arena.size_link]
          rw [← hsize] at htree
          simp only [List.map_cons, Arena.size_link]
          exact ih _ [] htree hor
    | quantifier q => simp [split?] at htree

/-- In a store, too, a sequence becomes its chain. -/
theorem laid_restructure {items : List Item} (h : a.nodes.Perm (items.flatMap Item.alone ++ others)) :
    Laid others (a.restructure (items.map Item.part)) (assemble a.size items) := by
  have hpadded : Padded others (a.pad [] (items.map Item.part)) (pad a.size [] items) := .of_nodes items [] h
  have hsplit := split_pad a.size items
  rw [← hpadded.size] at hsplit
  have hlaid := Laid.of_split _ [] [] hsplit hpadded.nodes
  rwa [← hpadded.out] at hlaid

end

/-- A sequence becomes the chain of its alternatives, one for each run of items between bars. The numbers
of its atoms stay, and each new node has a number of its own from `next` on. In two passes, no quantifier
is left after the first, and the second has an answer. In a store that holds the atoms, not yet linked, the
passes leave the links of the chain and change no other node. -/
theorem assemble_alternation (next : Nat) (items : List Item) :
    (∃ lefts last, (assemble next items).1 = alternation lefts last ∧ lefts.length = items.count .bar ∧
      List.Forall₂ Operand (items.splitOn .bar) (lefts.map Prod.fst ++ [last])) ∧
    Adds next (assemble next items).2 (items.flatMap Item.ids) (assemble next items).1.ids ∧
    (∀ q, .quantifier q ∉ (pad next [] items).1) ∧
    split? (pad next [] items).2 [] [] (pad next [] items).1 = some (assemble next items) ∧
    ∀ (a : Arena) (others : List Linked), a.size = next → a.nodes.Perm (items.flatMap Item.alone ++ others) →
      Laid others (a.restructure (items.map Item.part)) (assemble next items) := by
  refine ⟨?_, assemble_adds next items, fun q => ?_, split_pad next items, ?_⟩
  · obtain ⟨lefts, last, hruns, hoperands⟩ := exists_operands next items
    refine ⟨lefts.zipIdx (alternatives next [] items).2, last, ?_, ?_, ?_⟩
    · rw [assemble_eq, hruns, chain_concat]
    · have hlength := hoperands.length_eq
      rw [length_splitOn, List.length_append, List.length_singleton] at hlength
      rw [List.length_zipIdx]
      omega
    · rwa [List.zipIdx_map_fst]
  · have hpad := pad_eq items next [] [] (by simp)
    rw [List.map_nil, List.append_nil] at hpad
    rw [hpad]
    exact quantifier_notMem_barred q _
  · rintro a others rfl h
    exact laid_restructure h

/-- The items of `|a*b`. -/
def barredLoop : List Item :=
  [.bar, .atom (.leaf 0 (.unit (.literal 97))), .quantifier ⟨0, none, false⟩, .atom (.leaf 1 (.unit (.literal 98)))]

/-- The two atoms of `|a*b`, after which a third node stands. -/
def barredAtoms : Arena :=
  ((Arena.empty.alloc (.leaf (.unit (.literal 97)))).alloc (.leaf (.unit (.literal 98)))).alloc (.leaf .empty)

/-- In a store the items of `|a*b` become an alternative, which holds an empty node, a loop and an atom. -/
theorem laid_barredLoop :
    barredAtoms.nodes.Perm (barredLoop.flatMap Item.alone ++ [⟨2, .leaf .empty, none, none, none⟩]) ∧
    Laid [⟨2, .leaf .empty, none, none, none⟩] (barredAtoms.restructure (barredLoop.map Item.part))
      (.box 5 .alternative (.leaf 3 .empty .nil)
        (.box 4 (.loop ⟨0, none, false⟩) (.leaf 0 (.unit (.literal 97)) .nil)
          (.leaf 1 (.unit (.literal 98)) .nil)), 6) := by
  have hnodes : barredAtoms.nodes.Perm (barredLoop.flatMap Item.alone ++ [⟨2, .leaf .empty, none, none, none⟩]) :=
    .refl _
  exact ⟨hnodes, (assemble_alternation 3 barredLoop).2.2.2.2 barredAtoms _ rfl hnodes⟩

end Sequence

end SpanRegex.Pattern
