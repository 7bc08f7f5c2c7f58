import Mathlib.Data.List.Nodup
import SpanRegex.Pattern.Links
import SpanRegex.Proofs.Places
import SpanRegex.Proofs.Shapes
import SpanRegex.Proofs.Stale

/-! # What lies ahead of the walk

Without going back to a choice, the walk enters no node twice unless a loop around it goes round again, and
a look is left for no other node.

* `Chain.places`: the nodes of a tree, each with the containers around it; `place_unique`.
* `aheadOf`: the nodes that may be entered once the containers around have been returned to.
* `lone`: no loop around, up to the nearest look, goes round more than once; `notMem_aheadOf_of_lone`.
* `Outlook`: the nodes that may be entered, and those that may be returned to.
* `Cursor.outlook`, `Cursor.kept`: the outlook of the walk, and of a choice that keeps the cursor.
-/

namespace SpanRegex
set_option autoImplicit false

open Pattern (Chain Container Quantifier)

namespace Pattern

/-! ## Places of nodes -/

/-- The nodes of a chain in the order of the tree, each with the containers around it. -/
def Chain.places (above : List Chain) : Chain → List (Chain × List Chain)
  | .nil => []
  | .leaf id op next => (.leaf id op next, above) :: next.places above
  | .box id op body next =>
    (.box id op body next, above) :: (body.places (.box id op body next :: above) ++ next.places above)

namespace Chain

variable {tree : Chain}

theorem places_ids (c : Chain) : ∀ above, (c.places above).map (fun place => place.1.head?) = c.ids.map some := by
  induction c with
  | nil => exact fun _ => rfl
  | leaf id op next ih => exact fun above => congrArg (some id :: ·) (ih above)
  | box id op body next ihbody ihnext =>
    intro above
    simp only [places, ids, List.map_cons, List.map_append, ihbody, ihnext]
    rfl

theorem place_unique (h : tree.ids.Nodup) {y z : Chain} {ys zs : List Chain} (hy : (y, ys) ∈ tree.places [])
    (hz : (z, zs) ∈ tree.places []) (hid : y.head? = z.head?) : y = z ∧ ys = zs := by
  have hnodup : ((tree.places []).map fun place => place.1.head?).Nodup := by
    rw [places_ids]
    exact List.Nodup.map (fun _ _ heq => Option.some.inj heq) h
  exact Prod.mk.inj (List.inj_on_of_nodup_map hnodup hy hz hid)

theorem places_self {c : Chain} (h : c ≠ .nil) (above : List Chain) : (c, above) ∈ c.places above := by
  cases c with
  | nil => exact absurd rfl h
  | leaf id op next => exact List.mem_cons_self
  | box id op body next => exact List.mem_cons_self

theorem places_body {id : Nat} {op : Container} {body next : Chain} (c : Chain) : ∀ {above zs : List Chain},
    (.box id op body next, zs) ∈ c.places above → body ≠ .nil →
      (body, .box id op body next :: zs) ∈ c.places above := by
  induction c with
  | nil => exact fun h => absurd h List.not_mem_nil
  | leaf id' op' next' ih =>
    intro above zs h hne
    rcases List.mem_cons.1 h with heq | h
    · cases (Prod.mk.inj heq).1
    · exact List.mem_cons_of_mem _ (ih h hne)
  | box id' op' body' next' ihbody ihnext =>
    intro above zs h hne
    refine List.mem_cons_of_mem _ (List.mem_append.2 ?_)
    rcases List.mem_cons.1 h with heq | h
    · obtain ⟨hbox, rfl⟩ := Prod.mk.inj heq
      obtain ⟨rfl, rfl, rfl, rfl⟩ := Chain.box.inj hbox
      exact .inl (places_self hne _)
    · exact (List.mem_append.1 h).imp (fun h => ihbody h hne) fun h => ihnext h hne

theorem places_tail {y : Chain} (c : Chain) : ∀ {above zs : List Chain}, (y, zs) ∈ c.places above →
    y.tail ≠ .nil → (y.tail, zs) ∈ c.places above := by
  induction c with
  | nil => exact fun h => absurd h List.not_mem_nil
  | leaf id op next ih =>
    intro above zs h hne
    refine List.mem_cons_of_mem _ ?_
    rcases List.mem_cons.1 h with heq | h
    · obtain ⟨rfl, rfl⟩ := Prod.mk.inj heq
      exact places_self hne _
    · exact ih h hne
  | box id op body next ihbody ihnext =>
    intro above zs h hne
    refine List.mem_cons_of_mem _ (List.mem_append.2 ?_)
    rcases List.mem_cons.1 h with heq | h
    · obtain ⟨rfl, rfl⟩ := Prod.mk.inj heq
      exact .inr (places_self hne _)
    · exact (List.mem_append.1 h).imp (fun h => ihbody h hne) fun h => ihnext h hne

/-- The place of a node is that of a sibling of the chain, or lies among the children of its container. -/
theorem places_parent {y : Chain} (c : Chain) : ∀ {above ys : List Chain}, (y, ys) ∈ c.places above →
    y.ids.Sublist c.ids ∧ (ys = above ∨ ∃ id op body next zs, ys = .box id op body next :: zs ∧
      (.box id op body next, zs) ∈ c.places above ∧ y.ids.Sublist body.ids) := by
  induction c with
  | nil => exact fun h => absurd h List.not_mem_nil
  | leaf id op next ih =>
    intro above ys h
    rcases List.mem_cons.1 h with heq | h
    · obtain ⟨rfl, rfl⟩ := Prod.mk.inj heq
      exact ⟨List.Sublist.refl _, .inl rfl⟩
    · obtain ⟨hids, hplace⟩ := ih h
      refine ⟨hids.cons id, hplace.imp_right ?_⟩
      rintro ⟨id', op', body, next', zs, rfl, hmem, hsub⟩
      exact ⟨id', op', body, next', zs, rfl, List.mem_cons_of_mem _ hmem, hsub⟩
  | box id op body next ihbody ihnext =>
    intro above ys h
    rcases List.mem_cons.1 h with heq | h
    · obtain ⟨rfl, rfl⟩ := Prod.mk.inj heq
      exact ⟨List.Sublist.refl _, .inl rfl⟩
    · rcases List.mem_append.1 h with h | h
      · obtain ⟨hids, hplace⟩ := ihbody h
        refine ⟨(hids.trans (List.sublist_append_left _ _)).cons id, .inr ?_⟩
        rcases hplace with rfl | ⟨id', op', body', next', zs, rfl, hmem, hsub⟩
        · exact ⟨id, op, body, next, above, rfl, List.mem_cons_self, hids⟩
        · exact ⟨id', op', body', next', zs, rfl,
            List.mem_cons_of_mem _ (List.mem_append_left _ hmem), hsub⟩
      · obtain ⟨hids, hplace⟩ := ihnext h
        refine ⟨(hids.trans (List.sublist_append_right _ _)).cons id, hplace.imp_right ?_⟩
        rintro ⟨id', op', body', next', zs, rfl, hmem, hsub⟩
        exact ⟨id', op', body', next', zs, rfl, List.mem_cons_of_mem _ (List.mem_append_right _ hmem), hsub⟩

/-- What is around a node is around a container, and the node is among the children of that. -/
theorem place_container {y z : Chain} {zs : List Chain} (h : (y, z :: zs) ∈ tree.places []) :
    ∃ id op body next, z = .box id op body next ∧ (z, zs) ∈ tree.places [] ∧ y.ids.Sublist body.ids := by
  rcases (places_parent tree h).2 with hnil | ⟨id, op, body, next, zs', heq, hmem, hsub⟩
  · cases hnil
  · obtain ⟨rfl, rfl⟩ := List.cons.inj heq
    exact ⟨id, op, body, next, rfl, hmem, hsub⟩

theorem place_nodup (h : tree.ids.Nodup) {y : Chain} {ys : List Chain} (hy : (y, ys) ∈ tree.places []) :
    y.ids.Nodup :=
  h.sublist (places_parent tree hy).1

theorem ids_of_head {y : Chain} {id : Nat} (h : y.head? = some id) : y.ids = id :: y.ids.tail := by
  cases y with
  | nil => cases h
  | leaf id' op next =>
    obtain rfl := Option.some.inj h
    rfl
  | box id' op body next =>
    obtain rfl := Option.some.inj h
    rfl

theorem notMem_tail_ids (h : tree.ids.Nodup) {y : Chain} {ys : List Chain} {id : Nat}
    (hy : (y, ys) ∈ tree.places []) (hid : y.head? = some id) : id ∉ y.ids.tail := by
  have hnodup := place_nodup h hy
  rw [ids_of_head hid] at hnodup
  exact (List.nodup_cons.1 hnodup).1

/-- The numbers of the first nodes of some chains. -/
def heads (chains : List Chain) : List Nat := chains.filterMap head?

theorem place_of_mem {ys : List Chain} : ∀ {y : Chain}, (y, ys) ∈ tree.places [] → ∀ z ∈ ys,
    ∃ zs, (z, zs) ∈ tree.places [] ∧ zs.length < ys.length := by
  induction ys with
  | nil => exact fun _ z hz => absurd hz List.not_mem_nil
  | cons x xs ih =>
    intro y hy z hz
    obtain ⟨_, _, _, _, -, hx, -⟩ := place_container hy
    rcases List.mem_cons.1 hz with rfl | hz
    · exact ⟨xs, hx, Nat.lt_succ_self _⟩
    · obtain ⟨zs, hmem, hlt⟩ := ih hx z hz
      exact ⟨zs, hmem, Nat.lt_succ_of_lt hlt⟩

theorem notMem_heads (h : tree.ids.Nodup) {y : Chain} {ys : List Chain} {id : Nat}
    (hy : (y, ys) ∈ tree.places []) (hid : y.head? = some id) : id ∉ heads ys := by
  intro hmem
  obtain ⟨z, hz, hzid⟩ := List.mem_filterMap.1 hmem
  obtain ⟨zs, hplace, hlt⟩ := place_of_mem hy z hz
  obtain ⟨-, rfl⟩ := place_unique h hplace hy (hzid.trans hid.symm)
  exact Nat.lt_irrefl _ hlt

end Chain

/-! ## Nodes ahead -/

/-- The loop runs once at most. -/
def Quantifier.once (q : Quantifier) : Bool := q.min ≤ 1 && q.max.any (· ≤ 1)

/-- The nodes that may be entered after a container has been returned to, given those that may be entered
after the containers around it. A loop that runs once does not go round again unless it is entered again;
nothing comes after a look, which is left by way of its choice. -/
def Chain.after (y : Chain) (ahead : List Nat) : List Nat :=
  match y with
  | .box _ (.look _) _ _ => []
  | .box id (.loop q) body next =>
    (if q.once = true ∧ id ∉ ahead then [] else body.ids) ++ (next.ids ++ ahead)
  | y => y.tail.ids ++ ahead

/-- The nodes that may be entered once the containers have been returned to, innermost first. -/
def aheadOf (above : List Chain) : List Nat := above.foldr Chain.after []

/-- No loop among the containers runs more than once, up to the nearest look. -/
def lone : List Chain → Bool
  | [] => true
  | .box _ (.look _) _ _ :: _ => true
  | .box _ (.loop q) _ _ :: above => q.once && lone above
  | _ :: above => lone above

@[simp] theorem aheadOf_cons (y : Chain) (above : List Chain) : aheadOf (y :: above) = y.after (aheadOf above) := rfl

variable {y : Chain} {tree : Chain} {above ys : List Chain}

theorem Chain.tail_ids_subset (y : Chain) : y.tail.ids ⊆ y.ids.tail := by
  cases y with
  | nil => exact List.Subset.refl _
  | leaf id op next => exact List.Subset.refl _
  | box id op body next => exact List.subset_append_right _ _

theorem Chain.after_subset (y : Chain) (ahead : List Nat) : y.after ahead ⊆ y.ids.tail ++ ahead := by
  have htail : ∀ z : Chain, z.tail.ids ++ ahead ⊆ z.ids.tail ++ ahead := fun z =>
    List.append_subset.2 ⟨List.Subset.trans (tail_ids_subset z) (List.subset_append_left _ _),
      List.subset_append_right _ _⟩
  unfold after
  split
  · exact List.nil_subset _
  · rename_i id q body next
    have hbody : body.ids ⊆ (Chain.box id (.loop q) body next).ids.tail ++ ahead := fun i hi =>
      List.mem_append_left _ (List.mem_append_left _ hi)
    refine List.append_subset.2 ⟨?_, htail (.box id (.loop q) body next)⟩
    split
    · exact List.nil_subset _
    · exact hbody
  · exact htail _

/-- Where every loop around runs once, no node is entered again. -/
theorem notMem_aheadOf_of_lone (h : tree.ids.Nodup) : ∀ {y : Chain}, (y, ys) ∈ tree.places [] →
    lone ys = true → ∀ i ∈ y.ids, i ∉ aheadOf ys := by
  induction ys with
  | nil => exact fun _ _ _ _ => List.not_mem_nil
  | cons z zs ih =>
    intro y hy hlone i hi
    obtain ⟨id, op, body, next, rfl, hz, hsub⟩ := Chain.place_container hy
    have hbody : i ∈ body.ids := hsub.subset hi
    obtain ⟨hown, hrest⟩ := List.nodup_cons.1 (Chain.place_nodup h hz)
    have hnext : i ∉ next.ids := fun hmem => (List.nodup_append.1 hrest).2.2 i hbody i hmem rfl
    have hself : i ∈ (Chain.box id op body next).ids := Chain.mem_ids_of_body hbody
    have hplain : lone zs = true → i ∉ next.ids ++ aheadOf zs := fun hlone =>
      List.mem_append.not.2 (not_or.2 ⟨hnext, ih hz hlone i hself⟩)
    cases op with
    | look look => exact List.not_mem_nil
    | loop q =>
      obtain ⟨honce, hlone⟩ := Bool.and_eq_true_iff.1 hlone
      have hid : id ∉ aheadOf zs := ih hz hlone id List.mem_cons_self
      rw [aheadOf_cons, Chain.after, if_pos ⟨honce, hid⟩]
      exact hplain hlone
    | group capture => exact hplain hlone
    | alternative => exact hplain hlone

end Pattern

open Pattern (aheadOf)

/-! ## Outlooks -/

/-- The numbers of the nodes that may be entered, and of those that may be returned to. -/
structure Outlook where
  enters : List Nat
  returns : List Nat

/-- There is no more to come: what may be returned to is there already, or may be entered first. -/
structure Outlook.Within (o o' : Outlook) : Prop where
  enters : o.enters ⊆ o'.enters
  returns : o.returns ⊆ o'.enters ++ o'.returns

theorem Outlook.Within.trans {o o' o'' : Outlook} (h : o.Within o') (h' : o'.Within o'') : o.Within o'' :=
  ⟨List.Subset.trans h.enters h'.enters, List.Subset.trans h.returns
    (List.append_subset.2 ⟨List.Subset.trans h'.enters (List.subset_append_left _ _), h'.returns⟩)⟩

namespace Cursor

/-- The outlook of the walk. -/
def outlook (c : Cursor) : Outlook where
  enters := if c.entering then c.chain.ids ++ aheadOf c.above else aheadOf (c.chain :: c.above)
  returns := Chain.heads c.active

/-- The outlook of a choice that keeps the cursor. -/
def kept (c : Cursor) : Outlook where
  enters := c.chain.ids.tail ++ aheadOf c.above
  returns := Chain.heads c.around

variable {c : Cursor} {onto : Chain} {pos : Nat}

theorem head_mem_enters {id : Nat} (hentering : c.entering = true) (hid : c.chain.head? = some id) :
    id ∈ c.outlook.enters := by
  simp only [outlook, hentering, if_true]
  rw [Chain.ids_of_head hid]
  exact List.mem_cons_self

theorem head_mem_returns {id : Nat} (hleaving : c.entering = false) (hid : c.chain.head? = some id) :
    id ∈ c.outlook.returns := by
  simp only [outlook, active, hleaving, Bool.false_eq_true, if_false]
  exact List.mem_filterMap.2 ⟨c.chain, List.mem_cons_self, hid⟩

theorem head_mem_kept {id : Nat} (hid : c.chain.head? = some id) : id ∈ c.kept.returns :=
  List.mem_filterMap.2 ⟨c.chain, List.mem_cons_self, hid⟩

theorem outlook_leave_enters (c : Cursor) (onto : Chain) (pos : Nat) :
    (c.leave onto pos).outlook.enters ⊆ onto.ids ++ aheadOf c.above := by
  unfold leave
  split
  · exact List.nil_subset _
  · rename_i habove
    rw [habove]
    exact List.subset_append_right _ _
  · exact List.Subset.refl _

theorem active_leave_subset (c : Cursor) (onto : Chain) (pos : Nat) :
    Chain.heads (c.leave onto pos).active ⊆ Chain.heads c.above := by
  intro id hid
  obtain ⟨x, hx, hhead⟩ := List.mem_filterMap.1 hid
  rcases mem_active_leave hx with hx | rfl
  · exact List.mem_filterMap.2 ⟨x, hx, hhead⟩
  · cases hhead

theorem heads_above_subset (c : Cursor) : Chain.heads c.above ⊆ Chain.heads c.around :=
  ((List.sublist_cons_self c.chain c.above).filterMap _).subset

theorem outlook_leave_kept (h : onto = c.chain.tail ∨ onto = .nil) (pos : Nat) :
    (c.leave onto pos).outlook.Within c.kept := by
  constructor
  · refine List.Subset.trans (outlook_leave_enters c onto pos)
      (List.append_subset.2 ⟨?_, List.subset_append_right _ _⟩)
    rcases h with rfl | rfl
    · exact List.Subset.trans (Chain.tail_ids_subset _) (List.subset_append_left _ _)
    · exact List.nil_subset _
  · refine List.Subset.trans (active_leave_subset c onto pos) ?_
    exact List.Subset.trans (heads_above_subset c) (List.subset_append_right _ _)

theorem outlook_proceed_kept (hne : c.chain ≠ .nil) : c.proceed.outlook.Within c.kept := by
  cases hchain : c.chain with
  | nil => exact absurd hchain hne
  | leaf id op next =>
    simp only [proceed, hchain]
    exact outlook_leave_kept (.inl (by rw [hchain]; rfl)) c.pos
  | box id op body next =>
    simp only [proceed, hchain]
    exact outlook_leave_kept (.inl (by rw [hchain]; rfl)) c.pos

theorem outlook_descend_kept {id : Nat} {op : Container} {body next : Chain}
    (here : c.chain = .box id op body next) (pos : Nat) : (c.descend body pos).outlook.Within c.kept := by
  constructor
  · refine List.append_subset.2 ⟨fun i hi => ?_, Chain.after_subset _ _⟩
    refine List.mem_append_left _ ?_
    rw [here]
    exact List.mem_append_left _ hi
  · exact List.subset_append_right _ _

/-- A choice that is opened where a node is entered has nothing more to come than the walk. -/
theorem kept_outlook (hentering : c.entering = true) : c.kept.Within c.outlook := by
  constructor
  · simp only [kept, outlook, hentering, if_true]
    exact List.append_subset.2 ⟨List.Subset.trans (List.tail_sublist _).subset (List.subset_append_left _ _),
      List.subset_append_right _ _⟩
  · intro id hid
    simp only [outlook, hentering, if_true]
    obtain ⟨x, hx, hhead⟩ := List.mem_filterMap.1 hid
    rcases List.mem_cons.1 hx with rfl | hx
    · refine List.mem_append_left _ (List.mem_append_left _ ?_)
      rw [Chain.ids_of_head hhead]
      exact List.mem_cons_self
    · refine List.mem_append_right _ (List.mem_filterMap.2 ⟨x, ?_, hhead⟩)
      exact mem_active_of_above hx

/-- So has a choice that is opened where a loop is returned to that may go round again. -/
theorem kept_outlook_loop {id : Nat} {q : Quantifier} {body next : Chain}
    (here : c.chain = .box id (.loop q) body next) (hagain : ¬(q.once = true ∧ id ∉ aheadOf c.above)) :
    c.kept.Within c.outlook := by
  cases hentering : c.entering with
  | true => exact kept_outlook hentering
  | false =>
    constructor
    · have hafter : c.chain.after (aheadOf c.above) = c.chain.ids.tail ++ aheadOf c.above := by
        rw [here, Chain.after, if_neg hagain, ← List.append_assoc]
        rfl
      simp only [kept, outlook, hentering, Pattern.aheadOf_cons, hafter, Bool.false_eq_true, if_false]
      exact List.Subset.refl _
    · refine List.Subset.trans ?_ (List.subset_append_right _ _)
      simp only [kept, outlook, active, around, hentering, Bool.false_eq_true, if_false]
      exact List.Subset.refl _

/-- The walk leaves a node for nothing that was not to come. -/
theorem outlook_leave (h : onto = c.chain.tail ∨ onto = .nil) (hlook : c.chain.isLook = true → c.entering = true)
    (pos : Nat) : (c.leave onto pos).outlook.Within c.outlook := by
  cases hentering : c.entering with
  | true => exact (outlook_leave_kept h pos).trans (kept_outlook hentering)
  | false =>
    have htail : c.chain.tail.ids ++ aheadOf c.above ⊆ c.chain.after (aheadOf c.above) := by
      unfold Chain.after
      split
      · rename_i hchain
        rw [hlook (by rw [hchain]; rfl)] at hentering
        cases hentering
      · rename_i hchain
        rw [hchain]
        exact List.subset_append_right _ _
      · exact List.Subset.refl _
    constructor
    · simp only [outlook, hentering, Bool.false_eq_true, if_false]
      refine List.Subset.trans (outlook_leave_enters c onto pos) (List.Subset.trans ?_ htail)
      refine List.append_subset.2 ⟨?_, List.subset_append_right _ _⟩
      rcases h with rfl | rfl
      · exact List.subset_append_left _ _
      · exact List.nil_subset _
    · refine List.Subset.trans (active_leave_subset c onto pos) ?_
      simp only [outlook, active, hentering, Bool.false_eq_true, if_false]
      exact List.Subset.trans (heads_above_subset c) (List.subset_append_right _ _)

/-! ## Places of cursors -/

/-- The cursor is at a node of the tree. -/
def AtNode (tree : Chain) (c : Cursor) : Prop := (c.chain, c.above) ∈ tree.places []

/-- The cursor is at a node of the tree, or at none. -/
def Stands (tree : Chain) (c : Cursor) : Prop := c.chain = .nil ∨ c.AtNode tree

theorem stands_start (tree : Chain) (pos : Nat) : (Cursor.start tree pos).Stands tree := by
  by_cases hne : tree = .nil
  · exact .inl hne
  · exact .inr (Chain.places_self hne [])

end Cursor

theorem Setting.spreads_stands (s : Setting) (tree : Chain) :
    s.Spreads (Cursor.Stands tree) (Cursor.AtNode tree) where
  leave _ hne _ h := h.resolve_left hne
  next c c' h hnext := by
    unfold Cursor.AtNode at h
    cases hnext with
    | @down id pos op body next here pos_eq =>
      rw [here] at h
      by_cases hbody : body = .nil
      · exact .inl hbody
      · refine .inr ?_
        simp only [Cursor.AtNode, Cursor.descend, here]
        exact Chain.places_body tree h hbody
    | @on onto pos onto_eq le inside =>
      unfold Cursor.leave
      split
      · exact .inl rfl
      · rename_i container above habove
        rw [habove] at h
        obtain ⟨_, _, _, _, -, hcontainer, -⟩ := Chain.place_container h
        exact .inr hcontainer
      · rcases onto_eq with rfl | rfl
        · by_cases htail : c.chain.tail = .nil
          · exact .inl htail
          · exact .inr (Chain.places_tail tree h htail)
        · exact .inl rfl

end SpanRegex
