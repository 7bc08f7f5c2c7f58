import SpanRegex.Proofs.Moves

/-! # Working values of earlier attempts

The working values of the nodes are not reset between attempts. They need not be: every start, count
and guard that an attempt reads it has written itself, and going back to a choice restores the guards
that were there when it was opened. Two machines with the same captures and choices, whose values
agree at the nodes that the walk is in, take the same turns.

* `Machine.guardsAt`: the guards when the trail had a given length.
* `Machine.SameValues`, `SameGuards`, `SameChoices`: two machines agree at some nodes.
* `Machine.Mirrors`: two machines agree as far as the walk can tell; `mirrors_turn`.
* `attempt_stale`: an attempt does not depend on the values that earlier ones have left.
-/

namespace SpanRegex
set_option autoImplicit false

open Pattern (Chain Container Edge Leaf Look Quantifier Slot)

/-! ## Guards of the past -/

/-- The guards when the trail had the given length. -/
def Machine.guardsAt (m : Machine) (length : Nat) : Nat → Option Nat :=
  undo (m.trail.toList.drop length) m.guards.get

namespace Machine

variable {m m' : Machine}

theorem guardsAt_size (m : Machine) : m.guardsAt m.trail.size = m.guards.get := by
  have hlen : m.trail.toList.length ≤ m.trail.size := by simp
  simp only [guardsAt, List.drop_of_length_le hlen, undo]

theorem Covers.guardsAt (h : m'.Covers m) {n : Nat} (hn : n ≤ m.trail.size) :
    m'.guardsAt n = m.guardsAt n := by
  obtain ⟨writes, htrail, hguards⟩ := h
  have hlen : n ≤ m.trail.toList.length := by simpa using hn
  simp only [Machine.guardsAt, htrail, List.drop_append_of_le_length hlen, undo_append, hguards]

theorem guardsAt_unwind (m : Machine) {n k : Nat} (hk : k ≤ n) :
    (m.unwind n).guardsAt k = m.guardsAt k := by
  obtain ⟨htrail, hguards⟩ := m.unwind_eq n
  have hsplit : m.trail.toList.drop k = (m.trail.toList.take n).drop k ++ m.trail.toList.drop n := by
    by_cases hn : n ≤ m.trail.toList.length
    · conv_lhs => rw [← List.take_append_drop n m.trail.toList]
      have hlen : k ≤ (m.trail.toList.take n).length := by
        rw [List.length_take]
        exact Nat.le_min.2 ⟨hk, Nat.le_trans hk hn⟩
      rw [List.drop_append_of_le_length hlen]
    · have hle : m.trail.toList.length ≤ n := Nat.le_of_not_le hn
      rw [List.take_of_length_le hle, List.drop_of_length_le hle, List.append_nil]
  simp only [guardsAt, htrail, hguards, hsplit, undo_append]

theorem unwind_size (m : Machine) {n : Nat} (hn : n ≤ m.trail.size) : (m.unwind n).trail.size = n := by
  have h := congrArg List.length (m.unwind_eq n).1
  simpa [Nat.min_eq_left hn] using h

end Machine

/-! ## Agreement -/

/-- The number of the first node, if it is a group. -/
def Pattern.Chain.groupId? : Chain → Option Nat
  | .box id (.group _) _ _ => some id
  | _ => none

def Pattern.Chain.loopId? : Chain → Option Nat
  | .box id (.loop _) _ _ => some id
  | _ => none

/-- The groups among the nodes were entered at the same offsets, and the loops have the same counts. -/
structure Machine.SameValues (nodes : List Chain) (a b : Machine) : Prop where
  starts : ∀ x ∈ nodes, ∀ i, x.groupId? = some i → b.starts.get i = a.starts.get i
  counts : ∀ x ∈ nodes, ∀ i, x.loopId? = some i → b.counts.get i = a.counts.get i

def SameGuards (nodes : List Chain) (g h : Nat → Option Nat) : Prop :=
  ∀ x ∈ nodes, ∀ i, x.loopId? = some i → h i = g i

/-- The node at the cursor and the containers around it. -/
def Cursor.around (c : Cursor) : List Chain := c.chain :: c.above

/-- The same choices are open, and at the nodes around each of them the values agree, the guards being
those that going back to it restores. The trails were longer the later a choice was opened. -/
inductive SameChoices (a b : Machine) : Nat → Nat → List Frame → List Frame → Prop
  | nil (n k : Nat) : SameChoices a b n k [] []
  | cons {n k : Nat} {f g : Frame} {fs gs : List Frame} (cursor : g.cursor = f.cursor)
      (choice : g.choice = f.choice) (size : f.trail ≤ n) (size' : g.trail ≤ k)
      (values : a.SameValues f.cursor.around b)
      (guards : SameGuards f.cursor.around (a.guardsAt f.trail) (b.guardsAt g.trail))
      (below : SameChoices a b f.trail g.trail fs gs) : SameChoices a b n k (f :: fs) (g :: gs)

/-- The machines cannot be told apart by a walk that is in the nodes given. -/
structure Machine.Mirrors (nodes : List Chain) (a b : Machine) : Prop where
  captures : b.captures = a.captures
  startPinned : b.startPinned = a.startPinned
  stopPinned : b.stopPinned = a.stopPinned
  values : a.SameValues nodes b
  guards : SameGuards nodes a.guards.get b.guards.get
  choices : SameChoices a b a.trail.size b.trail.size a.frames b.frames

/-- Nodes whose values are never read in addition. -/
def Covered (nodes nodes' : List Chain) : Prop :=
  ∀ x ∈ nodes', x ∈ nodes ∨ x.groupId? = none ∧ x.loopId? = none

theorem Covered.refl (nodes : List Chain) : Covered nodes nodes := fun _ => .inl

namespace Machine

variable {a b a' b' : Machine} {nodes nodes' : List Chain}

theorem SameValues.mono (h : a.SameValues nodes b) (hcovered : Covered nodes nodes') :
    a.SameValues nodes' b where
  starts x hx i hi := (hcovered x hx).elim (fun hx => h.starts x hx i hi) fun hnone => by
    rw [hnone.1] at hi
    simp at hi
  counts x hx i hi := (hcovered x hx).elim (fun hx => h.counts x hx i hi) fun hnone => by
    rw [hnone.2] at hi
    simp at hi

/-- The machines still agree wherever they have agreed. -/
structure Follow (a b a' b' : Machine) : Prop where
  starts : ∀ i, b.starts.get i = a.starts.get i → b'.starts.get i = a'.starts.get i
  counts : ∀ i, b.counts.get i = a.counts.get i → b'.counts.get i = a'.counts.get i

theorem Follow.of_eq (ha : a'.starts = a.starts) (hb : b'.starts = b.starts)
    (ha' : a'.counts = a.counts) (hb' : b'.counts = b.counts) : Follow a b a' b' :=
  ⟨fun i h => by rw [ha, hb, h], fun i h => by rw [ha', hb', h]⟩

theorem SameValues.follow (h : a.SameValues nodes b) (hfollow : Follow a b a' b') :
    a'.SameValues nodes b' :=
  ⟨fun x hx i hi => hfollow.starts i (h.starts x hx i hi),
    fun x hx i hi => hfollow.counts i (h.counts x hx i hi)⟩

end Machine

section

variable {a b a' b' : Machine} {nodes nodes' : List Chain}

theorem SameGuards.mono {g h : Nat → Option Nat} (hsame : SameGuards nodes g h)
    (hcovered : Covered nodes nodes') : SameGuards nodes' g h := fun x hx i hi =>
  (hcovered x hx).elim (fun hx => hsame x hx i hi) fun hnone => by
    rw [hnone.2] at hi
    simp at hi

/-- Choices stay the same if values go on to agree and the guards of the past are not touched. -/
theorem SameChoices.follow {n k : Nat} {fs gs : List Frame} (h : SameChoices a b n k fs gs)
    (hfollow : Machine.Follow a b a' b') (ha : ∀ j, j ≤ n → a'.guardsAt j = a.guardsAt j)
    (hb : ∀ j, j ≤ k → b'.guardsAt j = b.guardsAt j) : SameChoices a' b' n k fs gs := by
  induction h with
  | nil => exact .nil _ _
  | @cons n k f g fs gs cursor choice size size' values guards below ih =>
    refine .cons cursor choice size size' (values.follow hfollow) ?_
      (ih (fun j hj => ha j (Nat.le_trans hj size)) fun j hj => hb j (Nat.le_trans hj size'))
    rw [ha _ size, hb _ size']
    exact guards

theorem SameChoices.mono {n k n' k' : Nat} {fs gs : List Frame} (h : SameChoices a b n k fs gs)
    (hn : n ≤ n') (hk : k ≤ k') : SameChoices a b n' k' fs gs := by
  cases h with
  | nil => exact .nil _ _
  | cons cursor choice size size' values guards below =>
    exact .cons cursor choice (Nat.le_trans size hn) (Nat.le_trans size' hk) values guards below

end

/-! ## Changes that keep the agreement -/

namespace Machine.Mirrors

variable {a b : Machine} {nodes nodes' : List Chain}

theorem mono (h : a.Mirrors nodes b) (hcovered : Covered nodes nodes') : a.Mirrors nodes' b :=
  { h with values := h.values.mono hcovered, guards := h.guards.mono hcovered }

theorem visited (h : a.Mirrors nodes b) : a.visited.Mirrors nodes b.visited :=
  ⟨h.captures, h.startPinned, h.stopPinned, h.values.follow (.of_eq rfl rfl rfl rfl), h.guards,
    h.choices.follow (.of_eq rfl rfl rfl rfl) (fun _ _ => rfl) fun _ _ => rfl⟩

theorem push (h : a.Mirrors nodes b) {c : Cursor} (hc : Covered nodes c.around) (choice : Choice) :
    (a.push c choice).Mirrors nodes (b.push c choice) := by
  have hfollow : Follow a b (a.push c choice) (b.push c choice) := .of_eq rfl rfl rfl rfl
  refine ⟨h.captures, h.startPinned, h.stopPinned, h.values.follow hfollow, h.guards,
    .cons rfl rfl (Nat.le_refl _) (Nat.le_refl _) ((h.values.mono hc).follow hfollow) ?_
      (h.choices.follow hfollow (fun _ _ => rfl) fun _ _ => rfl)⟩
  rw [show (a.push c choice).guardsAt a.trail.size = a.guards.get from a.guardsAt_size,
    show (b.push c choice).guardsAt b.trail.size = b.guards.get from b.guardsAt_size]
  exact h.guards.mono hc

theorem follow_setCount (id : Nat) (count : Count) (a b : Machine) :
    Follow a b (a.setCount id count) (b.setCount id count) := by
  refine ⟨fun i h => h, fun i h => ?_⟩
  simp only [setCount, Store.get_set, h]

theorem setCount (h : a.Mirrors nodes b) (id : Nat) (count : Count) :
    (a.setCount id count).Mirrors nodes (b.setCount id count) :=
  ⟨h.captures, h.startPinned, h.stopPinned, h.values.follow (follow_setCount id count a b), h.guards,
    h.choices.follow (follow_setCount id count a b) (fun _ _ => rfl) fun _ _ => rfl⟩

theorem setGuard (h : a.Mirrors nodes b) (id : Nat) (value : Option Nat) :
    (a.setGuard id value).Mirrors nodes (b.setGuard id value) := by
  have hfollow : Follow a b (a.setGuard id value) (b.setGuard id value) :=
    .of_eq (by simp) (by simp) (by simp) (by simp)
  have ha := a.setGuard_covers id value
  have hb := b.setGuard_covers id value
  refine ⟨by simpa using h.captures, by simpa using h.startPinned, by simpa using h.stopPinned,
    h.values.follow hfollow, fun x hx i hi => ?_, ?_⟩
  · simp only [setGuard_guards, h.guards x hx i hi]
  · simp only [setGuard_frames]
    exact (h.choices.follow hfollow (fun j hj => ha.guardsAt hj) fun j hj => hb.guardsAt hj).mono
      ha.size_le hb.size_le

/-- A loop is set up: from then on the values of its node agree, whatever they were. -/
theorem enterLoop (h : a.Mirrors nodes b) (id : Nat) (q : Quantifier) (body next : Chain) :
    (enterLoop a id q).Mirrors (.box id (.loop q) body next :: nodes) (enterLoop b id q) := by
  have hmirrors : (SpanRegex.enterLoop a id q).Mirrors nodes (SpanRegex.enterLoop b id q) :=
    (h.setCount id _).setGuard id none
  refine { hmirrors with values := ⟨fun x hx i hi => ?_, fun x hx i hi => ?_⟩, guards := fun x hx i hi => ?_ }
  · rcases List.mem_cons.1 hx with rfl | hx
    · simp [Chain.groupId?] at hi
    · exact hmirrors.values.starts x hx i hi
  · rcases List.mem_cons.1 hx with rfl | hx
    · obtain rfl := Option.some.inj hi
      simp [SpanRegex.enterLoop, Machine.setCount]
    · exact hmirrors.values.counts x hx i hi
  · rcases List.mem_cons.1 hx with rfl | hx
    · obtain rfl := Option.some.inj hi
      simp [SpanRegex.enterLoop, setGuard_guards]
    · exact hmirrors.guards x hx i hi

theorem enterGroup (h : a.Mirrors nodes b) (id pos : Nat) (capture : Option Slot) (body next : Chain) :
    ({ a with starts := a.starts.set id pos } : Machine).Mirrors
      (.box id (.group capture) body next :: nodes) { b with starts := b.starts.set id pos } := by
  have hfollow : Follow a b { a with starts := a.starts.set id pos }
      { b with starts := b.starts.set id pos } := by
    refine ⟨fun i h => ?_, fun i h => h⟩
    simp only [Store.get_set, h]
  refine ⟨h.captures, h.startPinned, h.stopPinned, ⟨fun x hx i hi => ?_, fun x hx i hi => ?_⟩,
    fun x hx i hi => ?_, h.choices.follow hfollow (fun _ _ => rfl) fun _ _ => rfl⟩
  · rcases List.mem_cons.1 hx with rfl | hx
    · obtain rfl := Option.some.inj hi
      simp
    · exact hfollow.starts i (h.values.starts x hx i hi)
  · rcases List.mem_cons.1 hx with rfl | hx
    · simp [Chain.loopId?] at hi
    · exact h.values.counts x hx i hi
  · rcases List.mem_cons.1 hx with rfl | hx
    · simp [Chain.loopId?] at hi
    · exact h.guards x hx i hi

theorem record (h : a.Mirrors nodes b) {id : Nat} (hid : b.starts.get id = a.starts.get id)
    (slot : Slot) (pos : Nat) : (a.record slot pos id).Mirrors nodes (b.record slot pos id) := by
  have hcaptures : (b.record slot pos id).captures = (a.record slot pos id).captures := by
    simp only [Machine.record, h.captures, h.startPinned, h.stopPinned, hid]
  exact ⟨hcaptures, h.startPinned, h.stopPinned, h.values.follow (.of_eq rfl rfl rfl rfl), h.guards,
    h.choices.follow (.of_eq rfl rfl rfl rfl) (fun _ _ => rfl) fun _ _ => rfl⟩

theorem pin (h : a.Mirrors nodes b) (edge : Edge) (pos : Nat) :
    (a.pin edge pos).Mirrors nodes (b.pin edge pos) := by
  have hcaptures : b.captures.pin edge pos = a.captures.pin edge pos := by rw [h.captures]
  cases edge with
  | start =>
    exact ⟨hcaptures, rfl, h.stopPinned, h.values.follow (.of_eq rfl rfl rfl rfl), h.guards,
      h.choices.follow (.of_eq rfl rfl rfl rfl) (fun _ _ => rfl) fun _ _ => rfl⟩
  | stop =>
    exact ⟨hcaptures, h.startPinned, rfl, h.values.follow (.of_eq rfl rfl rfl rfl), h.guards,
      h.choices.follow (.of_eq rfl rfl rfl rfl) (fun _ _ => rfl) fun _ _ => rfl⟩

theorem pop (h : a.Mirrors nodes b) {f : Frame} {fs : List Frame} (hframes : a.frames = f :: fs) :
    ∃ g gs, b.frames = g :: gs ∧ g.cursor = f.cursor ∧ g.choice = f.choice ∧
      (({ a with frames := fs }).unwind f.trail).Mirrors f.cursor.around
        (({ b with frames := gs }).unwind g.trail) := by
  have hchoices := h.choices
  rw [hframes] at hchoices
  generalize hgs : b.frames = frames at hchoices
  cases hchoices with
  | @cons _ _ _ g _ gs cursor choice size size' values guards below =>
    refine ⟨g, gs, rfl, cursor, choice, ?_⟩
    have hfollow : Follow a b (({ a with frames := fs }).unwind f.trail)
        (({ b with frames := gs }).unwind g.trail) :=
      .of_eq (by simp) (by simp) (by simp) (by simp)
    refine ⟨by simpa using h.captures, by simpa using h.startPinned, by simpa using h.stopPinned,
      values.follow hfollow, ?_, ?_⟩
    · have hguards := ({ a with frames := fs } : Machine).unwind_eq f.trail
      have hguards' := ({ b with frames := gs } : Machine).unwind_eq g.trail
      rw [hguards.2, hguards'.2]
      exact guards
    · rw [Machine.unwind_size _ (by exact size), Machine.unwind_size _ (by exact size'),
        Machine.unwind_frames, Machine.unwind_frames]
      refine below.follow hfollow (fun j hj => ?_) fun j hj => ?_
      · exact Machine.guardsAt_unwind _ hj
      · exact Machine.guardsAt_unwind _ hj

theorem frames_nil (h : a.Mirrors nodes b) (hframes : a.frames = []) : b.frames = [] := by
  have hchoices := h.choices
  rw [hframes] at hchoices
  generalize hgs : b.frames = frames at hchoices
  cases hchoices
  rfl

end Machine.Mirrors

/-! ## The same turns -/

/-- The containers that the walk is in. -/
def Phase.nodes : Phase → List Chain
  | .walk c => c.active
  | .settle _ => []

/-- The walk goes on in the same way, on machines that it cannot tell apart. -/
def InStep (x y : Phase × Machine) : Prop := y.1 = x.1 ∧ x.2.Mirrors x.1.nodes y.2

namespace Setting

variable {s : Setting} {a b : Machine} {nodes : List Chain} {c : Cursor}

theorem inStep_settle (h : a.Mirrors nodes b) (success : Bool) :
    InStep (.settle success, a) (.settle success, b) :=
  ⟨rfl, h.mono fun x hx => by simp [Phase.nodes] at hx⟩

theorem inStep_leave (h : a.Mirrors nodes b) (habove : ∀ x ∈ c.above, x ∈ nodes) (next : Chain)
    (pos : Nat) : InStep (.walk (c.leave next pos), a) (.walk (c.leave next pos), b) := by
  refine ⟨rfl, h.mono fun x hx => ?_⟩
  rcases Cursor.mem_active_leave hx with hx | rfl
  · exact .inl (habove x hx)
  · exact .inr ⟨rfl, rfl⟩

theorem inStep_descend (h : a.Mirrors nodes b) (hcovered : Covered nodes c.around) (body : Chain)
    (pos : Nat) : InStep (.walk (c.descend body pos), a) (.walk (c.descend body pos), b) :=
  ⟨rfl, h.mono hcovered⟩

theorem inStep_proceed (h : a.Mirrors c.around b) : InStep (.walk c.proceed, a) (.walk c.proceed, b) := by
  have habove : ∀ x ∈ c.above, x ∈ c.around := fun x hx => List.mem_cons_of_mem _ hx
  cases hchain : c.chain with
  | nil =>
    refine ⟨rfl, h.mono fun x hx => .inl ?_⟩
    simp only [Phase.nodes, Cursor.proceed, hchain, Cursor.active] at hx
    split at hx
    · exact habove x hx
    · rwa [Cursor.around, hchain]
  | leaf id op next => simpa only [Cursor.proceed, hchain] using inStep_leave h habove next c.pos
  | box id op body next => simpa only [Cursor.proceed, hchain] using inStep_leave h habove next c.pos

/-! ### Visits -/

theorem inStep_leaf (h : a.Mirrors c.active b) (op : Leaf) (next : Chain) :
    InStep (s.visitLeaf a c op next) (s.visitLeaf b c op next) := by
  have habove : ∀ x ∈ c.above, x ∈ c.active := fun _ => Cursor.mem_active_of_above
  unfold visitLeaf
  rw [h.captures]
  cases s.read? a.captures c.pos op with
  | none => exact inStep_settle h false
  | some pos =>
    cases op with
    | pin edge => exact inStep_leave (h.pin edge pos) habove next pos
    | empty => exact inStep_leave h habove next pos
    | unit test => exact inStep_leave h habove next pos
    | assertion condition => exact inStep_leave h habove next pos
    | reference slot => exact inStep_leave h habove next pos
    | cross target ignoreCase => exact inStep_leave h habove next pos

theorem inStep_group (h : a.Mirrors c.active b) {id : Nat} {capture : Option Slot}
    {body next : Chain} (here : c.chain = .box id (.group capture) body next) :
    InStep (visitGroup a c id capture body next) (visitGroup b c id capture body next) := by
  have habove : ∀ x ∈ c.above, x ∈ c.active := fun _ => Cursor.mem_active_of_above
  unfold visitGroup
  cases hentering : c.entering with
  | true =>
    have hactive : c.active = c.above := by simp [Cursor.active, hentering]
    refine inStep_descend ((hactive ▸ h).enterGroup id c.pos capture body next) ?_ body c.pos
    rw [Cursor.around, here]
    exact .refl _
  | false =>
    cases capture with
    | none => exact inStep_leave h habove next c.pos
    | some slot =>
      have hmem : c.chain ∈ c.active := by simp [Cursor.active, hentering]
      have hid := h.values.starts _ hmem id (by simp [here, Chain.groupId?])
      exact inStep_leave (h.record hid slot c.pos) habove next c.pos

/-- The values of a node other than a loop or a group are never read. -/
theorem covered_around (hgroup : c.chain.groupId? = none) (hloop : c.chain.loopId? = none) :
    Covered c.active c.around := by
  intro x hx
  rcases List.mem_cons.1 hx with rfl | hx
  · exact .inr ⟨hgroup, hloop⟩
  · exact .inl (Cursor.mem_active_of_above hx)

theorem inStep_look (h : a.Mirrors c.active b) {id : Nat} {look : Look} {body next : Chain}
    (here : c.chain = .box id (.look look) body next) :
    InStep (visitLook a c look body next) (visitLook b c look body next) := by
  have habove : ∀ x ∈ c.above, x ∈ c.active := fun _ => Cursor.mem_active_of_above
  have hcovered : Covered c.active c.around := covered_around (by simp [here, Chain.groupId?])
    (by simp [here, Chain.loopId?])
  unfold visitLook
  cases c.entering with
  | false => exact inStep_settle h true
  | true =>
    simp only [if_true]
    split
    · split
      · exact inStep_leave h habove next c.pos
      · exact inStep_settle h false
    · exact inStep_descend (h.push hcovered _) hcovered body _

theorem inStep_alternative (h : a.Mirrors c.active b) {id : Nat} {body next : Chain}
    (here : c.chain = .box id .alternative body next) :
    InStep (visitAlternative a c body) (visitAlternative b c body) := by
  have hcovered : Covered c.active c.around := covered_around (by simp [here, Chain.groupId?])
    (by simp [here, Chain.loopId?])
  unfold visitAlternative
  cases c.entering with
  | true => exact inStep_descend (h.push hcovered _) hcovered body _
  | false => exact inStep_leave h (fun _ => Cursor.mem_active_of_above) .nil c.pos

theorem inStep_decideLoop (h : a.Mirrors c.around b) {id : Nat} {q : Quantifier} {body next : Chain}
    (here : c.chain = .box id (.loop q) body next) :
    InStep (decideLoop a c id q body next) (decideLoop b c id q body next) := by
  have habove : ∀ x ∈ c.above, x ∈ c.around := fun _ => List.mem_cons_of_mem _
  have hmem : c.chain ∈ c.around := List.mem_cons_self
  have hid : c.chain.loopId? = some id := by simp [here, Chain.loopId?]
  unfold decideLoop
  rw [h.guards _ hmem id hid, h.values.counts _ hmem id hid]
  cases q.max with
  | none =>
    simp only
    split
    · exact inStep_leave h habove next c.pos
    · have hset := h.setGuard id (some c.pos)
      split
      · exact inStep_leave (hset.push (.refl _) .again) habove next c.pos
      · exact inStep_descend (hset.push (.refl _) .skip) (.refl _) body c.pos
  | some bound =>
    simp only
    split
    · exact inStep_leave h habove next c.pos
    · split
      · exact inStep_leave (h.push (.refl _) .oneMore) habove next c.pos
      · exact inStep_descend ((h.setCount id _).push (.refl _) .settleForLess) (.refl _) body c.pos

theorem inStep_loop (h : a.Mirrors c.active b) {id : Nat} {q : Quantifier} {body next : Chain}
    (here : c.chain = .box id (.loop q) body next) :
    InStep (visitLoop a c id q body next) (visitLoop b c id q body next) := by
  -- Entered or returned to, the values of the loop agree once it is set up.
  have hready : (if c.entering then enterLoop a id q else a).Mirrors c.around
      (if c.entering then enterLoop b id q else b) := by
    cases hentering : c.entering with
    | true =>
      have hactive : c.active = c.above := by simp [Cursor.active, hentering]
      have henter := (hactive ▸ h).enterLoop id q body next
      rw [← here] at henter
      exact henter
    | false =>
      have hactive : c.active = c.around := by simp [Cursor.active, Cursor.around, hentering]
      exact hactive ▸ h
  unfold visitLoop
  generalize (if c.entering then enterLoop a id q else a) = a₁ at hready ⊢
  generalize (if c.entering then enterLoop b id q else b) = b₁ at hready ⊢
  have hcount := hready.values.counts c.chain List.mem_cons_self id (by simp [here, Chain.loopId?])
  simp only [hcount]
  split
  · exact inStep_decideLoop hready here
  · exact inStep_descend (hready.setCount id _) (.refl _) body c.pos

theorem inStep_visit (h : a.Mirrors c.active b) : InStep (s.visit a c) (s.visit b c) := by
  unfold visit
  split
  · exact inStep_settle h true
  · exact inStep_leaf h _ _
  · rename_i here
    split
    · exact inStep_group h here
    · exact inStep_look h here
    · exact inStep_alternative h here
    · exact inStep_loop h here

/-! ### Choices -/

theorem inStep_accept (h : a.Mirrors c.around b) (choice : Choice) :
    InStep (a.accept c choice) (b.accept c choice) := by
  cases choice with
  | require => exact inStep_proceed h
  | refuse => exact inStep_settle h false
  | skip => exact inStep_settle h true
  | again => exact inStep_settle h true
  | settleForLess => exact inStep_settle h true
  | oneMore => exact inStep_settle h true
  | giveBack => exact inStep_settle h true

theorem inStep_retry (h : a.Mirrors c.around b) (choice : Choice) :
    InStep (a.retry c choice) (b.retry c choice) := by
  have hcount : ∀ id body, c.loop? = some (id, body) → b.counts.get id = a.counts.get id := by
    intro id body hloop
    obtain ⟨q, next, here⟩ := loop?_eq_some hloop
    exact h.values.counts _ List.mem_cons_self id (by simp [here, Chain.loopId?])
  cases choice with
  | require => exact inStep_settle h false
  | refuse => exact inStep_proceed h
  | skip => exact inStep_proceed h
  | again =>
    unfold Machine.retry
    cases hloop : c.loop? with
    | none => exact inStep_settle h false
    | some loop => exact inStep_descend h (.refl _) loop.2 c.pos
  | settleForLess => exact inStep_proceed (h.push (.refl _) .giveBack)
  | oneMore =>
    unfold Machine.retry
    cases hloop : c.loop? with
    | none => exact inStep_settle h false
    | some loop =>
      simp only [hcount loop.1 loop.2 hloop]
      exact inStep_descend ((h.setCount loop.1 _).push (.refl _) .giveBack) (.refl _) loop.2 c.pos
  | giveBack =>
    unfold Machine.retry
    cases hloop : c.loop? with
    | none => exact inStep_settle h false
    | some loop =>
      simp only [hcount loop.1 loop.2 hloop]
      exact inStep_settle (h.setCount loop.1 _) false

/-! ### Turns -/

/-- A turn goes on in the same way, or it decides both attempts in the same way. -/
theorem mirrors_turn (hlimit : s.limit = none) {phase : Phase} (h : a.Mirrors phase.nodes b) :
    (∃ phase' a' b', s.turn a phase = .going phase' a' ∧ s.turn b phase = .going phase' b' ∧
      a'.Mirrors phase'.nodes b') ∨
    ∃ v, s.turn a phase = .over v a ∧ s.turn b phase = .over v b := by
  have hgoing : ∀ {x y : Phase × Machine}, InStep x y → s.turn a phase = .going x.1 x.2 →
      s.turn b phase = .going y.1 y.2 →
      ∃ phase' a' b', s.turn a phase = .going phase' a' ∧ s.turn b phase = .going phase' b' ∧
        a'.Mirrors phase'.nodes b' := by
    intro x y hstep ha hb
    exact ⟨x.1, x.2, y.2, ha, hstep.1 ▸ hb, hstep.2⟩
  cases phase with
  | walk c =>
    by_cases hc : c.chain = .nil
    · refine .inl (hgoing (inStep_settle h true) ?_ ?_)
      · simp only [turn, hc]
      · simp only [turn, hc]
    · exact .inl (hgoing (inStep_visit h.visited) (s.turn_visit hlimit a hc) (s.turn_visit hlimit b hc))
  | settle success =>
    cases hframes : a.frames with
    | nil =>
      refine .inr ⟨if success then .matched else .failed, ?_, ?_⟩
      · simp only [turn, Machine.settle, hframes]
      · simp only [turn, Machine.settle, h.frames_nil hframes]
    | cons f fs =>
      obtain ⟨g, gs, hgs, hcursor, hchoice, hpop⟩ := h.pop hframes
      refine .inl ?_
      cases success with
      | true =>
        refine hgoing (inStep_accept hpop f.choice) ?_ ?_
        · simp only [turn, Machine.settle, hframes, if_true]
        · simp only [turn, Machine.settle, hgs, hcursor, hchoice, if_true]
      | false =>
        refine hgoing (inStep_retry hpop f.choice) ?_ ?_
        · simp [turn, Machine.settle, hframes]
        · simp [turn, Machine.settle, hgs, hcursor, hchoice]

theorem mirrors_run (hlimit : s.limit = none) (fuel : Nat) : ∀ {phase : Phase} {a b : Machine},
    a.Mirrors phase.nodes b → (s.run fuel phase b).map (fun r => (r.1, r.2.captures)) =
      (s.run fuel phase a).map fun r => (r.1, r.2.captures) := by
  induction fuel with
  | zero => exact fun _ => rfl
  | succ fuel ih =>
    intro phase a b h
    rcases mirrors_turn hlimit h with ⟨phase', a', b', ha, hb, h'⟩ | ⟨v, ha, hb⟩
    · simp only [run, ha, hb]
      exact ih h'
    · simp only [run, ha, hb, Option.map_some, h.captures]

/-- An attempt does not depend on the values that earlier ones have left. -/
theorem attempt_stale (hlimit : s.limit = none) (fuel pos : Nat) (a b : Machine) :
    (s.attempt fuel pos b).map (fun r => (r.1, r.2.captures)) =
      (s.attempt fuel pos a).map fun r => (r.1, r.2.captures) := by
  refine mirrors_run hlimit fuel ⟨rfl, rfl, rfl, ⟨?_, ?_⟩, ?_, .nil _ _⟩
  · simp [Phase.nodes, Cursor.active, Cursor.start]
  · simp [Phase.nodes, Cursor.active, Cursor.start]
  · simp [SameGuards, Phase.nodes, Cursor.active, Cursor.start]

end Setting

end SpanRegex
