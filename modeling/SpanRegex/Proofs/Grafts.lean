import SpanRegex.Proofs.Looks
import SpanRegex.Proofs.Renumbering

/-! # A chain grafted into a tree

The walk through a chain of nodes takes the same turns wherever the chain stands, whatever numbers its nodes have
and whatever choices are open below its own, until it leaves the chain or has no choice of its own left.

* `Cursor.graft`, `Frame.graft`, `Phase.graft`: the place in the tree for a place in the chain.
* `Machine.Grafted`: the machine on the tree has the values and choices of the machine on the chain;
  `Blank.grafted_pull`: there is such a machine on the chain.
* `grafts_visit`, `Grafted.settle`, `Setting.graft_turn`: the same turns.
* `Setting.Steps`: turns within the chain; `Steps.graft`, `exists_steps`: from the chain to the tree and back.
-/

namespace SpanRegex
set_option autoImplicit false

open Pattern (Chain Edge Leaf Look Quantifier Renumbers Slot)

/-! ## Places -/

/-- The place in a tree that has the chain inside the containers `around`. The end of the chain is the return to
the innermost of them. -/
def Cursor.graft (ρ : Nat → Nat) (around : List Chain) (c : Cursor) : Cursor :=
  match c.chain, around with
  | .nil, container :: above => ⟨container, above, c.pos, false⟩
  | chain, _ => ⟨chain.renumber ρ, c.above.map (Chain.renumber ρ) ++ around, c.pos, c.entering⟩

def Frame.graft (ρ : Nat → Nat) (around : List Chain) (f : Frame) : Frame :=
  { f with cursor := f.cursor.graft ρ around }

def Phase.graft (ρ : Nat → Nat) (around : List Chain) : Phase → Phase
  | .walk c => .walk (c.graft ρ around)
  | .settle success => .settle success

/-- The cursor is at a node of a chain that is as it should be. -/
structure Cursor.Inside (c : Cursor) : Prop where
  node : c.chain ≠ .nil
  proper : c.Proper

section

variable {ρ : Nat → Nat} {around : List Chain} {c : Cursor}

theorem Cursor.graft_eq (h : c.chain ≠ .nil) :
    c.graft ρ around = ⟨c.chain.renumber ρ, c.above.map (Chain.renumber ρ) ++ around, c.pos, c.entering⟩ := by
  unfold graft
  split
  · exact absurd ‹_› h
  · rfl

theorem Pattern.Chain.renumber_ne_nil {x : Chain} (h : x ≠ .nil) : x.renumber ρ ≠ .nil := by
  cases x with
  | nil => exact absurd rfl h
  | leaf => simp [renumber]
  | box => simp [renumber]

theorem Cursor.Inside.graft_pos (h : c.Inside) : (c.graft ρ around).pos = c.pos := by rw [c.graft_eq h.node]

theorem Cursor.Inside.graft_entering (h : c.Inside) : (c.graft ρ around).entering = c.entering := by
  rw [c.graft_eq h.node]

theorem Cursor.Inside.graft_leave (h : c.Inside) (next : Chain) (pos : Nat) :
    (c.graft ρ around).leave (next.renumber ρ) pos = (c.leave next pos).graft ρ around := by
  rw [c.graft_eq h.node]
  cases next with
  | nil =>
    have habove := h.proper.above
    cases hab : c.above with
    | nil => cases around <;> simp [Chain.renumber, Cursor.leave, hab, graft]
    | cons x above =>
      rw [hab] at habove
      have hx : x ≠ .nil := habove x List.mem_cons_self
      have hgraft := @graft_eq ρ around ⟨x, above, pos, false⟩ hx
      simp [Chain.renumber, Cursor.leave, hab, hgraft]
  | leaf | box => simp [Chain.renumber, Cursor.leave, graft]

theorem Cursor.Inside.graft_descend (h : c.Inside) {body : Chain} (hbody : body ≠ .nil) (pos : Nat) :
    (c.graft ρ around).descend (body.renumber ρ) pos = (c.descend body pos).graft ρ around := by
  rw [c.graft_eq h.node, graft_eq (c := c.descend body pos) hbody]
  rfl

theorem Cursor.Inside.graft_proceed (h : c.Inside) :
    (c.graft ρ around).proceed = c.proceed.graft ρ around := by
  have hleave : ∀ next, (c.graft ρ around).leave (next.renumber ρ) c.pos = (c.leave next c.pos).graft ρ around :=
    fun next => h.graft_leave next c.pos
  have hnode := h.node
  cases hchain : c.chain with
  | nil => exact absurd hchain hnode
  | leaf id op next =>
    have hproceed : c.proceed = c.leave next c.pos := by rw [proceed, hchain]
    rw [hproceed, ← hleave next, c.graft_eq hnode, proceed, hchain]
    rfl
  | box id op body next =>
    have hproceed : c.proceed = c.leave next c.pos := by rw [proceed, hchain]
    rw [hproceed, ← hleave next, c.graft_eq hnode, proceed, hchain]
    rfl

theorem Cursor.Inside.graft_loop (h : c.Inside) :
    (c.graft ρ around).loop? = c.loop?.map fun found => (ρ found.1, found.2.renumber ρ) := by
  rw [c.graft_eq h.node, loop?, loop?]
  cases c.chain with
  | nil => rfl
  | leaf => rfl
  | box id op body next => cases op <;> rfl

/-! ## Machines -/

/-- The second machine has the values of the first under the numbers `ρ`, the same captures, and its choices over
the choices `below`. -/
structure Machine.Grafted (ρ : Nat → Nat) (around : List Chain) (below : List Frame) (m m' : Machine) : Prop where
  frames : m'.frames = m.frames.map (Frame.graft ρ around) ++ below
  trail : m'.trail = m.trail.map fun write => (ρ write.1, write.2)
  starts : ∀ i, m'.starts.get (ρ i) = m.starts.get i
  counts : ∀ i, m'.counts.get (ρ i) = m.counts.get i
  guards : ∀ i, m'.guards.get (ρ i) = m.guards.get i
  captures : m'.captures = m.captures
  startPinned : m'.startPinned = m.startPinned
  stopPinned : m'.stopPinned = m.stopPinned

/-- The walk goes on at the same place of the chain, with the same values. -/
def Grafts (ρ : Nat → Nat) (around : List Chain) (below : List Frame) (r r' : Phase × Machine) : Prop :=
  r'.1 = r.1.graft ρ around ∧ r.2.Grafted ρ around below r'.2

variable {below : List Frame} {m m' : Machine}

theorem get_set_renumber {α : Type} [Inhabited α] (hρ : Renumbers ρ) {s s' : Store α}
    (h : ∀ i, s'.get (ρ i) = s.get i) (id : Nat) (a : α) (i : Nat) :
    (s'.set (ρ id) a).get (ρ i) = (s.set id a).get i := by
  have hsame : ρ id = ρ i ↔ id = i := ⟨hρ.injective id i, congrArg ρ⟩
  simp only [Store.get_set, hsame, h]

namespace Machine.Grafted

theorem frames_below (h : m.Grafted ρ around below m') (hframes : m.frames = []) : m'.frames = below := by
  rw [h.frames, hframes]
  rfl

theorem visited (h : m.Grafted ρ around below m') : m.visited.Grafted ρ around below m'.visited :=
  ⟨h.frames, h.trail, h.starts, h.counts, h.guards, h.captures, h.startPinned, h.stopPinned⟩

theorem push (h : m.Grafted ρ around below m') (c : Cursor) (choice : Choice) :
    (m.push c choice).Grafted ρ around below (m'.push (c.graft ρ around) choice) where
  frames := by
    have hsize : m'.trail.size = m.trail.size := by rw [h.trail, Array.size_map]
    simp [Machine.push, Frame.graft, h.frames, hsize]
  trail := h.trail
  starts := h.starts
  counts := h.counts
  guards := h.guards
  captures := h.captures
  startPinned := h.startPinned
  stopPinned := h.stopPinned

section

variable (hρ : Renumbers ρ)

include hρ

theorem setCount (h : m.Grafted ρ around below m') (id : Nat) (count : Count) :
    (m.setCount id count).Grafted ρ around below (m'.setCount (ρ id) count) :=
  { h with counts := get_set_renumber hρ h.counts id count }

theorem setStart (h : m.Grafted ρ around below m') (id pos : Nat) :
    ({ m with starts := m.starts.set id pos } : Machine).Grafted ρ around below
      { m' with starts := m'.starts.set (ρ id) pos } :=
  { h with starts := get_set_renumber hρ h.starts id pos }

theorem setGuard (h : m.Grafted ρ around below m') (id : Nat) (value : Option Nat) :
    (m.setGuard id value).Grafted ρ around below (m'.setGuard (ρ id) value) := by
  simp only [Machine.setGuard, h.guards]
  split
  · exact h
  · exact { h with
      trail := by simp [h.trail]
      guards := get_set_renumber hρ h.guards id value }

theorem enterLoop (h : m.Grafted ρ around below m') (id : Nat) (q : Quantifier) :
    (SpanRegex.enterLoop m id q).Grafted ρ around below (SpanRegex.enterLoop m' (ρ id) q) :=
  (h.setCount hρ id _).setGuard hρ id none

theorem takeBack (n : Nat) : ∀ {trail trail' : Array (Nat × Option Nat)} {guards guards' : Store (Option Nat)},
    trail' = trail.map (fun write => (ρ write.1, write.2)) → (∀ i, guards'.get (ρ i) = guards.get i) →
      (Machine.takeBack trail' guards' n).1 =
        (Machine.takeBack trail guards n).1.map (fun write => (ρ write.1, write.2)) ∧
      ∀ i, (Machine.takeBack trail' guards' n).2.get (ρ i) = (Machine.takeBack trail guards n).2.get i := by
  induction n with
  | zero => exact fun htrail hguards => ⟨htrail, hguards⟩
  | succ n ih =>
    intro trail trail' guards guards' htrail hguards
    have hback : trail'.back? = trail.back?.map fun write => (ρ write.1, write.2) := by
      rw [htrail, Array.back?_map]
    rw [Machine.takeBack, Machine.takeBack, hback]
    cases trail.back? with
    | none => exact ⟨htrail, hguards⟩
    | some write =>
      exact ih (by rw [htrail, Array.map_pop]) (get_set_renumber hρ hguards write.1 write.2)

theorem unwind (h : m.Grafted ρ around below m') (length : Nat) :
    (m.unwind length).Grafted ρ around below (m'.unwind length) := by
  have hsize : m'.trail.size = m.trail.size := by rw [h.trail, Array.size_map]
  simp only [Machine.unwind, hsize]
  split
  · exact h
  · obtain ⟨htrail, hguards⟩ := takeBack hρ (m.trail.size - length) h.trail h.guards
    exact { h with trail := htrail, guards := hguards }

omit hρ in
theorem record (h : m.Grafted ρ around below m') (slot : Slot) (pos id : Nat) :
    (m.record slot pos id).Grafted ρ around below (m'.record slot pos (ρ id)) :=
  { h with captures := by simp only [Machine.record, h.captures, h.starts, h.startPinned, h.stopPinned] }

omit hρ in
theorem pin (h : m.Grafted ρ around below m') (edge : Edge) (pos : Nat) :
    (m.pin edge pos).Grafted ρ around below (m'.pin edge pos) := by
  cases edge with
  | start => exact { h with captures := by simp only [Machine.pin, h.captures], startPinned := rfl }
  | stop => exact { h with captures := by simp only [Machine.pin, h.captures], stopPinned := rfl }

end

end Machine.Grafted

/-! ## Visits -/

theorem grafts_settle (h : m.Grafted ρ around below m') (success : Bool) :
    Grafts ρ around below (.settle success, m) (.settle success, m') := ⟨rfl, h⟩

section

variable (h : m.Grafted ρ around below m') (hc : c.Inside)

include h hc

theorem grafts_leave (next : Chain) (pos : Nat) :
    Grafts ρ around below (.walk (c.leave next pos), m)
      (.walk ((c.graft ρ around).leave (next.renumber ρ) pos), m') :=
  ⟨congrArg Phase.walk (hc.graft_leave next pos), h⟩

theorem grafts_descend {body : Chain} (hbody : body ≠ .nil) (pos : Nat) :
    Grafts ρ around below (.walk (c.descend body pos), m)
      (.walk ((c.graft ρ around).descend (body.renumber ρ) pos), m') :=
  ⟨congrArg Phase.walk (hc.graft_descend hbody pos), h⟩

theorem grafts_leaf {s s' : Setting}
    (hreads : ∀ captures pos op, s'.read? captures pos op = s.read? captures pos op) (op : Leaf) (next : Chain) :
    Grafts ρ around below (s.visitLeaf m c op next)
      (s'.visitLeaf m' (c.graft ρ around) op (next.renumber ρ)) := by
  simp only [Setting.visitLeaf, hreads, h.captures, hc.graft_pos]
  cases s.read? m.captures c.pos op with
  | none => exact grafts_settle h false
  | some pos =>
    cases op with
    | pin edge => exact grafts_leave (h.pin edge pos) hc next pos
    | _ => exact grafts_leave h hc next pos

theorem grafts_group (hρ : Renumbers ρ) {body : Chain} (hbody : body ≠ .nil) (id : Nat) (capture : Option Slot)
    (next : Chain) :
    Grafts ρ around below (visitGroup m c id capture body next)
      (visitGroup m' (c.graft ρ around) (ρ id) capture (body.renumber ρ) (next.renumber ρ)) := by
  simp only [visitGroup, hc.graft_entering, hc.graft_pos]
  split
  · exact grafts_descend (h.setStart hρ id c.pos) hc hbody c.pos
  · cases capture with
    | none => exact grafts_leave h hc next c.pos
    | some slot => exact grafts_leave (h.record slot c.pos id) hc next c.pos

theorem grafts_look {body : Chain} (hbody : body ≠ .nil) (look : Look) (next : Chain) :
    Grafts ρ around below (visitLook m c look body next)
      (visitLook m' (c.graft ρ around) look (body.renumber ρ) (next.renumber ρ)) := by
  simp only [visitLook, hc.graft_entering, hc.graft_pos]
  split
  · split
    · split
      · exact grafts_leave h hc next c.pos
      · exact grafts_settle h false
    · exact grafts_descend (h.push c _) hc hbody _
  · exact grafts_settle h true

theorem grafts_alternative {body : Chain} (hbody : body ≠ .nil) :
    Grafts ρ around below (visitAlternative m c body)
      (visitAlternative m' (c.graft ρ around) (body.renumber ρ)) := by
  simp only [visitAlternative, hc.graft_entering, hc.graft_pos]
  split
  · exact grafts_descend (h.push c .skip) hc hbody c.pos
  · exact grafts_leave h hc .nil c.pos

theorem grafts_decide (hρ : Renumbers ρ) {body : Chain} (hbody : body ≠ .nil) (id : Nat) (q : Quantifier)
    (next : Chain) :
    Grafts ρ around below (decideLoop m c id q body next)
      (decideLoop m' (c.graft ρ around) (ρ id) q (body.renumber ρ) (next.renumber ρ)) := by
  simp only [decideLoop, hc.graft_pos, h.guards, h.counts]
  split
  · split
    · exact grafts_leave h hc next c.pos
    · have hset := h.setGuard hρ id (some c.pos)
      split
      · exact grafts_leave (hset.push c .again) hc next c.pos
      · exact grafts_descend (hset.push c .skip) hc hbody c.pos
  · split
    · exact grafts_leave h hc next c.pos
    · split
      · exact grafts_leave (h.push c .oneMore) hc next c.pos
      · exact grafts_descend ((h.setCount hρ id _).push c .settleForLess) hc hbody c.pos

theorem grafts_loop (hρ : Renumbers ρ) {body : Chain} (hbody : body ≠ .nil) (id : Nat) (q : Quantifier)
    (next : Chain) :
    Grafts ρ around below (visitLoop m c id q body next)
      (visitLoop m' (c.graft ρ around) (ρ id) q (body.renumber ρ) (next.renumber ρ)) := by
  have hentered : (if c.entering then enterLoop m id q else m).Grafted ρ around below
      (if c.entering then enterLoop m' (ρ id) q else m') := by
    split
    · exact h.enterLoop hρ id q
    · exact h
  simp only [visitLoop, hc.graft_entering, hc.graft_pos]
  generalize (if c.entering then enterLoop m id q else m) = entered at hentered ⊢
  generalize (if c.entering then enterLoop m' (ρ id) q else m') = entered' at hentered ⊢
  rw [hentered.counts]
  split
  · exact grafts_decide hentered hc hρ hbody id q next
  · exact grafts_descend (hentered.setCount hρ id _) hc hbody c.pos

theorem grafts_visit (hρ : Renumbers ρ) {s s' : Setting}
    (hreads : ∀ captures pos op, s'.read? captures pos op = s.read? captures pos op) :
    Grafts ρ around below (s.visit m c) (s'.visit m' (c.graft ρ around)) := by
  have hfull := hc.proper.full c.chain List.mem_cons_self
  have hnode := hc.node
  have hgraft : (c.graft ρ around).chain = c.chain.renumber ρ := by rw [c.graft_eq hnode]
  unfold Setting.visit
  cases hchain : c.chain with
  | nil => exact absurd hchain hnode
  | leaf id op next =>
    rw [hgraft, hchain]
    exact grafts_leaf h hc hreads op next
  | box id op body next =>
    rw [hchain] at hfull
    have hbody : body ≠ .nil := hfull.1.children
    rw [hgraft, hchain]
    cases op with
    | group capture => exact grafts_group h hc hρ hbody id capture next
    | look look => exact grafts_look h hc hbody look next
    | alternative => exact grafts_alternative h hc hbody
    | loop q => exact grafts_loop h hc hρ hbody id q next

/-! ## Choices -/

theorem grafts_proceed : Grafts ρ around below (.walk c.proceed, m) (.walk (c.graft ρ around).proceed, m') :=
  ⟨congrArg Phase.walk hc.graft_proceed, h⟩

theorem grafts_accept (choice : Choice) :
    Grafts ρ around below (m.accept c choice) (m'.accept (c.graft ρ around) choice) := by
  cases choice with
  | require => exact grafts_proceed h hc
  | refuse => exact grafts_settle h false
  | skip | again | settleForLess | oneMore | giveBack => exact grafts_settle h true

theorem grafts_retry (hρ : Renumbers ρ) (choice : Choice) :
    Grafts ρ around below (m.retry c choice) (m'.retry (c.graft ρ around) choice) := by
  have hbody : ∀ id body, c.loop? = some (id, body) → body ≠ .nil := by
    intro id body hloop
    obtain ⟨q, next, hchain⟩ := Setting.loop?_eq_some hloop
    have hfull := hc.proper.full c.chain List.mem_cons_self
    rw [hchain] at hfull
    exact hfull.1.children
  cases choice with
  | require => exact grafts_settle h false
  | refuse | skip => exact grafts_proceed h hc
  | settleForLess => exact grafts_proceed (h.push c .giveBack) hc
  | again =>
    simp only [Machine.retry, hc.graft_loop, hc.graft_pos]
    cases hloop : c.loop? with
    | none => exact grafts_settle h false
    | some found => exact grafts_descend h hc (hbody found.1 found.2 hloop) c.pos
  | oneMore =>
    simp only [Machine.retry, hc.graft_loop, hc.graft_pos]
    cases hloop : c.loop? with
    | none => exact grafts_settle h false
    | some found =>
      simp only [Option.map_some, h.counts]
      exact grafts_descend ((h.setCount hρ found.1 _).push c .giveBack) hc (hbody found.1 found.2 hloop) c.pos
  | giveBack =>
    simp only [Machine.retry, hc.graft_loop]
    cases hloop : c.loop? with
    | none => exact grafts_settle h false
    | some found =>
      simp only [Option.map_some, h.counts]
      exact grafts_settle (h.setCount hρ found.1 _) false

end

theorem Machine.Grafted.settle (hρ : Renumbers ρ) (h : m.Grafted ρ around below m') {f : Frame} {frames : List Frame}
    (hframes : m.frames = f :: frames) (hf : f.cursor.Inside) (success : Bool) :
    ∃ r r' : Phase × Machine, m.settle success = .going r.1 r.2 ∧ m'.settle success = .going r'.1 r'.2 ∧
      Grafts ρ around below r r' := by
  have hframes' : m'.frames = f.graft ρ around :: (frames.map (Frame.graft ρ around) ++ below) := by
    rw [h.frames, hframes]
    rfl
  have hpop : ({ m with frames } : Machine).Grafted ρ around below
      { m' with frames := frames.map (Frame.graft ρ around) ++ below } := { h with frames := rfl }
  have hback := hpop.unwind hρ f.trail
  simp only [Machine.settle, hframes, hframes']
  cases success with
  | true => exact ⟨_, _, rfl, rfl, grafts_accept hback hf f.choice⟩
  | false => exact ⟨_, _, rfl, rfl, grafts_retry hback hf hρ f.choice⟩

/-! ## The machine on the chain -/

/-- Nothing has been recorded or pinned. -/
structure Machine.Blank (m : Machine) : Prop where
  captures : m.captures = {}
  startPinned : m.startPinned = false
  stopPinned : m.stopPinned = false

def Store.pull {α : Type} [Inhabited α] (ρ : Nat → Nat) (s : Store α) : Store α :=
  ⟨Array.ofFn fun i : Fin s.cells.size => s.get (ρ i)⟩

theorem Store.get_pull {α : Type} [Inhabited α] (hρ : Renumbers ρ) (s : Store α) (i : Nat) :
    (s.pull ρ).get i = s.get (ρ i) := by
  have hle := hρ.le i
  rcases Nat.lt_or_ge i s.cells.size with hlt | hge
  · simp [pull, Store.get, hlt]
  · have hbeyond : s.cells.size ≤ ρ i := Nat.le_trans hge hle
    simp [pull, Store.get, hge, hbeyond]

/-- A fresh machine on the chain with the values of a machine on the tree. -/
def Machine.pull (ρ : Nat → Nat) (m : Machine) : Machine :=
  { m.ready with starts := m.starts.pull ρ, counts := m.counts.pull ρ, guards := m.guards.pull ρ }

/-- Before the chain is entered, the machine on the tree is that on the chain over the choices that are open. -/
theorem Machine.Blank.grafted_pull (hρ : Renumbers ρ) (h : m.Blank) (htrail : m.trail = #[]) :
    (m.pull ρ).ready.Grafted ρ around m.frames m where
  frames := rfl
  trail := by simp [htrail, Machine.ready]
  starts i := (Store.get_pull hρ m.starts i).symm
  counts i := (Store.get_pull hρ m.counts i).symm
  guards i := (Store.get_pull hρ m.guards i).symm
  captures := h.captures
  startPinned := h.startPinned
  stopPinned := h.stopPinned

/-! ## Turns -/

/-- Nothing limits the searches, and every leaf reads the same in both settings. -/
structure Setting.SameReads (s s' : Setting) : Prop where
  limit : s.limit = none
  limit' : s'.limit = none
  reads : ∀ captures pos op, s'.read? captures pos op = s.read? captures pos op

/-- The walk is at the end of the chain, or it has to go back and no choice is left. -/
def Phase.Closed (m : Machine) : Phase → Prop
  | .walk c => c.chain = .nil
  | .settle _ => m.frames = []

/-- All places of the walk and the choices are as they should be. -/
abbrev Machine.Proper (m : Machine) (phase : Phase) : Prop := m.Spread Cursor.Proper Cursor.Proper phase

namespace Setting

variable {s s' : Setting} {phase phase₁ : Phase} {m₁ : Machine}

/-- A turn in the chain is a turn in the tree. -/
theorem graft_turn (hsame : s.SameReads s') (hρ : Renumbers ρ) (h : m.Grafted ρ around below m')
    (hproper : m.Proper phase) (hopen : ¬ phase.Closed m) :
    ∃ r r' : Phase × Machine, s.turn m phase = .going r.1 r.2 ∧
      s'.turn m' (phase.graft ρ around) = .going r'.1 r'.2 ∧ Grafts ρ around below r r' := by
  cases phase with
  | walk c =>
    have hc : c.Inside := ⟨hopen, hproper.1 c rfl⟩
    have hchain : (c.graft ρ around).chain ≠ .nil := by
      rw [c.graft_eq hc.node]
      exact Chain.renumber_ne_nil hc.node
    exact ⟨_, _, turn_visit hsame.limit m hc.node, turn_visit hsame.limit' m' hchain,
      grafts_visit h.visited hc hρ hsame.reads⟩
  | settle success =>
    cases hframes : m.frames with
    | nil => exact absurd hframes hopen
    | cons f frames =>
      have hf := hproper.2 f (by rw [hframes]; exact List.mem_cons_self)
      exact h.settle hρ hframes ⟨hf.1, hf.2⟩ success

/-! ## Turns in a row -/

/-- Turns lead from one state to another, and none of them is made at the end of the chain or without a choice. -/
inductive Steps (s : Setting) (phase : Phase) (m : Machine) : Phase → Machine → Prop
  | refl : s.Steps phase m phase m
  | turn {phase₁ phase₂ : Phase} {m₁ m₂ : Machine} (before : s.Steps phase m phase₁ m₁)
      (inside : ¬ phase₁.Closed m₁) (turn : s.turn m₁ phase₁ = .going phase₂ m₂) : s.Steps phase m phase₂ m₂

theorem Steps.reaches (h : s.Steps phase m phase₁ m₁) : s.Reaches phase m phase₁ m₁ := by
  induction h with
  | refl => exact .refl _ _
  | turn _ _ turn ih => exact ih.snoc turn

theorem Steps.proper (h : s.Steps phase m phase₁ m₁) (hproper : m.Proper phase) : m₁.Proper phase₁ :=
  h.reaches.invariant (fun phase m => m.Proper phase) (fun hmove => hmove.spread s.spreads_proper) hproper

section

variable (hsame : s.SameReads s') (hρ : Renumbers ρ)

include hsame hρ

omit hsame hρ in
/-- What is inside the chain is not at an end of the tree. -/
theorem not_closed_graft (hgrafted : m.Grafted ρ around below m') (hopen : ¬ phase.Closed m) :
    ¬ (phase.graft ρ around).Closed m' := by
  cases phase with
  | walk c =>
    have hc : c.chain ≠ .nil := hopen
    simp only [Phase.graft, Phase.Closed, c.graft_eq hc]
    exact Chain.renumber_ne_nil hc
  | settle success =>
    simp only [Phase.graft, Phase.Closed, hgrafted.frames, List.append_eq_nil_iff, List.map_eq_nil_iff]
    exact fun h => hopen h.1

theorem Steps.graft (h : s.Steps phase m phase₁ m₁) (hproper : m.Proper phase)
    (hgrafted : m.Grafted ρ around below m') :
    ∃ m₁', s'.Steps (phase.graft ρ around) m' (phase₁.graft ρ around) m₁' ∧ m₁.Grafted ρ around below m₁' := by
  induction h with
  | refl => exact ⟨m', .refl, hgrafted⟩
  | turn before inside turn ih =>
    obtain ⟨m₁', hsteps, hgrafted₁⟩ := ih
    obtain ⟨r, r', hturn, hturn', hphase, hgrafted₂⟩ :=
      graft_turn hsame hρ hgrafted₁ (before.proper hproper) inside
    obtain ⟨rfl, rfl⟩ := Turn.going.inj (hturn.symm.trans turn)
    exact ⟨r'.2, hsteps.turn (not_closed_graft hgrafted₁ inside) (hphase ▸ hturn'), hgrafted₂⟩

/-- A run in the tree that ends has come to the end of the chain before, or to where no choice in it is left. -/
theorem exists_steps (fuel : Nat) : ∀ {phase₁ : Phase} {m₁ m₁' : Machine} {res : Verdict × Machine},
    s.Steps phase m phase₁ m₁ → m.Proper phase → m₁.Grafted ρ around below m₁' →
      s'.run fuel (phase₁.graft ρ around) m₁' = some res →
      ∃ phase₂ m₂ m₂' fuel', s.Steps phase m phase₂ m₂ ∧ phase₂.Closed m₂ ∧ m₂.Grafted ρ around below m₂' ∧
        s'.run fuel' (phase₂.graft ρ around) m₂' = some res := by
  induction fuel with
  | zero => exact fun _ _ _ hrun => by cases hrun
  | succ fuel ih =>
    intro phase₁ m₁ m₁' res hsteps hproper hgrafted hrun
    by_cases hclosed : phase₁.Closed m₁
    · exact ⟨phase₁, m₁, m₁', fuel + 1, hsteps, hclosed, hgrafted, hrun⟩
    · obtain ⟨r, r', hturn, hturn', hphase, hgrafted'⟩ :=
        graft_turn hsame hρ hgrafted (hsteps.proper hproper) hclosed
      simp only [run, hturn', hphase] at hrun
      exact ih (hsteps.turn hclosed hturn) hproper hgrafted' hrun

end

theorem Steps.mirrors (hlimit : s.limit = none) {a a₁ b : Machine} (h : s.Steps phase a phase₁ a₁)
    (hab : a.Mirrors phase.nodes b) : ∃ b₁, s.Steps phase b phase₁ b₁ ∧ a₁.Mirrors phase₁.nodes b₁ := by
  induction h with
  | refl => exact ⟨b, .refl, hab⟩
  | @turn phase₁ phase₂ a₁ a₂ before inside turn ih =>
    obtain ⟨b₁, hsteps, hmirrors⟩ := ih
    have hinside : ¬ phase₁.Closed b₁ := by
      intro hclosed
      cases phase₁ with
      | walk c => exact inside hclosed
      | settle success =>
        refine inside (?_ : a₁.frames = [])
        cases hframes : a₁.frames with
        | nil => rfl
        | cons f frames =>
          obtain ⟨g, gs, hcons, -⟩ := hmirrors.pop hframes
          have hnil : b₁.frames = [] := hclosed
          rw [hnil] at hcons
          cases hcons
    rcases mirrors_turn hlimit hmirrors with ⟨phase', a', b', hturn, hturn', hmirrors'⟩ | ⟨v, hturn, -⟩
    · obtain ⟨rfl, rfl⟩ := Turn.going.inj (hturn.symm.trans turn)
      exact ⟨b', hsteps.turn hinside hturn', hmirrors'⟩
    · rw [hturn] at turn
      cases turn

end Setting

end

end SpanRegex
