import SpanRegex.Proofs.Leftmost
import SpanRegex.Proofs.Relabelling

/-! # Searches after an exchange of leaves

Where a tree has been made from another by exchanging leaves, and each leaf reads what the exchanged one
reads, the machine takes the same turns on both trees.

* `Cursor.relabel`, `Machine.relabel`, `Phase.relabel`: the leaves exchanged wherever the machine keeps them.
* `Setting.Mirrors`: the trees differ by the exchange and the leaves read the same.
* `Mirrors.turn`, `Mirrors.run`, `Mirrors.attempt`: the same turns, runs and attempts.
* `Mirrors.outcome`: the same outcome under the same prefilter.
-/

namespace SpanRegex
set_option autoImplicit false

open Pattern (Chain Edge Leaf Look Prefilter Quantifier Slot)

/-! ## States -/

def Cursor.relabel (f : Nat → Leaf → Leaf) (c : Cursor) : Cursor :=
  { c with chain := c.chain.relabel f, above := c.above.map (Chain.relabel f) }

def Frame.relabel (f : Nat → Leaf → Leaf) (fr : Frame) : Frame := { fr with cursor := fr.cursor.relabel f }

def Machine.relabel (f : Nat → Leaf → Leaf) (m : Machine) : Machine :=
  { m with frames := m.frames.map (Frame.relabel f) }

def Phase.relabel (f : Nat → Leaf → Leaf) : Phase → Phase
  | .walk c => .walk (c.relabel f)
  | .settle success => .settle success

def Turn.relabel (f : Nat → Leaf → Leaf) : Turn → Turn
  | .going phase m => .going (phase.relabel f) (m.relabel f)
  | .over verdict m => .over verdict (m.relabel f)

section

variable {f : Nat → Leaf → Leaf}

theorem Cursor.leave_relabel (c : Cursor) (next : Chain) (pos : Nat) :
    (c.relabel f).leave (next.relabel f) pos = (c.leave next pos).relabel f := by
  obtain ⟨chain, above, at', entering⟩ := c
  cases next with
  | nil => cases above <;> rfl
  | leaf id op next => rfl
  | box id op body next => rfl

theorem Cursor.proceed_relabel (c : Cursor) : (c.relabel f).proceed = c.proceed.relabel f := by
  obtain ⟨chain, above, pos, entering⟩ := c
  cases chain with
  | nil => rfl
  | leaf id op next => exact leave_relabel ⟨.leaf id op next, above, pos, entering⟩ next pos
  | box id op body next => exact leave_relabel ⟨.box id op body next, above, pos, entering⟩ next pos

theorem Cursor.loop_relabel (c : Cursor) :
    (c.relabel f).loop? = c.loop?.map fun found => (found.1, found.2.relabel f) := by
  obtain ⟨chain, above, pos, entering⟩ := c
  cases chain with
  | nil => rfl
  | leaf id op next => rfl
  | box id op body next => cases op <;> rfl

/-! ## Changes of the machine -/

namespace Machine

theorem setGuard_relabel (m : Machine) (id : Nat) (value : Option Nat) :
    (m.relabel f).setGuard id value = (m.setGuard id value).relabel f := by
  have hguards : (m.relabel f).guards = m.guards := rfl
  simp only [setGuard, hguards]
  split <;> rfl

theorem unwind_relabel (m : Machine) (length : Nat) :
    (m.relabel f).unwind length = (m.unwind length).relabel f := by
  have htrail : (m.relabel f).trail = m.trail := rfl
  simp only [unwind, htrail]
  split <;> rfl

theorem pin_relabel (m : Machine) (edge : Edge) (pos : Nat) :
    (m.relabel f).pin edge pos = (m.pin edge pos).relabel f := by
  cases edge <;> rfl

end Machine

theorem enterLoop_relabel (m : Machine) (id : Nat) (q : Quantifier) :
    enterLoop (m.relabel f) id q = (enterLoop m id q).relabel f :=
  Machine.setGuard_relabel (m.setCount id _) id none

/-! ## Visits -/

/-- What a visit or a choice leads to, with the leaves exchanged. -/
def exchanged (f : Nat → Leaf → Leaf) (r : Phase × Machine) : Phase × Machine := (r.1.relabel f, r.2.relabel f)

theorem visitGroup_relabel (m : Machine) (c : Cursor) (id : Nat) (capture : Option Slot) (body next : Chain) :
    visitGroup (m.relabel f) (c.relabel f) id capture (body.relabel f) (next.relabel f) =
      exchanged f (visitGroup m c id capture body next) := by
  have hentering : (c.relabel f).entering = c.entering := rfl
  simp only [visitGroup, hentering, Cursor.leave_relabel]
  split
  · rfl
  · cases capture <;> rfl

theorem visitLook_relabel (m : Machine) (c : Cursor) (look : Look) (body next : Chain) :
    visitLook (m.relabel f) (c.relabel f) look (body.relabel f) (next.relabel f) =
      exchanged f (visitLook m c look body next) := by
  have hentering : (c.relabel f).entering = c.entering := rfl
  have hpos : (c.relabel f).pos = c.pos := rfl
  simp only [visitLook, hentering, hpos, Cursor.leave_relabel]
  split
  · split
    · split <;> rfl
    · rfl
  · rfl

theorem visitAlternative_relabel (m : Machine) (c : Cursor) (body : Chain) :
    visitAlternative (m.relabel f) (c.relabel f) (body.relabel f) =
      exchanged f (visitAlternative m c body) := by
  have hentering : (c.relabel f).entering = c.entering := rfl
  have hleave : (c.relabel f).leave .nil (c.relabel f).pos = (c.leave .nil c.pos).relabel f :=
    c.leave_relabel .nil c.pos
  simp only [visitAlternative, hentering, hleave]
  split <;> rfl

theorem decideLoop_relabel (m : Machine) (c : Cursor) (id : Nat) (q : Quantifier) (body next : Chain) :
    decideLoop (m.relabel f) (c.relabel f) id q (body.relabel f) (next.relabel f) =
      exchanged f (decideLoop m c id q body next) := by
  have hpos : (c.relabel f).pos = c.pos := rfl
  have hguards : (m.relabel f).guards = m.guards := rfl
  have hcounts : (m.relabel f).counts = m.counts := rfl
  simp only [decideLoop, hpos, hguards, hcounts, Cursor.leave_relabel]
  split
  · split
    · rfl
    · rw [Machine.setGuard_relabel]
      split <;> rfl
  · split
    · rfl
    · split <;> rfl

theorem visitLoop_relabel (m : Machine) (c : Cursor) (id : Nat) (q : Quantifier) (body next : Chain) :
    visitLoop (m.relabel f) (c.relabel f) id q (body.relabel f) (next.relabel f) =
      exchanged f (visitLoop m c id q body next) := by
  have hentered : (if (c.relabel f).entering then enterLoop (m.relabel f) id q else m.relabel f) =
      (if c.entering then enterLoop m id q else m).relabel f := by
    rw [enterLoop_relabel, apply_ite (Machine.relabel f)]
    rfl
  simp only [visitLoop, hentered]
  generalize (if c.entering then enterLoop m id q else m) = entered
  have hcounts : (entered.relabel f).counts = entered.counts := rfl
  rw [hcounts, decideLoop_relabel]
  split <;> rfl

/-! ## Choices -/

theorem Machine.retry_relabel (m : Machine) (c : Cursor) (choice : Choice) :
    (m.relabel f).retry (c.relabel f) choice = exchanged f (m.retry c choice) := by
  have hcounts : (m.relabel f).counts = m.counts := rfl
  cases choice with
  | require => rfl
  | refuse | skip | settleForLess =>
    simp only [retry, Cursor.proceed_relabel]
    rfl
  | again | oneMore | giveBack =>
    simp only [retry, Cursor.loop_relabel, hcounts]
    cases c.loop? <;> rfl

theorem Machine.accept_relabel (m : Machine) (c : Cursor) (choice : Choice) :
    (m.relabel f).accept (c.relabel f) choice = exchanged f (m.accept c choice) := by
  cases choice with
  | require =>
    simp only [accept, Cursor.proceed_relabel]
    rfl
  | _ => rfl

theorem Machine.settle_relabel (m : Machine) (success : Bool) :
    (m.relabel f).settle success = (m.settle success).relabel f := by
  have hframes : (m.relabel f).frames = m.frames.map (Frame.relabel f) := rfl
  unfold settle
  rw [hframes]
  cases m.frames with
  | nil => rfl
  | cons fr frames =>
    have hback : ({ m.relabel f with frames := frames.map (Frame.relabel f) } : Machine).unwind fr.trail =
        (({ m with frames } : Machine).unwind fr.trail).relabel f :=
      unwind_relabel { m with frames } fr.trail
    have haccept := accept_relabel (f := f) (({ m with frames } : Machine).unwind fr.trail) fr.cursor fr.choice
    have hretry := retry_relabel (f := f) (({ m with frames } : Machine).unwind fr.trail) fr.cursor fr.choice
    simp only [List.map_cons, Frame.relabel, hback, haccept, hretry]
    cases success <;> rfl

end

/-! ## The same turns -/

/-- A leaf that pins nothing is left where it stops reading. -/
theorem Setting.visitLeaf_read (s : Setting) {m : Machine} {c : Cursor} {op : Leaf} {next : Chain} {pos : Nat}
    (hop : ∀ edge, op ≠ .pin edge) (hread : s.read? m.captures c.pos op = some pos) :
    s.visitLeaf m c op next = (.walk (c.leave next pos), m) := by
  unfold visitLeaf
  rw [hread]
  cases op with
  | pin edge => exact absurd rfl (hop edge)
  | _ => rfl

/-- The second setting has the tree of the first with the leaves exchanged, and each leaf reads what the
one in its place reads. -/
structure Setting.Mirrors (f : Nat → Leaf → Leaf) (s s' : Setting) : Prop where
  limit : s'.limit = s.limit
  tree : s'.pattern.tree = s.pattern.tree.relabel f
  reads : ∀ captures pos id op, s'.read? captures pos (f id op) = s.read? captures pos op
  pins : ∀ id op edge, f id op = .pin edge ↔ op = .pin edge

namespace Setting.Mirrors

variable {f : Nat → Leaf → Leaf} {s s' : Setting} (h : Mirrors f s s')

include h

theorem visitLeaf (m : Machine) (c : Cursor) (id : Nat) (op : Leaf) (next : Chain) :
    s'.visitLeaf (m.relabel f) (c.relabel f) (f id op) (next.relabel f) =
      exchanged f (s.visitLeaf m c op next) := by
  have hread : s'.read? (m.relabel f).captures (c.relabel f).pos (f id op) = s.read? m.captures c.pos op :=
    h.reads m.captures c.pos id op
  cases hpos : s.read? m.captures c.pos op with
  | none => simp only [Setting.visitLeaf, hread, hpos, exchanged, Phase.relabel]
  | some pos =>
    rw [hpos] at hread
    by_cases hpin : ∃ edge, op = .pin edge
    · obtain ⟨edge, rfl⟩ := hpin
      rw [(h.pins id (.pin edge) edge).2 rfl] at hread ⊢
      simp only [Setting.visitLeaf, hread, hpos, Cursor.leave_relabel, Machine.pin_relabel]
      rfl
    · have hop : ∀ edge, op ≠ .pin edge := fun edge hedge => hpin ⟨edge, hedge⟩
      have hfop : ∀ edge, f id op ≠ .pin edge := fun edge hedge => hop edge ((h.pins id op edge).1 hedge)
      rw [s.visitLeaf_read hop hpos, s'.visitLeaf_read hfop hread, Cursor.leave_relabel]
      rfl

theorem visit (m : Machine) (c : Cursor) :
    s'.visit (m.relabel f) (c.relabel f) = exchanged f (s.visit m c) := by
  obtain ⟨chain, above, pos, entering⟩ := c
  cases chain with
  | nil => rfl
  | leaf id op next => exact h.visitLeaf m ⟨.leaf id op next, above, pos, entering⟩ id op next
  | box id op body next =>
    let c : Cursor := ⟨.box id op body next, above, pos, entering⟩
    cases op with
    | group capture => exact visitGroup_relabel m c id capture body next
    | look look => exact visitLook_relabel m c look body next
    | alternative => exact visitAlternative_relabel m c body
    | loop q => exact visitLoop_relabel m c id q body next

theorem turn (m : Machine) (phase : Phase) :
    s'.turn (m.relabel f) (phase.relabel f) = (s.turn m phase).relabel f := by
  cases phase with
  | settle success => exact m.settle_relabel success
  | walk c =>
    let visited : Machine := { m with visits := m.visits + 1 }
    have hexceeds : s'.exceeds = s.exceeds := by
      funext visits
      simp only [Setting.exceeds, h.limit]
    have hvisit : s'.visit (visited.relabel f) (c.relabel f) = exchanged f (s.visit visited c) := h.visit visited c
    have hvisits : ({ m.relabel f with visits := (m.relabel f).visits + 1 } : Machine) = visited.relabel f := rfl
    obtain ⟨chain, above, pos, entering⟩ := c
    cases chain with
    | nil => rfl
    | leaf | box =>
      simp only [Setting.turn, Phase.relabel, Cursor.relabel, Chain.relabel, hvisits, hexceeds] at hvisit ⊢
      rw [hvisit, apply_ite (Turn.relabel f)]
      rfl

theorem run (fuel : Nat) : ∀ (phase : Phase) (m : Machine),
    s'.run fuel (phase.relabel f) (m.relabel f) =
      (s.run fuel phase m).map fun r => (r.1, r.2.relabel f) := by
  induction fuel with
  | zero => exact fun _ _ => rfl
  | succ fuel ih =>
    intro phase m
    simp only [Setting.run, h.turn]
    cases s.turn m phase with
    | going phase' m' => exact ih phase' m'
    | «over» verdict m' => rfl

theorem attempt (fuel pos : Nat) (m : Machine) :
    s'.attempt fuel pos (m.relabel f) = (s.attempt fuel pos m).map fun r => (r.1, r.2.relabel f) := by
  have hstart : Cursor.start s'.pattern.tree pos = (Cursor.start s.pattern.tree pos).relabel f := by
    simp [Cursor.start, Cursor.relabel, h.tree]
  unfold Setting.attempt
  rw [hstart]
  exact h.run fuel (.walk (.start s.pattern.tree pos)) m.ready

theorem outcome (fuel count : Nat) : ∀ (pos : Nat) (m : Machine),
    s'.outcome .anywhere fuel count pos (m.relabel f) = s.outcome .anywhere fuel count pos m := by
  induction count with
  | zero => exact fun _ _ => rfl
  | succ count ih =>
    intro pos m
    have haccepts : ∀ i, Prefilter.accepts i pos .anywhere = true := fun _ => rfl
    rw [outcome_step, outcome_step, if_pos (haccepts _), if_pos (haccepts _), h.attempt]
    cases s.attempt fuel pos m with
    | none => rfl
    | some r =>
      obtain ⟨v, m'⟩ := r
      cases v with
      | failed => exact ih (pos + 1) m'
      | matched => rfl
      | exhausted => rfl

end Setting.Mirrors

end SpanRegex
