import SpanRegex.Proofs.Halting

/-! # A run without end

A turn does not depend on the choices that are open below those it takes, nor, without a limit, on
the visits made before. A run that comes back to where it was with more choices open below therefore
does so again, and never ends.

* `Machine.later`: the machine with more choices open below and more visits made.
* `Setting.after`: the state after some turns; `reaches_after`, `after_later`.
* `run_endless`: a run that comes back to a state of before never ends.
-/

namespace SpanRegex
set_option autoImplicit false

open Pattern (Chain Container Leaf Look Quantifier Slot)

/-- More choices are open below, and more visits have been made. -/
def Machine.later (m : Machine) (below : List Frame) (visits : Nat) : Machine :=
  { m with frames := m.frames ++ below, visits := m.visits + visits }

section

variable (below : List Frame) (visits : Nat)

namespace Machine

theorem later_later (m : Machine) (below' : List Frame) (visits' : Nat) :
    (m.later below visits).later below' visits' = m.later (below ++ below') (visits + visits') := by
  simp only [later, List.append_assoc, Nat.add_assoc]

theorem setGuard_later (m : Machine) (id : Nat) (value : Option Nat) :
    (m.later below visits).setGuard id value = (m.setGuard id value).later below visits := by
  have hguards : (m.later below visits).guards = m.guards := rfl
  unfold setGuard
  simp only [hguards]
  split <;> rfl

theorem unwind_later (m : Machine) (n : Nat) :
    (m.later below visits).unwind n = (m.unwind n).later below visits := by
  have htrail : (m.later below visits).trail = m.trail := rfl
  have hguards : (m.later below visits).guards = m.guards := rfl
  unfold unwind
  simp only [htrail, hguards]
  split <;> rfl

end Machine

/-- The walk goes on in the same way, over more choices and after more visits. -/
def later (x : Phase × Machine) : Phase × Machine := (x.1, x.2.later below visits)

namespace Setting

variable {s : Setting} (m : Machine) (c : Cursor)

theorem visitLeaf_later (op : Leaf) (next : Chain) :
    s.visitLeaf (m.later below visits) c op next = later below visits (s.visitLeaf m c op next) := by
  unfold visitLeaf
  simp only [Machine.later]
  cases s.read? m.captures c.pos op with
  | none => rfl
  | some pos =>
    cases op with
    | pin edge => cases edge <;> rfl
    | empty => rfl
    | unit test => rfl
    | assertion condition => rfl
    | reference slot => rfl
    | cross target ignoreCase => rfl

theorem visitGroup_later (id : Nat) (capture : Option Slot) (body next : Chain) :
    visitGroup (m.later below visits) c id capture body next =
      later below visits (visitGroup m c id capture body next) := by
  unfold visitGroup
  split
  · rfl
  · cases capture <;> rfl

theorem visitLook_later (look : Look) (body next : Chain) :
    visitLook (m.later below visits) c look body next =
      later below visits (visitLook m c look body next) := by
  unfold visitLook
  split
  · simp only
    split
    · split <;> rfl
    · rfl
  · rfl

theorem visitAlternative_later (body : Chain) :
    visitAlternative (m.later below visits) c body =
      later below visits (visitAlternative m c body) := by
  unfold visitAlternative
  split <;> rfl

theorem decideLoop_later (id : Nat) (q : Quantifier) (body next : Chain) :
    decideLoop (m.later below visits) c id q body next =
      later below visits (decideLoop m c id q body next) := by
  have hguards : (m.later below visits).guards = m.guards := rfl
  have hcounts : (m.later below visits).counts = m.counts := rfl
  unfold decideLoop
  rw [hguards, hcounts, m.setGuard_later]
  cases q.max with
  | none =>
    simp only
    split
    · rfl
    · split <;> rfl
  | some bound =>
    simp only
    split
    · rfl
    · split <;> rfl

theorem visitLoop_later (id : Nat) (q : Quantifier) (body next : Chain) :
    visitLoop (m.later below visits) c id q body next =
      later below visits (visitLoop m c id q body next) := by
  have henter : (if c.entering then enterLoop (m.later below visits) id q else m.later below visits) =
      (if c.entering then enterLoop m id q else m).later below visits := by
    split
    · unfold enterLoop
      exact Machine.setGuard_later below visits (m.setCount id _) id none
    · rfl
  unfold visitLoop
  rw [henter]
  generalize (if c.entering then enterLoop m id q else m) = m₁
  have hcounts : (m₁.later below visits).counts = m₁.counts := rfl
  simp only [hcounts]
  split
  · exact decideLoop_later below visits m₁ c id q body next
  · rfl

theorem visit_later :
    s.visit (m.later below visits) c = later below visits (s.visit m c) := by
  unfold visit
  split
  · rfl
  · exact visitLeaf_later below visits m c _ _
  · split
    · exact visitGroup_later below visits m c _ _ _ _
    · exact visitLook_later below visits m c _ _ _
    · exact visitAlternative_later below visits m c _
    · exact visitLoop_later below visits m c _ _ _ _

theorem accept_later (choice : Choice) :
    (m.later below visits).accept c choice = later below visits (m.accept c choice) := by
  cases choice <;> rfl

theorem retry_later (choice : Choice) :
    (m.later below visits).retry c choice = later below visits (m.retry c choice) := by
  unfold Machine.retry
  cases choice with
  | require => rfl
  | refuse => rfl
  | skip => rfl
  | settleForLess => rfl
  | again => cases c.loop? <;> rfl
  | oneMore => cases c.loop? <;> rfl
  | giveBack => cases c.loop? <;> rfl

variable {m}

theorem turn_later (hlimit : s.limit = none) {phase phase' : Phase} {m' : Machine}
    (h : s.turn m phase = .going phase' m') :
    s.turn (m.later below visits) phase = .going phase' (m'.later below visits) := by
  cases phase with
  | settle success =>
    simp only [turn, Machine.settle] at h ⊢
    cases hframes : m.frames with
    | nil => simp [hframes] at h
    | cons f frames =>
      have hlater : (m.later below visits).frames = f :: (frames ++ below) := by
        simp [Machine.later, hframes]
      have hpop : ({ m.later below visits with frames := frames ++ below } : Machine) =
          ({ m with frames } : Machine).later below visits := rfl
      rw [hframes] at h
      simp only [hlater, hpop, Machine.unwind_later, accept_later, retry_later]
      obtain ⟨rfl, rfl⟩ := Turn.going.inj h
      split <;> rfl
  | walk c =>
    obtain ⟨chain, above, pos, entering⟩ := c
    have hvisited : ∀ c : Cursor, s.visit { m.later below visits with
        visits := (m.later below visits).visits + 1 } c =
          later below visits (s.visit { m with visits := m.visits + 1 } c) := by
      intro c
      rw [← visit_later]
      simp only [Machine.later, Nat.add_right_comm]
    cases chain with
    | nil =>
      obtain ⟨rfl, rfl⟩ := Turn.going.inj h
      rfl
    | leaf id op next =>
      simp only [turn, exceeds, hlimit, Option.any_none, Bool.false_eq_true, if_false, hvisited] at h ⊢
      obtain ⟨rfl, rfl⟩ := Turn.going.inj h
      rfl
    | box id op body next =>
      simp only [turn, exceeds, hlimit, Option.any_none, Bool.false_eq_true, if_false, hvisited] at h ⊢
      obtain ⟨rfl, rfl⟩ := Turn.going.inj h
      rfl

/-! ## Some turns -/

/-- The state after as many turns, if the attempt is not decided by then. -/
def after (s : Setting) : Nat → Phase → Machine → Option (Phase × Machine)
  | 0, phase, m => some (phase, m)
  | n + 1, phase, m =>
    match s.turn m phase with
    | .going phase m => s.after n phase m
    | .over _ _ => none

theorem after_succ {n : Nat} {phase phase' : Phase} {m m' : Machine} :
    s.after (n + 1) phase m = some (phase', m') ↔
      ∃ phase₁ m₁, s.turn m phase = .going phase₁ m₁ ∧ s.after n phase₁ m₁ = some (phase', m') := by
  rw [after]
  cases s.turn m phase with
  | going phase₁ m₁ => simp
  | «over» v m₁ => simp

theorem run_after (n : Nat) : ∀ {phase phase' : Phase} {m m' : Machine},
    s.after n phase m = some (phase', m') → ∀ fuel, s.run (n + fuel) phase m = s.run fuel phase' m' := by
  induction n with
  | zero =>
    intro phase phase' m m' h fuel
    obtain ⟨rfl, rfl⟩ := Prod.mk.inj (Option.some.inj h)
    rw [Nat.zero_add]
  | succ n ih =>
    intro phase phase' m m' h fuel
    obtain ⟨phase₁, m₁, hturn, hrest⟩ := after_succ.1 h
    rw [Nat.add_right_comm, run, hturn]
    exact ih hrest fuel

theorem reaches_after (n : Nat) : ∀ {phase phase' : Phase} {m m' : Machine},
    s.after n phase m = some (phase', m') → s.Reaches phase m phase' m' := by
  induction n with
  | zero =>
    intro phase phase' m m' h
    obtain ⟨rfl, rfl⟩ := Prod.mk.inj (Option.some.inj h)
    exact .refl _ _
  | succ n ih =>
    intro phase phase' m m' h
    obtain ⟨phase₁, m₁, hturn, hrest⟩ := after_succ.1 h
    exact .turn hturn (ih hrest)

theorem after_later (hlimit : s.limit = none) (n : Nat) : ∀ {phase phase' : Phase} {m m' : Machine},
    s.after n phase m = some (phase', m') →
      s.after n phase (m.later below visits) = some (phase', m'.later below visits) := by
  induction n with
  | zero =>
    intro phase phase' m m' h
    obtain ⟨rfl, rfl⟩ := Prod.mk.inj (Option.some.inj h)
    rfl
  | succ n ih =>
    intro phase phase' m m' h
    obtain ⟨phase₁, m₁, hturn, hrest⟩ := after_succ.1 h
    exact after_succ.2 ⟨_, _, turn_later below visits hlimit hturn, ih hrest⟩

end Setting

end

/-- A run that comes back to where it was, with more choices open below, never ends. -/
theorem Setting.run_endless {s : Setting} (hlimit : s.limit = none) {n more : Nat} {phase : Phase}
    {m : Machine} {opened : List Frame}
    (h : s.after (n + 1) phase m = some (phase, m.later opened more)) (fuel : Nat) :
    ∀ below visits, s.run fuel phase (m.later below visits) = none := by
  induction fuel using Nat.strongRecOn with
  | ind fuel ih =>
    intro below visits
    have hround := after_later below visits hlimit (n + 1) h
    rw [Machine.later_later] at hround
    -- With less fuel than a round takes, more would have to end it; with more, a round is taken off.
    by_cases hlt : fuel < n + 1
    · cases hrun : s.run fuel phase (m.later below visits) with
      | none => rfl
      | some r =>
        have hmore := run_of_le fuel (Nat.le_of_lt hlt) hrun
        have hnone := run_after (n + 1) hround 0
        rw [Nat.add_zero, hmore] at hnone
        simp [run] at hnone
    · obtain ⟨k, rfl⟩ : ∃ k, fuel = n + 1 + k := ⟨fuel - (n + 1), by omega⟩
      rw [run_after (n + 1) hround k]
      exact ih k (by omega) _ _

/-! ## A pattern that is searched for without end -/

/-- The pattern `(?:(?:a|)?)*b|a`. -/
def emptyTurns : Pattern where
  options := {}
  names := .empty
  body :=
    .box 9 .alternative
      (.box 8 (.loop ⟨0, none, false⟩)
        (.box 5 (.group none)
          (.box 4 (.loop ⟨0, some 1, false⟩)
            (.box 3 (.group none)
              (.box 2 .alternative (.leaf 0 (.unit (.literal 97)) .nil) (.leaf 1 .empty .nil)) .nil)
            .nil) .nil)
        (.leaf 6 (.unit (.literal 98)) .nil))
      (.leaf 7 (.unit (.literal 97)) .nil)
  rootId := 10

namespace EmptyTurns

def search : Setting :=
  ({ pattern := emptyTurns } : Matcher).setting { text := #[97], mode := .anchored }

/-- The state at which a round begins: the empty alternative is about to be taken. -/
def round : Phase × Machine :=
  (search.after 33 (.walk (.start emptyTurns.tree 0)) (Machine.ready {})).getD default

/-- The machine at the beginning of a round, without what is open below. -/
def machine : Machine := { round.2 with frames := [], visits := 0 }

/-- The state after a round. -/
def again : Phase × Machine := (search.after 31 round.1 machine).getD default

end EmptyTurns

open EmptyTurns in
/-- No fuel is enough to search `a`, which the last alternative matches: each round leaves one more
choice open, which gives the inner loop the repetition back that it takes in the next round. -/
theorem exec_emptyTurns :
    Pattern.compile {} "(?:(?:a|)?)*b|a".toList = .ok emptyTurns ∧
    ∀ fuel, ({ pattern := emptyTurns } : Matcher).exec fuel { text := #[97], mode := .anchored } =
      none := by
  refine ⟨by decide +kernel, fun fuel => ?_⟩
  have hbegin : search.after 33 (.walk (.start emptyTurns.tree 0)) (Machine.ready {}) =
      some (round.1, machine.later round.2.frames round.2.visits) := by decide +kernel
  have hround : search.after 31 round.1 machine =
      some (round.1, machine.later again.2.frames again.2.visits) := by decide +kernel
  have hrun : search.run fuel (.walk (.start emptyTurns.tree 0)) (Machine.ready {}) = none := by
    cases hfuel : search.run fuel (.walk (.start emptyTurns.tree 0)) (Machine.ready {}) with
    | none => rfl
    | some r =>
      have hmore := Setting.run_of_le fuel (Nat.le_add_left fuel 33) hfuel
      rw [Setting.run_after 33 hbegin, Setting.run_endless rfl hround] at hmore
      simp at hmore
  have hattempt : search.attempt fuel 0 {} = none := hrun
  have hsearch : ({ pattern := emptyTurns } : Matcher).search fuel
      { text := #[97], mode := .anchored } = none := by
    unfold Matcher.search
    rw [if_neg (by decide)]
    have hover : search.search emptyTurns.prefilter fuel 1 0 {} = none := by
      rw [Setting.search, if_pos (by decide +kernel), show search.attempt fuel 0 {} = none from hrun]
    split
    · rfl
    · rename_i h
      cases hover.symm.trans h
    · rename_i h
      cases hover.symm.trans h
  simp only [Matcher.exec, hsearch]

end SpanRegex
