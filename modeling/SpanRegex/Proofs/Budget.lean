import SpanRegex.Proofs.Drafts
import SpanRegex.Proofs.Endless
import SpanRegex.Proofs.Whole

/-! # Searches under a limit

Only visits count against the limit, but choices are also given up, and opened in their place, between
visits. A visit opens one choice at most, and a choice that is taken back is followed by a lesser one, by
a walk or by none. So the visits that are left pay for all other turns.

* `Setting.visited`, `Setting.searched`, `Matcher.visited`: the places that a run, and a search, visits.
* `Choice.weight`, `Machine.load`, `Setting.due`: what is still to be paid; `Setting.due_of_turn`: every
  turn pays.
* `Setting.run_of_due`: a run with as many turns to take ends.
* `Setting.idle_of_after`: how many turns in a row visit nothing.
* `exec_under_limit`: a search under a limit ends, with as many visits at most.
-/

namespace SpanRegex
set_option autoImplicit false

open Pattern (Chain Leaf Look Quantifier Slot)

/-! ## What is visited -/

/-- The place that the next turn visits. -/
def Phase.visited : Phase → List Cursor
  | .walk c => if c.chain = .nil then [] else [c]
  | .settle _ => []

theorem Phase.visited_length_le (phase : Phase) : phase.visited.length ≤ 1 := by
  unfold visited
  split
  · split <;> simp
  · simp

/-- The places that a run visits, in their order. -/
def Setting.visited (s : Setting) : Nat → Phase → Machine → List Cursor
  | 0, _, _ => []
  | fuel + 1, phase, m =>
    match s.turn m phase with
    | .going phase' m' => phase.visited ++ s.visited fuel phase' m'
    | .over _ _ => []

/-- The places that the attempts at `count` offsets from `pos` on visit, in their order. -/
def Setting.searched (s : Setting) (prefilter : Pattern.Prefilter) (fuel : Nat) :
    Nat → Nat → Machine → List Cursor
  | 0, _, _ => []
  | count + 1, pos, m =>
    if prefilter.accepts s.input pos then
      s.visited fuel (.walk (.start s.pattern.tree pos)) m.ready ++
        match s.attempt fuel pos m with
        | some (.failed, m) => s.searched prefilter fuel count (pos + 1) m
        | _ => []
    else
      s.searched prefilter fuel count (pos + 1) m

/-- The places that a search visits, over all offsets that it tries. -/
def Matcher.visited (m : Matcher) (fuel : Nat) (q : Query) : List Cursor :=
  if q.bound < q.start then []
  else (m.setting q).searched m.pattern.prefilter fuel q.offsets q.start {}

namespace Setting

variable {s : Setting} {m m' : Machine} {c : Cursor} {phase phase' : Phase}

/-! ## Visits are counted by turns alone -/

theorem setGuard_visits (m : Machine) (id : Nat) (value : Option Nat) :
    (m.setGuard id value).visits = m.visits := by
  unfold Machine.setGuard
  simp only
  split <;> rfl

theorem unwind_visits (m : Machine) (length : Nat) : (m.unwind length).visits = m.visits := by
  unfold Machine.unwind
  split <;> rfl

theorem visitLeaf_visits (op : Leaf) (next : Chain) : (s.visitLeaf m c op next).2.visits = m.visits := by
  unfold visitLeaf
  cases s.read? m.captures c.pos op with
  | none => rfl
  | some pos =>
    cases op with
    | pin edge => cases edge <;> rfl
    | empty => rfl
    | unit test => rfl
    | assertion condition => rfl
    | reference slot => rfl
    | cross target ignoreCase => rfl

theorem visitLoop_visits (id : Nat) (q : Quantifier) (body next : Chain) :
    (visitLoop m c id q body next).2.visits = m.visits := by
  have hdecide : ∀ m₁ : Machine, (decideLoop m₁ c id q body next).2.visits = m₁.visits := by
    intro m₁
    unfold decideLoop
    simp only
    split
    · split
      · rfl
      · split <;> exact setGuard_visits _ _ _
    · split
      · rfl
      · split <;> rfl
  have henter : (if c.entering then enterLoop m id q else m).visits = m.visits := by
    split
    · exact setGuard_visits _ _ _
    · rfl
  unfold visitLoop
  generalize (if c.entering then enterLoop m id q else m) = m₁ at henter
  simp only
  split
  · rw [hdecide, henter]
  · exact henter

theorem visit_visits (m : Machine) (c : Cursor) : (s.visit m c).2.visits = m.visits := by
  unfold visit
  split
  · rfl
  · exact visitLeaf_visits _ _
  · split
    · unfold visitGroup
      split
      · rfl
      · split <;> rfl
    · unfold visitLook
      split
      · simp only
        split
        · split <;> rfl
        · rfl
      · rfl
    · unfold visitAlternative
      split <;> rfl
    · exact visitLoop_visits _ _ _ _

theorem retry_visits (m : Machine) (c : Cursor) (choice : Choice) :
    (m.retry c choice).2.visits = m.visits := by
  unfold Machine.retry
  split <;> first | rfl | (split <;> rfl)

theorem accept_visits (m : Machine) (c : Cursor) (choice : Choice) :
    (m.accept c choice).2.visits = m.visits := by
  cases choice <;> rfl

theorem turn_visits (h : s.turn m phase = .going phase' m') :
    m'.visits = m.visits + phase.visited.length := by
  cases phase with
  | settle success =>
    simp only [turn, Machine.settle] at h
    split at h
    · simp at h
    · obtain ⟨rfl, rfl⟩ := Turn.going.inj h
      split
      · rw [accept_visits, unwind_visits]; rfl
      · rw [retry_visits, unwind_visits]; rfl
  | walk c =>
    by_cases hc : c.chain = .nil
    · simp only [turn, hc] at h
      obtain ⟨rfl, rfl⟩ := Turn.going.inj h
      simp [Phase.visited, hc]
    · rw [turn_walk hc] at h
      split at h
      · simp at h
      · obtain ⟨rfl, rfl⟩ := Turn.going.inj h
        rw [visit_visits]
        simp [Phase.visited, hc, Machine.visited]

/-- A turn that ends an attempt has not visited anything, but may have counted one visit too many. -/
theorem over_visits {v : Verdict} (h : s.turn m phase = .over v m') :
    m'.visits = m.visits + if v = .exhausted then 1 else 0 := by
  cases phase with
  | settle success =>
    rcases over_of_turn h with ⟨rfl, -, -, rfl⟩ | ⟨rfl, -, -, rfl⟩ | ⟨rfl, -⟩
    · rfl
    · rfl
    · simp only [turn, Machine.settle] at h
      split at h
      · cases success <;> simp at h
      · simp at h
  | walk c =>
    by_cases hc : c.chain = .nil
    · simp [turn, hc] at h
    · rw [turn_walk hc] at h
      split at h
      · obtain ⟨rfl, rfl⟩ := Turn.over.inj h
        rfl
      · simp at h

theorem run_visits (fuel : Nat) : ∀ {phase : Phase} {m m' : Machine} {v : Verdict},
    s.run fuel phase m = some (v, m') →
      m'.visits = m.visits + (s.visited fuel phase m).length + if v = .exhausted then 1 else 0 := by
  induction fuel with
  | zero => intro phase m m' v h; simp [run] at h
  | succ fuel ih =>
    intro phase m m' v h
    cases hturn : s.turn m phase with
    | going phase₁ m₁ =>
      simp only [run, hturn] at h
      rw [ih h, turn_visits hturn]
      simp only [visited, hturn, List.length_append, Nat.add_assoc]
    | «over» v₁ m₁ =>
      simp only [run, hturn] at h
      obtain ⟨rfl, rfl⟩ := Prod.mk.inj (Option.some.inj h)
      rw [over_visits hturn]
      simp [visited, hturn]

/-- The counter of a search counts the places that it visits, and the visit that was not allowed. -/
theorem search_visits {prefilter : Pattern.Prefilter} {fuel : Nat} (count : Nat) :
    ∀ {pos : Nat} {m m' : Machine} {v : Verdict}, s.search prefilter fuel count pos m = some (v, m') →
      m'.visits = m.visits + (s.searched prefilter fuel count pos m).length +
        if v = .exhausted then 1 else 0 := by
  induction count with
  | zero =>
    intro pos m m' v h
    obtain ⟨rfl, rfl⟩ := Prod.mk.inj (Option.some.inj h)
    rfl
  | succ count ih =>
    intro pos m m' v h
    by_cases haccepts : prefilter.accepts s.input pos = true
    · simp only [search, searched, if_pos haccepts] at h ⊢
      cases hattempt : s.attempt fuel pos m with
      | none => simp [hattempt] at h
      | some r =>
        obtain ⟨v₁, m₁⟩ := r
        have hcount := run_visits fuel hattempt
        have hready : m.ready.visits = m.visits := rfl
        rw [hready] at hcount
        rw [hattempt] at h
        cases v₁ with
        | failed =>
          have hrest := ih h
          simp only [List.length_append]
          simp only [reduceCtorEq, if_false] at hcount
          omega
        | matched =>
          obtain ⟨rfl, rfl⟩ := Prod.mk.inj (Option.some.inj h)
          simpa using hcount
        | exhausted =>
          obtain ⟨rfl, rfl⟩ := Prod.mk.inj (Option.some.inj h)
          simpa using hcount
    · simp only [search, searched, if_neg haccepts] at h ⊢
      exact ih h

/-! ## No more visits than allowed -/

section

variable {L : Nat} (hlimit : s.limit = some L)

include hlimit

theorem exceeds_iff (n : Nat) : s.exceeds n = true ↔ L < n := by
  simp [exceeds, hlimit]

theorem turn_within (hm : m.visits ≤ L) (h : s.turn m phase = .going phase' m') : m'.visits ≤ L := by
  cases phase with
  | settle success => rw [turn_visits h]; exact hm
  | walk c =>
    by_cases hc : c.chain = .nil
    · rw [turn_visits h]
      simpa [Phase.visited, hc] using hm
    · have hgoing := h
      rw [turn_walk hc] at h
      split at h
      · simp at h
      · rename_i hallowed
        rw [exceeds_iff hlimit] at hallowed
        rw [turn_visits hgoing]
        simpa [Phase.visited, hc, Machine.visited] using hallowed

theorem visited_within (fuel : Nat) : ∀ {phase : Phase} {m : Machine}, m.visits ≤ L →
    m.visits + (s.visited fuel phase m).length ≤ L := by
  induction fuel with
  | zero => exact fun hm => hm
  | succ fuel ih =>
    intro phase m hm
    cases hturn : s.turn m phase with
    | going phase₁ m₁ =>
      have hrest : m₁.visits + (s.visited fuel phase₁ m₁).length ≤ L := ih (turn_within hlimit hm hturn)
      rw [turn_visits hturn] at hrest
      simp only [visited, hturn, List.length_append]
      omega
    | «over» v m₁ => simpa [visited, hturn] using hm

theorem searched_within (prefilter : Pattern.Prefilter) (fuel count : Nat) :
    ∀ (pos : Nat) {m : Machine}, m.visits ≤ L →
      m.visits + (s.searched prefilter fuel count pos m).length ≤ L := by
  induction count with
  | zero => exact fun _ _ hm => hm
  | succ count ih =>
    intro pos m hm
    have hattempt : m.visits + (s.visited fuel (.walk (.start s.pattern.tree pos)) m.ready).length ≤ L :=
      visited_within hlimit fuel (m := m.ready) hm
    have hready : m.ready.visits = m.visits := rfl
    by_cases haccepts : prefilter.accepts s.input pos = true
    · simp only [searched, if_pos haccepts, List.length_append]
      split
      · rename_i m₁ hfailed
        have hcount := run_visits fuel hfailed
        simp only [reduceCtorEq, if_false] at hcount
        have hrest := ih (pos + 1) (m := m₁) (by omega)
        omega
      · simp only [List.length_nil]
        omega
    · simp only [searched, if_neg haccepts]
      exact ih _ hm

end
end Setting

/-- A search visits no more places than its limit allows. -/
theorem Matcher.visited_within {m : Matcher} {L : Nat} (hlimit : m.limit = some L) (fuel : Nat)
    (q : Query) : (m.visited fuel q).length ≤ L := by
  unfold visited
  split
  · exact Nat.zero_le L
  · have hwithin := Setting.searched_within (s := m.setting q) (m := {}) hlimit m.pattern.prefilter fuel
      q.offsets q.start (Nat.zero_le L)
    rwa [Nat.zero_add] at hwithin

/-! ## Every turn pays -/

/-- How many turns a choice can cost before the next visit. -/
def Choice.weight : Choice → Nat
  | .giveBack => 1
  | .settleForLess | .oneMore => 3
  | .require | .refuse | .skip | .again => 2

/-- What the open choices can cost. -/
def Machine.load (m : Machine) : Nat := m.frames.foldr (fun f load => f.choice.weight + load) 0

/-- Leaving the root is a turn that visits nothing. -/
def Phase.weight : Phase → Nat
  | .walk _ => 1
  | .settle _ => 0

/-- The turns that can still be taken with `left` visits: a visit can cost three turns more, those of
the choice that it opens. -/
def Setting.due (left : Nat) (phase : Phase) (m : Machine) : Nat := 4 * left + m.load + phase.weight

namespace Setting

variable {s : Setting} {m m' : Machine} {c : Cursor} {phase phase' : Phase}

theorem load_push (m : Machine) (c : Cursor) (choice : Choice) :
    (m.push c choice).load = choice.weight + m.load := rfl

theorem weight_pos (choice : Choice) : 1 ≤ choice.weight := by cases choice <;> decide

theorem weight_le (choice : Choice) : choice.weight ≤ 3 := by cases choice <;> decide

theorem load_of_opens (h : m.Opens c m') : m'.load ≤ m.load + 3 := by
  rcases h with hframes | ⟨choice, n, -, hframes⟩
  · simp only [Machine.load, hframes]
    omega
  · have hle := weight_le choice
    simp only [Machine.load, hframes, List.foldr_cons]
    omega

/-- A visit opens one choice at most. -/
theorem load_of_move (h : s.Move (.walk c) m phase' m') : m'.load ≤ m.load + 3 := by
  have hsame : ∀ {m₁ : Machine}, m₁.frames = m.frames → m₁.load ≤ m.load + 3 := fun hframes => by
    simp only [Machine.load, hframes]
    omega
  cases h with
  | off => exact hsame rfl
  | read _ _ frames => exact hsame frames
  | @pin _ _ _ edge => cases edge <;> exact hsame rfl
  | lose frames => exact hsame frames
  | enter => exact hsame rfl
  | leave => exact hsame rfl
  | record => exact hsame rfl
  | @look _ _ _ _ _ _ choice =>
    have hle := weight_le choice
    have hload : m.visited.load = m.load := rfl
    rw [load_push, hload]
    omega
  | found => exact hsame rfl
  | inward _ _ opens => exact load_of_opens opens
  | onward _ _ _ opens => exact load_of_opens opens

/-- A choice that fails is followed by a lesser one, by a walk or by none. -/
theorem retry_load (m : Machine) (c : Cursor) (choice : Choice) :
    (m.retry c choice).2.load + (m.retry c choice).1.weight < choice.weight + m.load := by
  have hcount : ∀ (id : Nat) (count : Count), (m.setCount id count).load = m.load := fun _ _ => rfl
  unfold Machine.retry
  cases choice with
  | require => simp [Phase.weight, Choice.weight]
  | refuse => simp only [Phase.weight, Choice.weight]; omega
  | skip => simp only [Phase.weight, Choice.weight]; omega
  | settleForLess => simp only [load_push, Phase.weight, Choice.weight]; omega
  | again => simp only; split <;> simp only [Phase.weight, Choice.weight] <;> omega
  | oneMore => simp only; split <;> simp only [load_push, hcount, Phase.weight, Choice.weight] <;> omega
  | giveBack => simp only; split <;> simp only [hcount, Phase.weight, Choice.weight] <;> omega

theorem accept_load (m : Machine) (c : Cursor) (choice : Choice) :
    (m.accept c choice).2.load + (m.accept c choice).1.weight < choice.weight + m.load := by
  have hpos := weight_pos choice
  unfold Machine.accept
  cases choice <;> simp only [Phase.weight, Choice.weight] <;> omega

theorem settle_load {success : Bool} (h : m.settle success = .going phase' m') :
    m'.load + phase'.weight < m.load := by
  unfold Machine.settle at h
  split at h
  · simp at h
  · rename_i f frames hframes
    have hload : m.load = f.choice.weight + (({ m with frames }).unwind f.trail).load := by
      simp [Machine.load, hframes]
    rw [hload]
    cases success with
    | true =>
      obtain ⟨rfl, rfl⟩ := Turn.going.inj h
      exact accept_load _ _ _
    | false =>
      obtain ⟨rfl, rfl⟩ := Turn.going.inj h
      exact retry_load _ _ _

variable {L : Nat} (hlimit : s.limit = some L)

include hlimit

theorem due_of_turn (h : s.turn m phase = .going phase' m') :
    due (L - m'.visits) phase' m' < due (L - m.visits) phase m := by
  have hvisits := turn_visits h
  cases phase with
  | settle success =>
    have hload := settle_load h
    have hsame : m'.visits = m.visits := hvisits
    simp only [due, Phase.weight, hsame] at hload ⊢
    omega
  | walk c =>
    by_cases hc : c.chain = .nil
    · simp only [turn, hc] at h
      obtain ⟨rfl, rfl⟩ := Turn.going.inj h
      simp [due, Phase.weight]
    · have hload := load_of_move (move_of_turn h)
      have hweight : phase'.weight ≤ 1 := by cases phase' <;> simp [Phase.weight]
      rw [turn_walk hc] at h
      split at h
      · simp at h
      · rename_i hallowed
        rw [exceeds_iff hlimit] at hallowed
        have hallowed : m.visits + 1 ≤ L := Nat.le_of_not_lt hallowed
        have hone : m'.visits = m.visits + 1 := by simpa [Phase.visited, hc] using hvisits
        have hwalk : (Phase.walk c).weight = 1 := rfl
        -- Of the four turns that a visit is worth one is taken; three pay for the choice that it opens.
        simp only [due, hone, hwalk]
        omega

theorem run_of_due (fuel : Nat) : ∀ {phase : Phase} {m : Machine},
    due (L - m.visits) phase m < fuel → ∃ v m', s.run fuel phase m = some (v, m') := by
  induction fuel with
  | zero => intro phase m h; omega
  | succ fuel ih =>
    intro phase m h
    cases hturn : s.turn m phase with
    | going phase₁ m₁ =>
      have hless := due_of_turn hlimit hturn
      simp only [run, hturn]
      exact ih (by omega)
    | «over» v m₁ => exact ⟨v, m₁, by simp only [run, hturn]⟩

theorem attempt_ends (pos : Nat) (m : Machine) :
    ∃ v m', ∀ fuel, 4 * L + 2 ≤ fuel → s.attempt fuel pos m = some (v, m') := by
  have hdue : due (L - m.ready.visits) (.walk (.start s.pattern.tree pos)) m.ready < 4 * L + 2 := by
    have hload : m.ready.load = 0 := rfl
    simp only [due, hload, Phase.weight]
    omega
  obtain ⟨v, m', hrun⟩ := run_of_due hlimit _ hdue
  exact ⟨v, m', fun fuel hfuel => run_of_le _ hfuel hrun⟩

/-- A search under a limit ends: the same number of turns suffices for each attempt. -/
theorem search_ends (prefilter : Pattern.Prefilter) (count : Nat) : ∀ (pos : Nat) (m : Machine),
    ∃ r, ∀ fuel, 4 * L + 2 ≤ fuel → s.search prefilter fuel count pos m = some r := by
  induction count with
  | zero => exact fun pos m => ⟨(.failed, m), fun _ _ => rfl⟩
  | succ count ih =>
    intro pos m
    by_cases haccepts : prefilter.accepts s.input pos = true
    · obtain ⟨v, m', hattempt⟩ := attempt_ends hlimit pos m
      cases v with
      | failed =>
        obtain ⟨r, hr⟩ := ih (pos + 1) m'
        refine ⟨r, fun fuel hfuel => ?_⟩
        rw [search, if_pos haccepts, hattempt fuel hfuel]
        exact hr fuel hfuel
      | matched => exact ⟨_, fun fuel hfuel => by rw [search, if_pos haccepts, hattempt fuel hfuel]⟩
      | exhausted => exact ⟨_, fun fuel hfuel => by rw [search, if_pos haccepts, hattempt fuel hfuel]⟩
    · obtain ⟨r, hr⟩ := ih (pos + 1) m
      refine ⟨r, fun fuel hfuel => ?_⟩
      rw [search, if_neg haccepts]
      exact hr fuel hfuel

end Setting

theorem Matcher.exec_ends {m : Matcher} {L : Nat} (hlimit : m.limit = some L) (q : Query) :
    ∃ found m', ∀ fuel, 4 * L + 2 ≤ fuel → m.exec fuel q = some (found, m') := by
  by_cases hbehind : q.bound < q.start
  · exact ⟨none, m, fun fuel _ => by simp only [exec, search, if_pos hbehind]⟩
  · obtain ⟨⟨v, machine⟩, hsearch⟩ := Setting.search_ends (s := m.setting q) hlimit
      m.pattern.prefilter q.offsets q.start {}
    refine ⟨if v = .matched then Match.ofCaptures? machine.captures else none,
      { m with captures := if v = .matched then machine.captures else {} }, fun fuel hfuel => ?_⟩
    simp only [exec, search, if_neg hbehind, hsearch fuel hfuel]
    cases v <;> rfl

/-! ## Turns between visits -/

namespace Setting

variable {s : Setting} {m m' : Machine} {phase phase' : Phase}

/-- The turns that can be taken before the next visit: one for each open choice, and one if the root has
just been left. -/
def idle (phase : Phase) (m : Machine) : Nat :=
  match phase with
  | .walk c => if c.chain = .nil then m.frames.length + 1 else 0
  | .settle _ => m.frames.length

theorem idle_walk {c : Cursor} (hc : c.chain ≠ .nil) : idle (.walk c) m = 0 := if_neg hc

theorem idle_le (phase : Phase) (m : Machine) : idle phase m ≤ m.frames.length + 1 := by
  unfold idle
  split
  · split <;> omega
  · omega

/-- A turn that visits nothing uses up one of them. A choice that is taken back leads to a node, never out
of the root, as it was opened below the root. -/
theorem idle_of_turn (h : s.turn m phase = .going phase' m') (hstacked : Stacked s.pattern.tree m.frames)
    (hidle : phase.visited = []) : idle phase' m' < idle phase m := by
  have hmove := move_of_turn h
  cases phase with
  | walk c =>
    have hc : c.chain = .nil := by
      by_contra hc
      simp [Phase.visited, hc] at hidle
    simp only [turn, hc] at h
    obtain ⟨rfl, rfl⟩ := Turn.going.inj h
    simp [idle, hc]
  | settle success =>
    cases hmove with
    | drop frames => simp [idle, frames]
    | back frames_eq =>
      rw [frames_eq] at hstacked
      obtain ⟨hfits, habove, -, -⟩ := hstacked
      have hnode := ((hfits.proceed habove).1.nodes _ List.mem_cons_self).1
      rw [idle_walk hnode]
      simp [idle, frames_eq]
    | @again f _ _ _ _ _ _ _ _ _ frames_eq _ here =>
      rw [frames_eq] at hstacked
      have hnode := ((hstacked.1.descend here f.cursor.pos).nodes _ List.mem_cons_self).1
      rw [idle_walk hnode]
      simp [idle, frames_eq]

theorem Reaches.visits_le (h : s.Reaches phase m phase' m') : m.visits ≤ m'.visits := by
  induction h with
  | refl => exact Nat.le_refl _
  | turn first _ ih =>
    have hfirst := turn_visits first
    omega

/-- Turns in a row that visit nothing are no more than can be taken before the next visit. -/
theorem idle_of_after {start : Phase} {m₀ : Machine} (hstacked : ∀ {phase : Phase} {m : Machine},
      s.Reaches start m₀ phase m → Stacked s.pattern.tree m.frames) (n : Nat) :
    ∀ {phase phase' : Phase} {m m' : Machine}, s.Reaches start m₀ phase m →
      s.after n phase m = some (phase', m') → m'.visits = m.visits → n ≤ idle phase m := by
  induction n with
  | zero => exact fun _ _ _ => Nat.zero_le _
  | succ n ih =>
    intro phase phase' m m' hreached h hsame
    obtain ⟨phase₁, m₁, hturn, hrest⟩ := after_succ.1 h
    have hcount := turn_visits hturn
    have hmore := (reaches_after n hrest).visits_le
    have hnothing : phase.visited = [] := List.length_eq_zero_iff.1 (by omega)
    have hless := idle_of_turn hturn (hstacked hreached) hnothing
    have hidle := ih (hreached.snoc hturn) hrest (by omega)
    omega

theorem Reaches.stacked (hnumbered : s.pattern.Numbered) {pos : Nat}
    (h : s.Reaches (.walk (.start s.pattern.tree pos)) m.ready phase' m') :
    Stacked s.pattern.tree m'.frames := by
  have hstart := apt_start hnumbered (fun _ => True) pos m
  exact (h.invariant
    (fun phase m => Stacked s.pattern.tree m.frames ∧ phase.Apt s.pattern.tree (fun _ => True) m)
    (fun hmove h => hmove.apt (fun _ _ _ _ _ => trivial) h.1 h.2) ⟨trivial, hstart⟩).1

end Setting

/-- A search under a limit ends, whatever the pattern and the text: `4 * L + 2` turns suffice for each
attempt. However far it is followed, it visits at most as many nodes as the limit says, over all offsets
that it tries. In each attempt, the turns between two visits are no more than the choices that are open,
but for the one with which the root is left. -/
theorem exec_under_limit {o : Pattern.Options} {cs : List Char} {p : Pattern}
    (hp : Pattern.compile o cs = .ok p) {m : Matcher} (hpattern : m.pattern = p) {L : Nat}
    (hlimit : m.limit = some L) (q : Query) :
    (∃ found m', ∀ fuel, 4 * L + 2 ≤ fuel → m.exec fuel q = some (found, m')) ∧
    (∀ fuel, (m.visited fuel q).length ≤ L) ∧
    ∀ pos before phase₁ m₁ n phase₂ m₂,
      (m.setting q).Reaches (.walk (.start p.tree pos)) (Machine.ready before) phase₁ m₁ →
      (m.setting q).after n phase₁ m₁ = some (phase₂, m₂) → m₂.visits = m₁.visits →
      n ≤ m₁.frames.length + 1 := by
  subst hpattern
  refine ⟨m.exec_ends hlimit q, fun fuel => m.visited_within hlimit fuel q, ?_⟩
  intro pos before phase₁ m₁ n phase₂ m₂ hreached hafter hsame
  have hidle := Setting.idle_of_after
    (fun h => h.stacked (s := m.setting q) (Pattern.numbered_of_compile hp)) n hreached hafter hsame
  exact Nat.le_trans hidle (Setting.idle_le phase₁ m₁)

/-- The pattern `(?:(?:a|)?)*b|a` is searched for in `a` without end unless the visits are limited. -/
theorem exec_emptyTurns_limited :
    Pattern.compile {} "(?:(?:a|)?)*b|a".toList = .ok emptyTurns ∧
    ∃ m', ∀ fuel, 402 ≤ fuel → ({ pattern := emptyTurns, limit := some 100 } : Matcher).exec fuel
      { text := #[97], mode := .anchored } = some (none, m') := by
  have hp : Pattern.compile {} "(?:(?:a|)?)*b|a".toList = .ok emptyTurns := by decide +kernel
  let q : Query := { text := #[97], mode := .anchored }
  have hnothing : (({ pattern := emptyTurns, limit := some 100 } : Matcher).exec 402 q).map
      (fun r => r.1.isSome) = some false := by decide +kernel
  obtain ⟨found, m', hends⟩ := (exec_under_limit hp (m := { pattern := emptyTurns, limit := some 100 })
    rfl rfl q).1
  rw [hends 402 (Nat.le_refl _), Option.map_some] at hnothing
  obtain rfl : found = none := by simpa using hnothing
  exact ⟨hp, m', hends⟩

end SpanRegex
