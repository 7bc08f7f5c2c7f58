import SpanRegex.Proofs.Leftmost

/-! # The prefilter

The prefilter is made from the first node of the pattern and asks of an offset what the first visit of
that node asks. So an attempt at an offset that it rejects would fail in its third turn, and a search
finds and captures the same whether such offsets are passed over or tried.

* `rejected_leaf`: where an offset is rejected, the first node is a leaf that cannot be left.
* `attempt_rejected`: an attempt at a rejected offset fails.
* `Matcher.execUnder`: a search with another prefilter; `Matcher.execUnder_self`.
* `exec_unfiltered`: a search with no prefilter answers and captures the same.
-/

namespace SpanRegex
set_option autoImplicit false

open Pattern (Chain Prefilter)

/-! ## Rejected offsets -/

/-- Where the prefilter rejects an offset, the pattern starts with a leaf that does not match there. -/
theorem rejected_leaf {s : Setting} {pos : Nat}
    (h : s.pattern.prefilter.accepts s.input pos = false) :
    ∃ id op next, s.pattern.body = .leaf id op next ∧ s.read? {} pos op = none := by
  unfold Pattern.prefilter at h
  split at h
  · rename_i id u next hbody
    refine ⟨id, _, next, hbody, ?_⟩
    simp only [Prefilter.accepts] at h
    cases hat : s.input.at? pos with
    | none => simp [Setting.read?, hat]
    | some v =>
      rw [hat] at h
      have hpasses : Pattern.UnitTest.passes s.pattern.options v (.literal u) = false := h
      simp [Setting.read?, hat, hpasses]
  · rename_i id next hbody
    have hholds : Pattern.Assertion.holds s.pattern.options s.input pos .lineStart = false := h
    exact ⟨id, _, next, hbody, by simp [Setting.read?, hholds]⟩
  · rename_i id next hbody
    have hholds : Pattern.Assertion.holds s.pattern.options s.input pos .schemeStart = false := h
    exact ⟨id, _, next, hbody, by simp [Setting.read?, hholds]⟩
  · simp [Prefilter.accepts] at h

namespace Setting

variable {s : Setting} (hlimit : s.limit = none)

include hlimit

/-- An attempt at a rejected offset enters the root, fails at the first leaf and has no choice left. -/
theorem attempt_rejected {pos : Nat} (h : s.pattern.prefilter.accepts s.input pos = false)
    (m : Machine) : ∃ m', ∀ fuel, 3 ≤ fuel → s.attempt fuel pos m = some (.failed, m') := by
  obtain ⟨id, op, next, hbody, hread⟩ := rejected_leaf h
  let root := Cursor.start s.pattern.tree pos
  let entered : Machine :=
    { m.ready.visited with starts := m.ready.visited.starts.set s.pattern.rootId pos }
  have henter : s.turn m.ready (.walk root) =
      .going (.walk (root.descend s.pattern.body pos)) entered :=
    s.turn_visit hlimit m.ready (by simp [root, Cursor.start, Pattern.tree])
  have hchain : (root.descend s.pattern.body pos).chain = .leaf id op next := hbody
  have hvisit : s.visit entered.visited (root.descend s.pattern.body pos) =
      (.settle false, entered.visited) := by
    have hread' : s.read? entered.visited.captures (root.descend s.pattern.body pos).pos op = none :=
      hread
    simp only [visit, hchain, visitLeaf, hread']
  have hfail : s.turn entered (.walk (root.descend s.pattern.body pos)) =
      .going (.settle false) entered.visited := by
    rw [s.turn_visit hlimit entered (by simp [hchain]), hvisit]
  have hover : s.turn entered.visited (.settle false) = .over .failed entered.visited := rfl
  refine ⟨entered.visited, fun fuel hfuel => ?_⟩
  obtain ⟨n, rfl⟩ : ∃ n, fuel = n + 3 := ⟨fuel - 3, by omega⟩
  show s.run (n + 3) (.walk root) m.ready = some (.failed, entered.visited)
  simp only [run, henter, hfail, hover]

/-! ## Searches with and without a prefilter -/

theorem outcome_unfiltered {fuel : Nat} (hfuel : 3 ≤ fuel) (count : Nat) : ∀ (pos : Nat) (m : Machine),
    s.outcome s.pattern.prefilter fuel count pos m = s.outcome .anywhere fuel count pos m := by
  induction count with
  | zero => exact fun _ _ => rfl
  | succ count ih =>
    intro pos m
    have hanywhere : Prefilter.accepts s.input pos .anywhere = true := rfl
    rw [outcome_step, outcome_step, if_pos hanywhere]
    by_cases haccepts : s.pattern.prefilter.accepts s.input pos = true
    · rw [if_pos haccepts]
      cases s.attempt fuel pos m with
      | none => rfl
      | some r =>
        obtain ⟨v, m'⟩ := r
        cases v with
        | failed => exact ih (pos + 1) m'
        | matched => rfl
        | exhausted => rfl
    · obtain ⟨m', hattempt⟩ := attempt_rejected hlimit (Bool.eq_false_iff.2 haccepts) m
      rw [if_neg haccepts, hattempt fuel hfuel, ih]
      exact outcome_stale hlimit .anywhere fuel count (pos + 1) m' m

end Setting

/-- The search with this prefilter in place of the pattern's own. -/
def Matcher.execUnder (m : Matcher) (prefilter : Prefilter) (fuel : Nat) (q : Query) :
    Option (Option Match × Matcher) :=
  if q.bound < q.start then some (none, m)
  else ((m.setting q).outcome prefilter fuel q.offsets q.start {}).map m.answer

theorem Matcher.execUnder_self (m : Matcher) (fuel : Nat) (q : Query) :
    m.execUnder m.pattern.prefilter fuel q = m.exec fuel q := by
  unfold execUnder
  split
  · rename_i hbehind
    simp [exec, search, hbehind]
  · rename_i hstart
    exact (m.exec_outcome fuel (Nat.le_of_not_lt hstart)).symm

/-- Without a visit limit, a search that tries every offset answers and captures what the search
answers and captures that passes over the offsets which the prefilter rejects, if it answers at all: an
attempt at such an offset always fails. -/
theorem exec_unfiltered {m : Matcher} (hlimit : m.limit = none) (q : Query) :
    (∀ fuel, 3 ≤ fuel → m.exec fuel q = m.execUnder .anywhere fuel q) ∧
    ∀ pos, m.pattern.prefilter.accepts q.input pos = false → ∀ before : Machine,
      ∃ machine, (m.setting q).Ends (.walk (.start m.pattern.tree pos)) before.ready .failed machine := by
  constructor
  · intro fuel hfuel
    have houtcome := Setting.outcome_unfiltered (s := m.setting q) hlimit hfuel q.offsets q.start {}
    rw [← m.execUnder_self]
    unfold Matcher.execUnder
    rw [← houtcome]
    rfl
  · intro pos hreject before
    obtain ⟨machine, hfails⟩ := Setting.attempt_rejected (s := m.setting q) hlimit hreject before
    exact ⟨machine, 3, hfails⟩

/-- The pattern `ab?` where case is ignored. -/
def caselessPair : Pattern where
  options := { ignoreCase := true }
  names := .empty
  body :=
    .leaf 0 (.unit (.literal 97))
      (.box 2 (.loop ⟨0, some 1, false⟩) (.leaf 1 (.unit (.literal 98)) .nil) .nil)
  rootId := 3

/-- In `xAB` the first offset is rejected, and trying it makes no difference. -/
theorem exec_caselessPair :
    Pattern.compile { ignoreCase := true } "ab?".toList = .ok caselessPair ∧
    (∀ fuel, 3 ≤ fuel → ({ pattern := caselessPair } : Matcher).exec fuel { text := #[120, 65, 66] } =
      ({ pattern := caselessPair } : Matcher).execUnder .anywhere fuel { text := #[120, 65, 66] }) ∧
    (({ pattern := caselessPair } : Matcher).execUnder .anywhere 100 { text := #[120, 65, 66] }).map
      (fun r => r.1.map Match.span) = some (some ⟨1, 3⟩) := by
  have hsame := @exec_unfiltered { pattern := caselessPair } rfl { text := #[120, 65, 66] }
  exact ⟨by decide +kernel, hsame.1, by decide +kernel⟩

end SpanRegex
