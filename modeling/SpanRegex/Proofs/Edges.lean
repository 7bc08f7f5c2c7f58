import SpanRegex.Proofs.Drafts
import SpanRegex.Proofs.Groups
import SpanRegex.Proofs.Places

/-! # The edges of captures

Every slot of a match is unset, or it holds a span that begins no later than it ends and ends no later
than the text. The start of a group may be stale and the edges of the whole match may have been pinned
in any order: closing a group puts them in order, and the root is closed last.

* `Bounds.Closed`: unset, or a span up to an offset.
* `Captures.Tidy`: the slots of groups are closed, and the whole match does not end beyond the offset.
* `Move.tidy`: every turn keeps the captures tidy.
* `closed_of_attempt_matched`: every slot is closed when an attempt succeeds.
* `exec_inRange`: every slot of a match is closed, and a search whose attempt succeeds has a match.
-/

namespace SpanRegex
set_option autoImplicit false

open Pattern (Edge Slot)

/-! ## Closed slots -/

/-- The slot is unset on both sides, or it holds a span that is in order and ends by the offset. -/
def Bounds.Closed (n : Nat) (b : Bounds) : Prop :=
  b = {} ∨ ∃ start stop, b = ⟨some start, some stop⟩ ∧ start ≤ stop ∧ stop ≤ n

theorem Bounds.closed_ordered {n : Nat} {b : Bounds} (hstart : b.start.isSome) (hstop : b.stop.isSome)
    (hle : ∀ x, b.stop = some x → x ≤ n) : b.ordered.Closed n := by
  obtain ⟨start, stop⟩ := b
  obtain ⟨start, rfl⟩ := Option.isSome_iff_exists.1 hstart
  obtain ⟨stop, rfl⟩ := Option.isSome_iff_exists.1 hstop
  exact .inr ⟨_, stop, ordered_eq start stop, Nat.min_le_right _ _, hle stop rfl⟩

/-- The slots of groups are closed, and the whole match does not end beyond the offset. -/
structure Captures.Tidy (n : Nat) (c : Captures) : Prop where
  groups : ∀ slot, slot ≠ Slot.whole → (c.get slot).Closed n
  stop : ∀ x, c.edge? .stop = some x → x ≤ n

namespace Captures.Tidy

variable {n pos : Nat}

theorem empty (n : Nat) : ({} : Captures).Tidy n := by
  have hempty : ∀ slot, ({} : Captures).get slot = {} := fun slot => by
    cases slot <;> simp [Captures.get, Vector.get]
  exact ⟨fun slot _ => .inl (hempty slot), by simp [edge?, hempty]⟩

theorem pin {c : Captures} (h : c.Tidy n) (edge : Edge) (hpos : pos ≤ n) : (c.pin edge pos).Tidy n := by
  constructor
  · intro slot hslot
    cases edge <;>
    · simp only [Captures.pin, get_set, if_neg (Ne.symm hslot)]
      exact h.groups slot hslot
  · intro x hx
    cases edge with
    | start =>
      simp only [edge?, Captures.pin, get_set, if_true] at hx
      exact h.stop x hx
    | stop =>
      simp only [edge?, Captures.pin, get_set, if_true] at hx
      exact Option.some.inj hx ▸ hpos

/-- A group is left: its slot is closed unless it is that of the whole match, which keeps an end that
is pinned. -/
theorem record {m : Machine} (h : m.captures.Tidy n) (slot : Slot) (id : Nat) (hpos : pos ≤ n) :
    (m.record slot pos id).captures.Tidy n := by
  constructor
  · intro slot' hslot'
    simp only [Machine.record, Captures.record, get_set]
    split
    · rename_i heq
      subst heq
      simp only [beq_eq_false_iff_ne.2 hslot', Bool.false_and, Bool.false_eq_true, if_false]
      exact Bounds.closed_ordered rfl rfl fun x hx => Option.some.inj hx ▸ hpos
    · exact h.groups slot' hslot'
  · intro x hx
    simp only [edge?, Machine.record, Captures.record, get_set] at hx
    split at hx
    · rename_i heq
      subst heq
      simp only [Bounds.ordered_isSome] at hx
      split at hx
      · exact h.stop x hx
      · exact Option.some.inj hx ▸ hpos
    · exact h.stop x hx

end Captures.Tidy

/-! ## Turns and attempts -/

namespace Setting

variable {s : Setting} {phase phase' : Phase} {m m' : Machine}

theorem Move.tidy {n : Nat} (h : s.Move phase m phase' m') (hpos : ∀ c, phase = .walk c → c.pos ≤ n)
    (hm : m.captures.Tidy n) : m'.captures.Tidy n := by
  cases h.recorded with
  | same records => exact records.captures ▸ hm
  | @pin c _ _ edge =>
    have hpin := hm.pin edge (hpos c rfl)
    cases edge <;> exact hpin
  | enter => exact hm
  | @record c _ id slot => exact Captures.Tidy.record (m := m.visited) hm slot id (hpos c rfl)

theorem Reaches.tidy {tree : Pattern.Chain} {pos : Nat} (hpos : pos ≤ s.input.stop)
    (h : s.Reaches (.walk (.start tree pos)) m.ready phase m') : m'.captures.Tidy s.input.stop :=
  h.induct (fun _ m => m.captures.Tidy s.input.stop)
    (fun hreached turn hm => (move_of_turn turn).tidy
      (fun _ hphase => hreached.places s.spreads_inside rfl hpos hphase) hm)
    (.empty _)

/-- Every slot is closed when an attempt succeeds, and that of the whole match is set. -/
theorem closed_of_attempt_matched (hnumbered : s.pattern.Numbered) {fuel pos : Nat}
    (hpos : pos ≤ s.input.stop) (h : s.attempt fuel pos m = some (.matched, m')) :
    ∀ slot, (m'.captures.get slot).Closed s.input.stop := by
  obtain ⟨c, m₁, hreaches, -, -, -, hcaptures⟩ := rootLeft_of_attempt hnumbered h
  have htidy : m'.captures.Tidy s.input.stop := by
    rw [hcaptures]
    exact (hreaches.tidy hpos).record _ _ (hreaches.places s.spreads_inside rfl hpos rfl)
  have hwhole : m'.captures.Whole := hcaptures ▸ hreaches.pinsHeld.whole _ _
  intro slot
  by_cases hslot : slot = Slot.whole
  · subst hslot
    -- The root was left last, which has put the edges of the whole match in order.
    obtain ⟨b, hb⟩ : ∃ b : Bounds, m'.captures.get Slot.whole = b.ordered := by
      simp only [hcaptures, Machine.record, Captures.record, Captures.get_set, if_true]
      exact ⟨_, rfl⟩
    have hstart := hwhole .start
    have hstop := hwhole .stop
    have hle := htidy.stop
    simp only [Captures.edge?, hb, Bounds.ordered_isSome] at hstart hstop hle
    rw [hb]
    exact Bounds.closed_ordered hstart hstop hle
  · exact htidy.groups slot hslot

end Setting

/-! ## Searches -/

/-- A search that has an attempt succeed answers a match with the captures of the attempt; and in every
match that a search answers, each slot is unset on both sides or holds a span that is in order and ends
no later than the text, and than the bound of the search. -/
theorem exec_inRange {o : Pattern.Options} {cs : List Char} {p : Pattern}
    (hp : Pattern.compile o cs = .ok p) {m : Matcher} (hm : m.pattern = p) (q : Query) (fuel : Nat) :
    (∀ machine, q.start ≤ q.bound →
      (m.setting q).search m.pattern.prefilter fuel q.offsets q.start {} = some (.matched, machine) →
      ∃ hit m', m.exec fuel q = some (some hit, m') ∧ hit.captures = machine.captures) ∧
    ∀ hit m', m.exec fuel q = some (some hit, m') →
      ∀ slot, (hit.captures.get slot).Closed (min q.stop q.text.size) := by
  subst hm
  have hnumbered := Pattern.numbered_of_compile hp
  constructor
  · intro machine hstart hsearch
    obtain ⟨pos, before, -, -, hattempt⟩ := Setting.attempt_of_search _ hsearch
    obtain ⟨hit, hhit⟩ := (Setting.whole_of_attempt (s := m.setting q) hnumbered hattempt).ofCaptures
    refine ⟨hit, { m with captures := machine.captures }, ?_, Match.captures_ofCaptures hhit⟩
    simp only [Matcher.exec, Matcher.search, if_neg (Nat.not_lt_of_le hstart), hsearch, hhit]
  · intro hit m' hexec
    obtain ⟨pos, before, machine, -, hpos, hcaptures, hattempt⟩ := Matcher.attempt_of_exec hexec
    rw [hcaptures]
    exact Setting.closed_of_attempt_matched (s := m.setting q) hnumbered hpos hattempt

/-- The pattern `a(?#1\M)(b)\m`. -/
def crossedPins : Pattern where
  options := {}
  names := .empty
  body :=
    .leaf 0 (.unit (.literal 97))
      (.box 2 (.look ⟨false, some 1⟩) (.leaf 1 (.pin .stop) .nil)
        (.box 4 (.group (some firstGroup)) (.leaf 3 (.unit (.literal 98)) .nil)
          (.leaf 5 (.pin .start) .nil)))
  rootId := 6

/-- In `ab` the end is pinned before the first unit and the start behind the last one: the match is the
empty span at the end that was pinned. -/
theorem exec_crossedPins : Pattern.compile {} "a(?#1\\M)(b)\\m".toList = .ok crossedPins ∧
    ∃ hit m', ({ pattern := crossedPins } : Matcher).exec 100 { text := #[97, 98] } = some (some hit, m') ∧
      hit.span = ⟨0, 0⟩ ∧ ∀ slot, (hit.captures.get slot).Closed 2 := by
  have hp : Pattern.compile {} "a(?#1\\M)(b)\\m".toList = .ok crossedPins := by decide +kernel
  have hhit : ((({ pattern := crossedPins } : Matcher).exec 100 { text := #[97, 98] }).bind (·.1)).map
      Match.span = some ⟨0, 0⟩ := by decide +kernel
  obtain ⟨hit, hbind, hspan⟩ := Option.map_eq_some_iff.1 hhit
  obtain ⟨⟨found, m'⟩, hexec, rfl⟩ := Option.bind_eq_some_iff.1 hbind
  have hclosed := (exec_inRange (m := { pattern := crossedPins }) hp rfl { text := #[97, 98] } 100).2
  exact ⟨hp, hit, m', hexec, hspan, hclosed hit m' hexec⟩

end SpanRegex
