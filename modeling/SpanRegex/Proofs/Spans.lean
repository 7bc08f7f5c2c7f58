import SpanRegex.Proofs.Groups
import SpanRegex.Proofs.Places
import SpanRegex.Proofs.Shapes

/-! # The span of a match that pins no edge

The root is entered once, at the offset of the attempt, and it is left where the match ends. If no edge
is pinned the slot of the whole match holds these two offsets, in this order: outside looks the walk
never goes back.

* `Machine.Unpinned`, `Reaches.unpinned`: where nothing pins, no edge is pinned.
* `spreads_root`, `Reaches.starts_root`: the root is entered at the offset of the attempt and never again.
* `span_of_attempt`: the span of a successful attempt.
* `Matcher.span_of_exec`: a match lies between the start of the search and its bound.
-/

namespace SpanRegex
set_option autoImplicit false

open Pattern (Chain Container Edge Slot)

/-! ## Pins -/

theorem Pattern.Chain.unpinned_tail {c : Chain} (h : c.unpinned = true) : c.tail.unpinned = true := by
  cases c with
  | nil => rfl
  | leaf id op next => exact (unpinned_leaf h).2
  | box id op body next => exact (unpinned_box h).2

theorem Pattern.Chain.hereditary_unpinned : Hereditary fun c => c.unpinned = true :=
  ⟨rfl, fun h => (unpinned_box h).1, unpinned_tail⟩

def Machine.Unpinned (m : Machine) : Prop := ∀ edge, m.pinned edge = false

theorem Machine.Unpinned.same {m m' : Machine} (h : m.Unpinned) (hsame : m.SameRecords m') :
    m'.Unpinned := by
  intro edge
  cases edge with
  | start => exact hsame.startPinned.trans (h .start)
  | stop => exact hsame.stopPinned.trans (h .stop)

/-- The group is left at the offset: its slot, that of the whole match, holds the offset at which it was
entered and the one at which it is left. -/
theorem Machine.Unpinned.record {m : Machine} (h : m.Unpinned) (pos id : Nat) :
    (m.record Slot.whole pos id).captures.get Slot.whole =
      ⟨some (min (m.starts.get id) pos), some pos⟩ := by
  have hstart : m.startPinned = false := h .start
  have hstop : m.stopPinned = false := h .stop
  simp [Machine.record, Captures.record, Captures.get_set, hstart, hstop, Bounds.ordered_eq]

namespace Setting

variable {s : Setting} {phase phase' : Phase} {m m' : Machine}

theorem Move.unpinned (h : s.Move phase m phase' m')
    (hphase : ∀ c, phase = .walk c → c.chain.unpinned = true) (hm : m.Unpinned) : m'.Unpinned := by
  cases h.recorded with
  | same records => exact hm.same records
  | pin here =>
    have hpin := hphase _ rfl
    rw [here] at hpin
    exact absurd rfl ((Chain.unpinned_leaf hpin).1 _)
  | enter => exact hm
  | record => exact hm

section

variable {tree : Chain} {pos : Nat}

theorem Reaches.unpinned (hpins : tree.unpinned = true)
    (h : s.Reaches (.walk (.start tree pos)) m.ready phase m') : m'.Unpinned := by
  have hstart : ∀ x ∈ [tree], x.unpinned = true := by simpa using hpins
  refine h.induct (fun _ m => m.Unpinned)
    (fun hreached turn => (move_of_turn turn).unpinned fun c hphase => ?_) fun edge => by cases edge <;> rfl
  exact hreached.places (s.spreads_parts Chain.hereditary_unpinned) rfl hstart hphase _
    List.mem_cons_self

end

end Setting

/-! ## The root -/

/-- The node is the root, or the number of the root is not in use from this node on. -/
def Pattern.Rooted (p : Pattern) (x : Chain) : Prop := x = p.tree ∨ p.rootId ∉ x.ids

namespace Pattern.Rooted

variable {p : Pattern}

theorem free_body (hroot : p.rootId ∉ p.body.ids) {id : Nat} {op : Container} {body next : Chain}
    (h : p.Rooted (.box id op body next)) : p.rootId ∉ body.ids := by
  rcases h with h | h
  · obtain ⟨-, -, rfl, -⟩ := Chain.box.inj h
    exact hroot
  · exact fun hmem => h (by simp [Chain.ids, hmem])

theorem free_tail {x : Chain} (h : p.Rooted x) : p.rootId ∉ x.tail.ids := by
  rcases h with rfl | h
  · simp [tree, Chain.tail, Chain.ids]
  · cases x with
    | nil => exact h
    | leaf id op next => exact fun hmem => h (List.mem_cons_of_mem _ hmem)
    | box id op body next => exact fun hmem => h (List.mem_cons_of_mem _ (List.mem_append_right _ hmem))

theorem hereditary (hroot : p.rootId ∉ p.body.ids) : Chain.Hereditary p.Rooted :=
  ⟨.inr (by simp [Chain.ids]), fun h => .inr (h.free_body hroot), fun h => .inr h.free_tail⟩

end Pattern.Rooted

namespace Setting

variable {s : Setting} {phase : Phase} {m m' : Machine} {pos : Nat}

theorem spreads_root (hroot : s.pattern.rootId ∉ s.pattern.body.ids) (pos : Nat) :
    s.Spreads
      (fun c => (∀ x ∈ c.chain :: c.above, s.pattern.Rooted x) ∧
        (c.entering = true → s.pattern.rootId ∈ c.chain.ids → c.pos = pos))
      fun c => ∀ x ∈ c.chain :: c.above, s.pattern.Rooted x where
  leave _ _ _ h := h.1
  next c c' h hnext := by
    refine ⟨(s.spreads_parts (Pattern.Rooted.hereditary hroot)).next c c' h hnext, fun hentering => ?_⟩
    have hchain := h c.chain List.mem_cons_self
    cases hnext with
    | down here =>
      rw [here] at hchain
      exact fun hmem => absurd hmem (hchain.free_body hroot)
    | @on onto _ onto_eq =>
      have honto : s.pattern.rootId ∉ onto.ids := by
        rcases onto_eq with rfl | rfl
        · exact hchain.free_tail
        · simp [Chain.ids]
      unfold Cursor.leave at hentering ⊢
      split at hentering
      · simp at hentering
      · simp at hentering
      · exact fun hmem => absurd hmem honto

/-- Once the root has been entered, its number keeps the offset of the attempt. -/
theorem Reaches.starts_root (hroot : s.pattern.rootId ∉ s.pattern.body.ids)
    (h : s.Reaches (.walk (.start s.pattern.tree pos)) m.ready phase m') :
    phase = .walk (.start s.pattern.tree pos) ∨ m'.starts.get s.pattern.rootId = pos := by
  refine h.induct
    (fun phase m => phase = .walk (.start s.pattern.tree pos) ∨ m.starts.get s.pattern.rootId = pos)
    (fun {phase phase' m m'} hreached turn hm => .inr ?_) (.inl rfl)
  by_cases henters : ∃ at', phase.Enters s.pattern.rootId at'
  · obtain ⟨at', henters⟩ := henters
    rw [starts_of_enters turn henters]
    obtain ⟨c, capture, body, next, rfl, hchain, hentering, rfl⟩ := exists_group_of_enters henters
    have hplace := hreached.places (s.spreads_root hroot pos) rfl
      ⟨by simp [Cursor.start, Pattern.Rooted], fun _ _ => rfl⟩ rfl
    exact hplace.2 hentering (by simp [hchain, Chain.ids])
  · have hnot : ∀ at', ¬ phase.Enters s.pattern.rootId at' := fun at' h => henters ⟨at', h⟩
    rw [(move_of_turn turn).starts hnot]
    refine hm.resolve_left ?_
    rintro rfl
    exact hnot pos ⟨rfl, rfl, rfl⟩

/-! ## Attempts -/

/-- A successful attempt on a pattern that pins no edge matches from its offset on, up to an offset that
is not behind it. -/
theorem span_of_attempt (hnumbered : s.pattern.Numbered) (hpins : s.pattern.body.unpinned = true)
    {fuel : Nat} (hpos : pos ≤ s.input.stop) (h : s.attempt fuel pos m = some (.matched, m')) :
    ∃ stop, pos ≤ stop ∧ stop ≤ s.input.stop ∧
      m'.captures.get Slot.whole = ⟨some pos, some stop⟩ := by
  obtain ⟨c, m₁, hreaches, htree, habove, hleaving, hcaptures⟩ := rootLeft_of_attempt hnumbered h
  have htreepins : s.pattern.tree.unpinned = true := by simp [Pattern.tree, Chain.unpinned, hpins]
  have hstart : m₁.starts.get s.pattern.rootId = pos := by
    refine (hreaches.starts_root hnumbered.rootId_notMem).resolve_left fun heq => ?_
    obtain rfl := Phase.walk.inj heq
    simp [Cursor.start] at hleaving
  have hahead : pos ≤ c.pos := by
    refine hreaches.places (s.spreads_ahead pos) rfl (fun _ => Nat.le_refl _) rfl fun x hx => ?_
    obtain rfl : x = s.pattern.tree := by simpa [Cursor.active, hleaving, htree, habove] using hx
    rfl
  refine ⟨c.pos, hahead, hreaches.places s.spreads_inside rfl hpos rfl, ?_⟩
  rw [hcaptures, (hreaches.unpinned htreepins).record, hstart, Nat.min_eq_left hahead]

end Setting

/-! ## Searches -/

theorem Match.span_eq {hit : Match} {start stop : Nat}
    (h : hit.captures.get Slot.whole = ⟨some start, some stop⟩) : hit.span = ⟨start, stop⟩ := by
  have hwhole := hit.whole
  rw [h] at hwhole
  exact (Option.some.inj hwhole).symm

/-- A match of a pattern that pins no edge begins at or after the start of the search, and it ends at or
after its beginning and no later than the bound of the search. -/
theorem Matcher.span_of_exec {m m' : Matcher} (hnumbered : m.pattern.Numbered)
    (hpins : m.pattern.body.unpinned = true) {q : Query} {fuel : Nat} {hit : Match}
    (h : m.exec fuel q = some (some hit, m')) :
    q.start ≤ hit.span.start ∧ hit.span.start ≤ hit.span.stop ∧ hit.span.stop ≤ q.bound := by
  obtain ⟨pos, before, machine, hstart, hbound, hcaptures, hattempt⟩ := attempt_of_exec h
  obtain ⟨stop, hle, hstop, hwhole⟩ :=
    Setting.span_of_attempt (s := m.setting q) hnumbered hpins hbound hattempt
  rw [Match.span_eq (hcaptures ▸ hwhole)]
  exact ⟨hstart, hle, hstop⟩

end SpanRegex
