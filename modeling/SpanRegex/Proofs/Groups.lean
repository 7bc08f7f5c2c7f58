import SpanRegex.Proofs.Reference
import SpanRegex.Proofs.Stale

/-! # Where the groups were

A group's slot holds the offset at which the group was left and the offset at which the group was
entered last before that. The entry need not belong to the same traversal: a later repetition that
was given up overwrites the offset, and going back does not restore it.

* `Phase.Enters`: the walk is about to enter a group.
* `Setting.Since`: turns since a group was entered last.
* `Setting.Around`: the containers that the walk is in or can come back to.
* `exec_groups`: what the slot of a group holds after a search.
-/

namespace SpanRegex
set_option autoImplicit false

open Pattern (Chain Container Edge Slot)

/-- The walk is about to enter the group with this number. -/
def Phase.Enters (id pos : Nat) : Phase → Prop
  | .walk c => c.chain.groupId? = some id ∧ c.entering = true ∧ c.pos = pos
  | .settle _ => False

namespace Setting

/-- Turns have led here from the origin, and on the way the group was entered last at `start`. -/
inductive Since (s : Setting) (origin : Phase × Machine) (id start : Nat) : Phase → Machine → Prop
  | entered {phase phase' : Phase} {m m' : Machine}
      (reached : s.Reaches origin.1 origin.2 phase m) (enters : phase.Enters id start)
      (turn : s.turn m phase = .going phase' m') : s.Since origin id start phase' m'
  | later {phase phase' : Phase} {m m' : Machine} (since : s.Since origin id start phase m)
      (other : ∀ pos, ¬ phase.Enters id pos) (turn : s.turn m phase = .going phase' m') :
      s.Since origin id start phase' m'

/-- A group with the slot was left at the end of the span, on the way from the origin to here; the
span begins where the group was entered last before that, if this is not behind its end. -/
def Left (s : Setting) (origin : Phase × Machine) (slot : Slot) (span : Span) (phase : Phase)
    (m : Machine) : Prop :=
  ∃ (c : Cursor) (m₁ : Machine) (id start : Nat) (body next : Chain),
    s.Since origin id start (.walk c) m₁ ∧ c.chain = .box id (.group (some slot)) body next ∧
    c.entering = false ∧ span = ⟨min start c.pos, c.pos⟩ ∧ s.Reaches (.walk c) m₁ phase m

variable {s : Setting} {origin : Phase × Machine} {phase phase' : Phase} {m m' : Machine}

/-! ## The offset that a group keeps -/

theorem exists_group_of_enters {id pos : Nat} (h : phase.Enters id pos) :
    ∃ (c : Cursor) (capture : Option Slot) (body next : Chain), phase = .walk c ∧
      c.chain = .box id (.group capture) body next ∧ c.entering = true ∧ c.pos = pos := by
  cases phase with
  | settle success => exact h.elim
  | walk c =>
    obtain ⟨hid, hentering, hpos⟩ := h
    unfold Chain.groupId? at hid
    split at hid
    · rename_i hchain
      obtain rfl := Option.some.inj hid
      exact ⟨c, _, _, _, rfl, hchain, hentering, hpos⟩
    · simp at hid

theorem starts_of_enters {id pos : Nat} (h : s.turn m phase = .going phase' m')
    (henters : phase.Enters id pos) : m'.starts.get id = pos := by
  obtain ⟨c, capture, body, next, rfl, hchain, hentering, rfl⟩ := exists_group_of_enters henters
  rw [turn_walk (by simp [hchain])] at h
  split at h
  · simp at h
  · obtain ⟨-, rfl⟩ := Turn.going.inj h
    simp [visit, hchain, visitGroup, hentering]

theorem Move.starts {id : Nat} (h : s.Move phase m phase' m') (hother : ∀ pos, ¬ phase.Enters id pos) :
    m'.starts.get id = m.starts.get id := by
  cases h.recorded with
  | same records => rw [records.starts]
  | @pin _ _ _ edge => cases edge <;> rfl
  | @enter c _ id' _ _ _ here entering =>
    refine (Store.get_set _ _ _ _).trans (if_neg ?_)
    rintro rfl
    exact hother c.pos ⟨by rw [here]; rfl, entering, rfl⟩
  | record => rfl

/-- A group keeps the offset at which it was entered last. -/
theorem Since.starts {id start : Nat} (h : s.Since origin id start phase m) :
    m.starts.get id = start := by
  induction h with
  | entered _ enters turn => exact starts_of_enters turn enters
  | later _ other turn ih => exact ((move_of_turn turn).starts other).trans ih

theorem Since.next {id start : Nat} (h : s.Since origin id start phase m)
    (reached : s.Reaches origin.1 origin.2 phase m) (turn : s.turn m phase = .going phase' m') :
    ∃ start', s.Since origin id start' phase' m' := by
  by_cases henters : ∃ pos, phase.Enters id pos
  · obtain ⟨pos, hpos⟩ := henters
    exact ⟨pos, .entered reached hpos turn⟩
  · exact ⟨start, .later h (fun pos hpos => henters ⟨pos, hpos⟩) turn⟩

/-! ## The groups that the walk is in -/

/-- The walk is among the children of the node, or an open choice is. -/
def Around (x : Chain) (phase : Phase) (m : Machine) : Prop :=
  x ∈ phase.nodes ∨ ∃ f ∈ m.frames, x ∈ f.cursor.above

section

variable {c : Cursor} {x : Chain} {id : Nat}

theorem above_of_leave {next : Chain} {pos : Nat} (hid : x.groupId? = some id)
    (h : x ∈ (c.leave next pos).active) : x ∈ c.above := by
  rcases Cursor.mem_active_leave h with h | rfl
  · exact h
  · simp [Chain.groupId?] at hid

theorem above_of_proceed (hid : x.groupId? = some id) (h : x ∈ c.proceed.active) : x ∈ c.above := by
  cases hchain : c.chain with
  | nil =>
    simp only [Cursor.proceed, hchain, Cursor.active] at h
    split at h
    · exact h
    · rcases List.mem_cons.1 h with rfl | h
      · simp [Chain.groupId?] at hid
      · exact h
  | leaf _ _ next =>
    simp only [Cursor.proceed, hchain] at h
    exact above_of_leave hid h
  | box _ _ _ next =>
    simp only [Cursor.proceed, hchain] at h
    exact above_of_leave hid h

theorem above_of_descend {body : Chain} {pos : Nat} (hchain : c.chain.groupId? = none)
    (hid : x.groupId? = some id) (h : x ∈ (c.descend body pos).active) : x ∈ c.above := by
  rcases List.mem_cons.1 h with rfl | h
  · simp [hchain] at hid
  · exact h

theorem mem_of_opens (hopens : m.Opens c m') (h : ∃ f ∈ m'.frames, x ∈ f.cursor.above) :
    x ∈ c.above ∨ ∃ f ∈ m.frames, x ∈ f.cursor.above := by
  obtain ⟨f, hf, hx⟩ := h
  rcases hopens with hframes | ⟨choice, n, -, hframes⟩
  · exact .inr ⟨f, hframes ▸ hf, hx⟩
  · rw [hframes] at hf
    rcases List.mem_cons.1 hf with rfl | hf
    · exact .inl hx
    · exact .inr ⟨f, hf, hx⟩

/-- The walk gets into a group only by entering it. -/
theorem Move.around (h : s.Move phase m phase' m') (hid : x.groupId? = some id)
    (hx : Around x phase' m') : Around x phase m ∨ ∃ pos, phase.Enters id pos := by
  -- What is above the cursor of the walk is around it.
  have hwalk : ∀ {c : Cursor} {m : Machine}, (x ∈ c.above ∨ ∃ f ∈ m.frames, x ∈ f.cursor.above) →
      Around x (.walk c) m := fun h => h.imp_left Cursor.mem_active_of_above
  have hsettle : ∀ {success : Bool} {m : Machine}, Around x (.settle success) m →
      ∃ f ∈ m.frames, x ∈ f.cursor.above := fun h => h.resolve_left (by simp [Phase.nodes])
  cases h with
  | off => exact .inl (.inr (hsettle hx))
  | read _ _ frames => exact .inl (hwalk (hx.imp (above_of_leave hid) (frames ▸ ·)))
  | @pin _ _ _ edge => cases edge <;> exact .inl (hwalk (hx.imp_left (above_of_leave hid)))
  | lose frames => exact .inl (.inr (frames ▸ hsettle hx))
  | @enter c _ id' capture body next here entering =>
    rcases hx with hx | hx
    · rcases List.mem_cons.1 hx with rfl | hx
      · exact .inr ⟨c.pos, hid, entering, rfl⟩
      · exact .inl (hwalk (.inl hx))
    · exact .inl (.inr hx)
  | leave => exact .inl (hwalk (hx.imp_left (above_of_leave hid)))
  | record => exact .inl (hwalk (hx.imp_left (above_of_leave hid)))
  | look here =>
    rcases hx with hx | ⟨f, hf, hx⟩
    · exact .inl (hwalk (.inl (above_of_descend (by rw [here]; rfl) hid hx)))
    · rcases List.mem_cons.1 hf with rfl | hf
      · exact .inl (hwalk (.inl hx))
      · exact .inl (.inr ⟨f, hf, hx⟩)
  | found => exact .inl (.inr (hsettle hx))
  | inward here kind opens =>
    rcases hx with hx | hx
    · refine .inl (hwalk (.inl (above_of_descend ?_ hid hx)))
      rcases kind with rfl | ⟨q, rfl⟩ <;> rw [here] <;> rfl
    · exact .inl (hwalk (mem_of_opens opens hx))
  | onward _ _ _ opens =>
    rcases hx with hx | hx
    · exact .inl (hwalk (.inl (above_of_leave hid hx)))
    · exact .inl (hwalk (mem_of_opens opens hx))
  | drop frames =>
    obtain ⟨f, hf, hx⟩ := hsettle hx
    exact .inl (.inr ⟨f, frames ▸ List.mem_cons_of_mem _ hf, hx⟩)
  | @back f frames _ _ _ m₀ frames_eq popped opens =>
    refine .inl (.inr ?_)
    rw [frames_eq, ← popped]
    have hback : x ∈ f.cursor.above ∨ ∃ g ∈ m₀.frames, x ∈ g.cursor.above := by
      rcases hx with hx | hx
      · exact .inl (above_of_proceed hid hx)
      · exact mem_of_opens opens hx
    rcases hback with hx | ⟨g, hg, hx⟩
    · exact ⟨f, List.mem_cons_self, hx⟩
    · exact ⟨g, List.mem_cons_of_mem _ hg, hx⟩
  | @again f frames _ _ _ m₀ _ q body next frames_eq popped here opens =>
    refine .inl (.inr ?_)
    rw [frames_eq, ← popped]
    have hagain : x ∈ f.cursor.above ∨ ∃ g ∈ m₀.frames, x ∈ g.cursor.above := by
      rcases hx with hx | hx
      · exact .inl (above_of_descend (by rw [here]; rfl) hid hx)
      · exact mem_of_opens opens hx
    rcases hagain with hx | ⟨g, hg, hx⟩
    · exact ⟨f, List.mem_cons_self, hx⟩
    · exact ⟨g, List.mem_cons_of_mem _ hg, hx⟩

end

/-! ## What the slots hold -/

theorem Left.next {slot : Slot} {span : Span} (h : s.Left origin slot span phase m)
    (turn : s.turn m phase = .going phase' m') : s.Left origin slot span phase' m' := by
  obtain ⟨c, m₁, id, start, body, next, hsince, hchain, hleaving, hspan, hreaches⟩ := h
  exact ⟨c, m₁, id, start, body, next, hsince, hchain, hleaving, hspan, hreaches.snoc turn⟩

/-- What holds of the turns since the origin: each group around the walk has been entered, and each
slot that is set has been left. -/
structure History (s : Setting) (origin : Phase × Machine) (phase : Phase) (m : Machine) : Prop where
  reached : s.Reaches origin.1 origin.2 phase m
  entered : ∀ x id, x.groupId? = some id → Around x phase m → ∃ start, s.Since origin id start phase m
  left : ∀ slot, slot ≠ Slot.whole → ∀ span, (m.captures.get slot).span? = some span →
    s.Left origin slot span phase m

theorem span_ordered {start stop : Nat} {span : Span}
    (h : (Bounds.ordered ⟨some start, some stop⟩).span? = some span) : span = ⟨min start stop, stop⟩ := by
  rw [Bounds.ordered_eq] at h
  exact (Option.some.inj h).symm

/-- A turn that records a slot other than that of the whole match leaves a group with that slot. -/
theorem Move.captures (h : s.Move phase m phase' m') {slot : Slot} (hslot : slot ≠ Slot.whole)
    {span : Span} (hspan : (m'.captures.get slot).span? = some span) :
    (m.captures.get slot).span? = some span ∨
    ∃ c id body next, phase = .walk c ∧ c.chain = .box id (.group (some slot)) body next ∧
      c.entering = false ∧ span = ⟨min (m.starts.get id) c.pos, c.pos⟩ := by
  cases h.recorded with
  | same records =>
    rw [records.captures] at hspan
    exact .inl hspan
  | @pin _ _ _ edge =>
    left
    cases edge <;>
    · simp only [Machine.pin, Captures.pin, Captures.get_set, if_neg (Ne.symm hslot)] at hspan
      exact hspan
  | enter => exact .inl hspan
  | @record c _ id slot' body next here leaving =>
    simp only [Machine.record, Captures.record, Captures.get_set] at hspan
    split at hspan
    · rename_i heq
      subst heq
      simp only [Bool.false_and, beq_eq_false_iff_ne.2 hslot, Bool.false_eq_true, if_false] at hspan
      exact .inr ⟨c, id, body, next, rfl, here, leaving, span_ordered hspan⟩
    · exact .inl hspan

theorem History.next (h : s.History origin phase m) (turn : s.turn m phase = .going phase' m') :
    s.History origin phase' m' where
  reached := h.reached.snoc turn
  entered x id hid hx := by
    rcases (move_of_turn turn).around hid hx with hbefore | ⟨pos, henters⟩
    · obtain ⟨start, hsince⟩ := h.entered x id hid hbefore
      exact hsince.next h.reached turn
    · exact ⟨pos, .entered h.reached henters turn⟩
  left slot hslot span hspan := by
    rcases (move_of_turn turn).captures hslot hspan with hbefore | ⟨c, id, body, next, rfl, here, leaving, rfl⟩
    · exact (h.left slot hslot span hbefore).next turn
    · -- The walk is in the group that it leaves, and so has entered it.
      have haround : Around c.chain (.walk c) m := .inl (by simp [Phase.nodes, Cursor.active, leaving])
      obtain ⟨start, hsince⟩ := h.entered c.chain id (by rw [here]; rfl) haround
      rw [hsince.starts]
      exact ⟨c, m, id, start, body, next, hsince, here, leaving, rfl, .turn turn (.refl _ _)⟩

theorem History.reaches (h : s.Reaches phase m phase' m') :
    s.History origin phase m → s.History origin phase' m' :=
  h.induct (s.History origin) fun _ turn hhistory => hhistory.next turn

theorem history_start (tree : Chain) (pos : Nat) (m : Machine) :
    s.History (.walk (.start tree pos), m.ready) (.walk (.start tree pos)) m.ready where
  reached := .refl _ _
  entered x id _ hx := by simp [Around, Phase.nodes, Cursor.active, Cursor.start, Machine.ready] at hx
  left slot _ span hspan := by
    have hempty : ((({} : Captures).get slot).span?) = none := by
      cases slot <;> simp [Captures.get, Bounds.span?, Vector.get]
    simp [Machine.ready, hempty] at hspan

theorem attempt_of_search {prefilter : Pattern.Prefilter} {fuel : Nat} (count : Nat) :
    ∀ {pos : Nat} {m m' : Machine}, s.search prefilter fuel count pos m = some (.matched, m') →
      ∃ pos' before, pos ≤ pos' ∧ pos' < pos + count ∧
        s.attempt fuel pos' before = some (.matched, m') := by
  induction count with
  | zero => intro pos m m' h; simp [search] at h
  | succ count ih =>
    intro pos m m' h
    have hrest : ∀ {m₁}, s.search prefilter fuel count (pos + 1) m₁ = some (.matched, m') →
        ∃ pos' before, pos ≤ pos' ∧ pos' < pos + (count + 1) ∧
          s.attempt fuel pos' before = some (.matched, m') := by
      intro m₁ h
      obtain ⟨pos', before, hle, hlt, hattempt⟩ := ih h
      exact ⟨pos', before, by omega, by omega, hattempt⟩
    rw [search] at h
    split at h
    · cases hattempt : s.attempt fuel pos m with
      | none => simp [hattempt] at h
      | some r =>
        obtain ⟨v, m₁⟩ := r
        rw [hattempt] at h
        cases v with
        | failed => exact hrest h
        | matched =>
          obtain ⟨-, rfl⟩ := Prod.mk.inj (Option.some.inj h)
          exact ⟨pos, m, Nat.le_refl _, by omega, hattempt⟩
        | exhausted => simp at h
    · exact hrest h

end Setting

/-! ## What a search reports -/

theorem Match.captures_ofCaptures {c : Captures} {hit : Match} (h : Match.ofCaptures? c = some hit) :
    hit.captures = c := by
  unfold Match.ofCaptures? at h
  split at h
  · rw [← Option.some.inj h]
  · simp at h

/-- A match was found by an attempt between the start and the end, and has the captures of that. -/
theorem Matcher.attempt_of_exec {m m' : Matcher} {q : Query} {hit : Match} {fuel : Nat}
    (h : m.exec fuel q = some (some hit, m')) :
    ∃ pos before machine, q.start ≤ pos ∧ pos ≤ q.bound ∧ hit.captures = machine.captures ∧
      (m.setting q).attempt fuel pos before = some (.matched, machine) := by
  have hoffsets : q.start ≤ q.bound → q.start + q.offsets ≤ q.bound + 1 := by
    intro hle
    unfold Query.offsets
    split <;> omega
  unfold exec at h
  split at h
  · rename_i o hsearch
    obtain ⟨hfound, -⟩ := Prod.mk.inj (Option.some.inj h)
    unfold Matcher.search at hsearch
    split at hsearch
    · rw [← Option.some.inj hsearch] at hfound
      simp at hfound
    · rename_i hbehind
      have hlast := hoffsets (Nat.le_of_not_lt hbehind)
      split at hsearch
      · simp at hsearch
      · rename_i machine hmatched
        rw [← Option.some.inj hsearch] at hfound
        obtain ⟨pos, before, hle, hlt, hattempt⟩ := Setting.attempt_of_search _ hmatched
        exact ⟨pos, before, machine, hle, by omega, Match.captures_ofCaptures hfound, hattempt⟩
      · rw [← Option.some.inj hsearch] at hfound
        simp at hfound
  · simp at h

/-- Every slot that a match reports, apart from that of the whole match, was set by a group with that
slot which the attempt that found the match had left at the end of the span. The span begins where
the attempt had entered this group last before that, or at its end if that is before. -/
theorem exec_groups {m m' : Matcher} {q : Query} {hit : Match} (h : m.Answers q (some hit) m')
    {slot : Slot} (hslot : slot ≠ Slot.whole) {span : Span}
    (hspan : (hit.captures.get slot).span? = some span) :
    ∃ (pos : Nat) (before : Machine) (phase : Phase) (machine : Machine), q.start ≤ pos ∧
      pos ≤ q.bound ∧ hit.captures = machine.captures ∧
      (m.setting q).turn machine phase = .over .matched machine ∧
      (m.setting q).Left (.walk (.start m.pattern.tree pos), before.ready) slot span phase machine := by
  obtain ⟨fuel, hfuel⟩ := h
  obtain ⟨pos, before, machine, hstart, hbound, hcaptures, hattempt⟩ :=
    Matcher.attempt_of_exec (hfuel fuel (Nat.le_refl _))
  obtain ⟨phase, machine', hreaches, hover⟩ := Setting.reaches_of_run fuel hattempt
  obtain rfl : machine' = machine := by
    rcases Setting.over_of_turn hover with ⟨-, -, -, h⟩ | ⟨hv, -⟩ | ⟨hv, -⟩
    · exact h.symm
    · simp at hv
    · simp at hv
  have hhistory := Setting.History.reaches hreaches (Setting.history_start _ pos before)
  exact ⟨pos, before, phase, machine', hstart, hbound, hcaptures, hover,
    hhistory.left slot hslot span (hcaptures ▸ hspan)⟩

/-! ## A span that no traversal had -/

def firstGroup : Slot := .numbered ⟨1, by decide⟩

def forkedGroup.body : Chain :=
  .box 3 .alternative (.leaf 0 (.unit (.literal 97)) .nil)
    (.leaf 1 (.unit (.literal 97)) (.leaf 2 (.unit (.literal 98)) .nil))

/-- The pattern `(?:(a|ab))\x7b1,2\x7dc`. -/
def forkedGroup : Pattern where
  options := {}
  names := .empty
  body :=
    .box 7 (.loop ⟨1, some 2, false⟩)
      (.box 5 (.group none) (.box 4 (.group (some firstGroup)) forkedGroup.body .nil) .nil)
      (.leaf 6 (.unit (.literal 99)) .nil)
  rootId := 8

def forkedGroup.query : Query := { text := #[97, 98, 99], mode := .anchored }

theorem forkedGroup.answers : ∃ hit m',
    ({ pattern := forkedGroup } : Matcher).Answers query (some hit) m' ∧
      hit.span = ⟨0, 3⟩ ∧ (hit.captures.get firstGroup).span? = some ⟨1, 2⟩ := by
  have hhit : ((({ pattern := forkedGroup } : Matcher).exec 100 query).bind (·.1)).map
      (fun hit => (hit.span, (hit.captures.get firstGroup).span?)) = some (⟨0, 3⟩, some ⟨1, 2⟩) := by
    decide +kernel
  obtain ⟨hit, hbind, hspans⟩ := Option.map_eq_some_iff.1 hhit
  obtain ⟨⟨found, m'⟩, hexec, hfound⟩ := Option.bind_eq_some_iff.1 hbind
  subst hfound
  exact ⟨hit, m', Matcher.answers_of_exec hexec, (Prod.mk.inj hspans).1, (Prod.mk.inj hspans).2⟩

/-- The span of the first group in `abc` begins where a repetition began that was given up. -/
theorem exec_givenUp : ∃ hit m',
    ({ pattern := forkedGroup } : Matcher).Answers forkedGroup.query (some hit) m' ∧
    ∃ pos before phase machine, hit.captures = machine.captures ∧
      (({ pattern := forkedGroup } : Matcher).setting forkedGroup.query).Left
        (.walk (.start forkedGroup.tree pos), Machine.ready before) firstGroup ⟨1, 2⟩ phase machine := by
  obtain ⟨hit, m', hanswers, -, hspan⟩ := forkedGroup.answers
  obtain ⟨pos, before, phase, machine, -, -, hcaptures, -, hleft⟩ :=
    exec_groups hanswers (by decide) hspan
  exact ⟨hit, m', hanswers, pos, before, phase, machine, hcaptures, hleft⟩

/-- The first group is reported to hold the second unit of `abc`, which its children do not match. -/
theorem exec_forkedGroup :
    Pattern.compile {} "(?:(a|ab))\x7b1,2\x7dc".toList = .ok forkedGroup ∧
    (∃ hit m', ({ pattern := forkedGroup } : Matcher).Answers forkedGroup.query (some hit) m' ∧
      hit.span = ⟨0, 3⟩ ∧ (hit.captures.get firstGroup).span? = some ⟨1, 2⟩) ∧
    (({ pattern := forkedGroup } : Matcher).setting forkedGroup.query).ends forkedGroup.body 1 = [] :=
  ⟨by decide +kernel, forkedGroup.answers, by decide +kernel⟩

end SpanRegex
