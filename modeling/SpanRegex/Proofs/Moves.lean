import SpanRegex.Proofs.Nodes

/-! # Moves of the machine

What one turn can do to the place, the open choices and the records, said once. What becomes of the
counts and guards of loops is left open here.

* `Cursor.active`: the containers that the walk is in.
* `Machine.SameRecords`: nothing that ends up in the captures has changed.
* `Machine.Opens`: the open choices are the same, or there is one more at the cursor.
* `Setting.Move`: a turn that goes on; `Setting.move_of_turn`.
* `Phase.Records`: what a turn that goes on writes into the records; `Setting.Move.recorded`.
* `Setting.over_of_turn`: a turn that decides the attempt.
* `Setting.Reaches.invariant`: from moves to turns in a row.
-/

namespace SpanRegex
set_option autoImplicit false

open Pattern (Chain Container Edge Leaf Look Quantifier Slot)

/-! ## Where the walk is -/

/-- The containers whose children the cursor is in, or has just left. -/
def Cursor.active (c : Cursor) : List Chain := if c.entering then c.above else c.chain :: c.above

theorem Cursor.mem_active_of_above {c : Cursor} {x : Chain} (h : x ∈ c.above) : x ∈ c.active := by
  unfold active
  split
  · exact h
  · exact List.mem_cons_of_mem _ h

theorem Cursor.mem_active_leave {c : Cursor} {next x : Chain} {pos : Nat}
    (h : x ∈ (c.leave next pos).active) : x ∈ c.above ∨ x = .nil := by
  unfold leave at h
  split at h
  · exact .inr (by simpa [active] using h)
  · rename_i habove
    exact .inl (by simpa [active, habove] using h)
  · exact .inl h

theorem Cursor.leave_pos (c : Cursor) (next : Chain) (pos : Nat) : (c.leave next pos).pos = pos := by
  unfold leave
  split <;> rfl

theorem Cursor.proceed_pos (c : Cursor) : c.proceed.pos = c.pos := by
  unfold proceed
  split
  · rfl
  · exact c.leave_pos _ _
  · exact c.leave_pos _ _

/-! ## What a turn leaves alone -/

/-- The captures, what is pinned and where the groups were entered are the same. -/
structure Machine.SameRecords (a b : Machine) : Prop where
  captures : b.captures = a.captures
  starts : b.starts = a.starts
  startPinned : b.startPinned = a.startPinned
  stopPinned : b.stopPinned = a.stopPinned

theorem Machine.SameRecords.refl (m : Machine) : m.SameRecords m := ⟨rfl, rfl, rfl, rfl⟩

theorem Machine.SameRecords.trans {a b c : Machine} (h : a.SameRecords b) (h' : b.SameRecords c) :
    a.SameRecords c :=
  ⟨h'.captures.trans h.captures, h'.starts.trans h.starts, h'.startPinned.trans h.startPinned,
    h'.stopPinned.trans h.stopPinned⟩

section
variable {a b : Machine}

theorem Machine.SameRecords.visited (m : Machine) : m.SameRecords m.visited := ⟨rfl, rfl, rfl, rfl⟩

theorem Machine.SameRecords.push (h : a.SameRecords b) (c : Cursor) (choice : Choice) :
    a.SameRecords (b.push c choice) :=
  ⟨h.captures, h.starts, h.startPinned, h.stopPinned⟩

theorem Machine.SameRecords.setCount (h : a.SameRecords b) (id : Nat) (count : Count) :
    a.SameRecords (b.setCount id count) :=
  ⟨h.captures, h.starts, h.startPinned, h.stopPinned⟩

theorem Machine.SameRecords.setGuard (h : a.SameRecords b) (id : Nat) (value : Option Nat) :
    a.SameRecords (b.setGuard id value) :=
  h.trans ⟨by simp, by simp, by simp, by simp⟩

end

/-- The open choices are the same, or one has been opened at the cursor that is none of a look. -/
def Machine.Opens (a : Machine) (c : Cursor) (b : Machine) : Prop :=
  b.frames = a.frames ∨ ∃ choice n, choice.passing ∧ b.frames = ⟨c, choice, n⟩ :: a.frames

/-! ## Moves -/

/-- The turns that go on, by what they do to the place, the open choices and the records. -/
inductive Setting.Move (s : Setting) : Phase → Machine → Phase → Machine → Prop
  /-- The root has been left. -/
  | off {c : Cursor} {m : Machine} (here : c.chain = .nil) : s.Move (.walk c) m (.settle true) m
  /-- A leaf is left. -/
  | read {c : Cursor} {m m' : Machine} {id e : Nat} {op : Leaf} {next : Chain}
      (here : c.chain = .leaf id op next) (read : s.read? m.captures c.pos op = some e)
      (frames : m'.frames = m.frames) (records : m.SameRecords m') :
      s.Move (.walk c) m (.walk (c.leave next e)) m'
  /-- An edge of the match is pinned. -/
  | pin {c : Cursor} {m : Machine} {id : Nat} {edge : Edge} {next : Chain}
      (here : c.chain = .leaf id (.pin edge) next) :
      s.Move (.walk c) m (.walk (c.leave next c.pos)) (m.visited.pin edge c.pos)
  /-- A leaf does not match, or a look behind would start before the text. -/
  | lose {c : Cursor} {m m' : Machine} (frames : m'.frames = m.frames)
      (records : m.SameRecords m') : s.Move (.walk c) m (.settle false) m'
  /-- A group is entered. -/
  | enter {c : Cursor} {m : Machine} {id : Nat} {capture : Option Slot} {body next : Chain}
      (here : c.chain = .box id (.group capture) body next) (entering : c.entering = true) :
      s.Move (.walk c) m (.walk (c.descend body c.pos))
        { m.visited with starts := m.starts.set id c.pos }
  /-- A group without a slot is left. -/
  | leave {c : Cursor} {m : Machine} {id : Nat} {body next : Chain}
      (here : c.chain = .box id (.group none) body next) (leaving : c.entering = false) :
      s.Move (.walk c) m (.walk (c.leave next c.pos)) m.visited
  /-- A group with a slot is left. -/
  | record {c : Cursor} {m : Machine} {id : Nat} {slot : Slot} {body next : Chain}
      (here : c.chain = .box id (.group (some slot)) body next) (leaving : c.entering = false) :
      s.Move (.walk c) m (.walk (c.leave next c.pos)) (m.visited.record slot c.pos id)
  /-- The children of a look are entered, over its choice. -/
  | look {c : Cursor} {m : Machine} {id : Nat} {look : Look} {body next : Chain} {choice : Choice}
      (here : c.chain = .box id (.look look) body next) (entering : c.entering = true)
      (choice_look : ¬ choice.passing) :
      s.Move (.walk c) m (.walk (c.descend body (c.pos - look.behind.getD 0)))
        (m.visited.push c choice)
  /-- The children of a look have been left. -/
  | found {c : Cursor} {m : Machine} {id : Nat} {look : Look} {body next : Chain}
      (here : c.chain = .box id (.look look) body next) (leaving : c.entering = false) :
      s.Move (.walk c) m (.settle true) m.visited
  /-- The children of an alternative or a loop are entered. -/
  | inward {c : Cursor} {m m' : Machine} {id : Nat} {op : Container} {body next : Chain}
      (here : c.chain = .box id op body next) (kind : op = .alternative ∨ ∃ q, op = .loop q)
      (opens : m.Opens c m') (records : m.SameRecords m') :
      s.Move (.walk c) m (.walk (c.descend body c.pos)) m'
  /-- A look, an alternative or a loop is left, an alternative with all that follow it. -/
  | onward {c : Cursor} {m m' : Machine} {id : Nat} {op : Container} {body next onto : Chain}
      (here : c.chain = .box id op body next) (kind : ∀ capture, op ≠ .group capture)
      (onto_eq : onto = next ∨ onto = .nil) (opens : m.Opens c m') (records : m.SameRecords m')
      (look_entering : ∀ look, op = .look look → c.entering = true) :
      s.Move (.walk c) m (.walk (c.leave onto c.pos)) m'
  /-- A choice is given up. -/
  | drop {f : Frame} {success success' : Bool} {m m' : Machine} (frames : m.frames = f :: m'.frames)
      (passing : success' = true → success = true ∧ f.choice.passing) (records : m.SameRecords m') :
      s.Move (.settle success) m (.settle success') m'
  /-- The walk goes on after the node of a choice. -/
  | back {f : Frame} {frames : List Frame} {success : Bool} {m m' m₀ : Machine}
      (frames_eq : m.frames = f :: frames) (popped : m₀.frames = frames)
      (opens : m₀.Opens f.cursor m') (records : m.SameRecords m') :
      s.Move (.settle success) m (.walk f.cursor.proceed) m'
  /-- The children of the loop of a choice are entered. -/
  | again {f : Frame} {frames : List Frame} {success : Bool} {m m' m₀ : Machine} {id : Nat}
      {q : Quantifier} {body next : Chain} (frames_eq : m.frames = f :: frames)
      (popped : m₀.frames = frames) (here : f.cursor.chain = .box id (.loop q) body next)
      (opens : m₀.Opens f.cursor m') (records : m.SameRecords m') :
      s.Move (.settle success) m (.walk (f.cursor.descend body f.cursor.pos)) m'

/-- The turns that go on, by what they write into the records alone. -/
inductive Phase.Records : Phase → Machine → Machine → Prop
  | same {phase : Phase} {m m' : Machine} (records : m.SameRecords m') : phase.Records m m'
  | pin {c : Cursor} {m : Machine} {id : Nat} {edge : Edge} {next : Chain}
      (here : c.chain = .leaf id (.pin edge) next) :
      Phase.Records (.walk c) m (m.visited.pin edge c.pos)
  | enter {c : Cursor} {m : Machine} {id : Nat} {capture : Option Slot} {body next : Chain}
      (here : c.chain = .box id (.group capture) body next) (entering : c.entering = true) :
      Phase.Records (.walk c) m { m.visited with starts := m.starts.set id c.pos }
  | record {c : Cursor} {m : Machine} {id : Nat} {slot : Slot} {body next : Chain}
      (here : c.chain = .box id (.group (some slot)) body next) (leaving : c.entering = false) :
      Phase.Records (.walk c) m (m.visited.record slot c.pos id)

namespace Setting

variable {s : Setting} {m m' : Machine} {c : Cursor} {phase phase' : Phase}

theorem Move.recorded (h : s.Move phase m phase' m') : phase.Records m m' := by
  cases h with
  | off => exact .same (.refl _)
  | read _ _ _ records => exact .same records
  | pin here => exact .pin here
  | lose _ records => exact .same records
  | enter here entering => exact .enter here entering
  | leave => exact .same (.visited _)
  | record here leaving => exact .record here leaving
  | look => exact .same ((Machine.SameRecords.visited _).push _ _)
  | found => exact .same (.visited _)
  | inward _ _ _ records => exact .same records
  | onward _ _ _ _ records => exact .same records
  | drop _ _ records => exact .same records
  | back _ _ _ records => exact .same records
  | again _ _ _ _ records => exact .same records

/-! ### Visits -/

theorem move_leaf {id : Nat} {op : Leaf} {next : Chain} (here : c.chain = .leaf id op next) :
    s.Move (.walk c) m (s.visitLeaf m.visited c op next).1 (s.visitLeaf m.visited c op next).2 := by
  unfold visitLeaf
  have hcaptures : m.visited.captures = m.captures := rfl
  rw [hcaptures]
  cases hread : s.read? m.captures c.pos op with
  | none => exact .lose rfl (.visited m)
  | some e =>
    cases op with
    | pin edge =>
      obtain rfl : c.pos = e := Option.some.inj hread
      exact .pin here
    | empty => exact .read here hread rfl (.visited m)
    | unit test => exact .read here hread rfl (.visited m)
    | assertion condition => exact .read here hread rfl (.visited m)
    | reference slot => exact .read here hread rfl (.visited m)
    | cross target ignoreCase => exact .read here hread rfl (.visited m)

theorem move_group {id : Nat} {capture : Option Slot} {body next : Chain}
    (here : c.chain = .box id (.group capture) body next) :
    s.Move (.walk c) m (visitGroup m.visited c id capture body next).1
      (visitGroup m.visited c id capture body next).2 := by
  unfold visitGroup
  cases hentering : c.entering with
  | true => exact .enter here hentering
  | false =>
    cases capture with
    | none => exact .leave here hentering
    | some slot => exact .record here hentering

theorem move_look {id : Nat} {look : Look} {body next : Chain}
    (here : c.chain = .box id (.look look) body next) :
    s.Move (.walk c) m (visitLook m.visited c look body next).1
      (visitLook m.visited c look body next).2 := by
  unfold visitLook
  cases hentering : c.entering with
  | false => exact .found here hentering
  | true =>
    simp only [if_true]
    split
    · split
      · exact .onward here (by simp) (.inl rfl) (.inl rfl) (.visited m) fun _ _ => hentering
      · exact .lose rfl (.visited m)
    · refine .look here hentering fun hpassing => ?_
      cases hnegated : look.negated with
      | true => exact hpassing.2 (by simp [hnegated])
      | false => exact hpassing.1 (by simp [hnegated])

theorem move_alternative {id : Nat} {body next : Chain}
    (here : c.chain = .box id .alternative body next) :
    s.Move (.walk c) m (visitAlternative m.visited c body).1 (visitAlternative m.visited c body).2 := by
  unfold visitAlternative
  cases c.entering with
  | true =>
    exact .inward here (.inl rfl) (.inr ⟨.skip, _, ⟨by decide, by decide⟩, rfl⟩)
      ((Machine.SameRecords.visited m).push c .skip)
  | false => exact .onward here (by simp) (.inr rfl) (.inl rfl) (.visited m) (by simp)

theorem decideLoop_opens {m₀ : Machine} (hframes : m.frames = m₀.frames)
    (hrecords : m₀.SameRecords m) (id : Nat) (q : Quantifier) (body next : Chain) :
    ((decideLoop m c id q body next).1 = .walk (c.leave next c.pos) ∨
      (decideLoop m c id q body next).1 = .walk (c.descend body c.pos)) ∧
    m₀.Opens c (decideLoop m c id q body next).2 ∧
    m₀.SameRecords (decideLoop m c id q body next).2 := by
  have hset : ∀ value, (m.setGuard id value).frames = m₀.frames := fun value => by simp [hframes]
  unfold decideLoop
  cases q.max with
  | none =>
    simp only
    split
    · exact ⟨.inl rfl, .inl hframes, hrecords⟩
    · split
      · exact ⟨.inl rfl, .inr ⟨.again, _, ⟨by decide, by decide⟩,
          congrArg (_ :: ·) (hset _)⟩, (hrecords.setGuard id _).push c _⟩
      · exact ⟨.inr rfl, .inr ⟨.skip, _, ⟨by decide, by decide⟩, congrArg (_ :: ·) (hset _)⟩,
          (hrecords.setGuard id _).push c _⟩
  | some bound =>
    simp only
    split
    · exact ⟨.inl rfl, .inl hframes, hrecords⟩
    · split
      · exact ⟨.inl rfl, .inr ⟨.oneMore, _, ⟨by decide, by decide⟩, congrArg (_ :: ·) hframes⟩,
          hrecords.push c _⟩
      · exact ⟨.inr rfl, .inr ⟨.settleForLess, _, ⟨by decide, by decide⟩,
          congrArg (_ :: ·) hframes⟩, (hrecords.setCount id _).push c _⟩

theorem enterLoop_same (m : Machine) (id : Nat) (q : Quantifier) :
    (enterLoop m id q).frames = m.frames ∧ m.SameRecords (enterLoop m id q) :=
  ⟨by simp [enterLoop, Machine.setCount],
    ((Machine.SameRecords.refl m).setCount id _).setGuard id none⟩

theorem move_loop {id : Nat} {q : Quantifier} {body next : Chain}
    (here : c.chain = .box id (.loop q) body next) :
    s.Move (.walk c) m (visitLoop m.visited c id q body next).1
      (visitLoop m.visited c id q body next).2 := by
  unfold visitLoop
  obtain ⟨m₁, hm₁, hframes, hrecords⟩ : ∃ m₁,
      (if c.entering then enterLoop m.visited id q else m.visited) = m₁ ∧ m₁.frames = m.frames ∧
        m.SameRecords m₁ := by
    refine ⟨_, rfl, ?_⟩
    split
    · obtain ⟨hframes, hrecords⟩ := enterLoop_same m.visited id q
      exact ⟨hframes, (Machine.SameRecords.visited m).trans hrecords⟩
    · exact ⟨rfl, .visited m⟩
  rw [hm₁]
  simp only
  split
  · obtain ⟨hphase, hopens, hrecords'⟩ := decideLoop_opens (c := c) hframes hrecords id q body next
    rcases hphase with hphase | hphase
    · rw [hphase]
      exact .onward here (by simp) (.inl rfl) hopens hrecords' (by simp)
    · rw [hphase]
      exact .inward here (.inr ⟨q, rfl⟩) hopens hrecords'
  · exact .inward here (.inr ⟨q, rfl⟩) (.inl hframes) (hrecords.setCount id _)

theorem move_visit (hc : c.chain ≠ .nil) :
    s.Move (.walk c) m (s.visit m.visited c).1 (s.visit m.visited c).2 := by
  unfold visit
  split
  · rename_i hnil
    exact absurd hnil hc
  · rename_i here
    exact move_leaf here
  · rename_i here
    split
    · exact move_group here
    · exact move_look here
    · exact move_alternative here
    · exact move_loop here

/-! ### Choices -/

theorem loop?_eq_some {id : Nat} {body : Chain} (h : c.loop? = some (id, body)) :
    ∃ q next, c.chain = .box id (.loop q) body next := by
  unfold Cursor.loop? at h
  split at h
  · rename_i id' q body' next hchain
    obtain ⟨rfl, rfl⟩ := Prod.mk.inj (Option.some.inj h)
    exact ⟨q, next, hchain⟩
  · simp at h

theorem move_settle {success : Bool} (h : m.settle success = .going phase' m') :
    s.Move (.settle success) m phase' m' := by
  unfold Machine.settle at h
  split at h
  · simp at h
  · rename_i f frames hframes
    let popped := ({ m with frames }).unwind f.trail
    have hpopped : popped.frames = frames := by simp [popped]
    have hrecords : m.SameRecords popped :=
      ⟨by simp [popped], by simp [popped], by simp [popped], by simp [popped]⟩
    -- The three ways to go on: down the stack, after the node, or into its children again.
    have hdrop : ∀ success', (success' = true → success = true ∧ f.choice.passing) →
        s.Move (.settle success) m (.settle success') popped := fun success' hpassing =>
      .drop (f := f) (by rw [hpopped, hframes]) hpassing hrecords
    have hback : ∀ m₁, popped.Opens f.cursor m₁ → popped.SameRecords m₁ →
        s.Move (.settle success) m (.walk f.cursor.proceed) m₁ := fun m₁ hopens hsame =>
      .back hframes hpopped hopens (hrecords.trans hsame)
    have hgive : popped.Opens f.cursor (popped.push f.cursor .giveBack) :=
      .inr ⟨.giveBack, _, ⟨by decide, by decide⟩, rfl⟩
    cases success with
    | true =>
      obtain ⟨rfl, rfl⟩ := Turn.going.inj h
      cases hchoice : f.choice with
      | require => exact hback popped (.inl rfl) (.refl _)
      | refuse => exact hdrop false (by simp)
      | skip => exact hdrop true fun _ => ⟨rfl, by simp [hchoice, Choice.passing]⟩
      | again => exact hdrop true fun _ => ⟨rfl, by simp [hchoice, Choice.passing]⟩
      | settleForLess => exact hdrop true fun _ => ⟨rfl, by simp [hchoice, Choice.passing]⟩
      | oneMore => exact hdrop true fun _ => ⟨rfl, by simp [hchoice, Choice.passing]⟩
      | giveBack => exact hdrop true fun _ => ⟨rfl, by simp [hchoice, Choice.passing]⟩
    | false =>
      obtain ⟨rfl, rfl⟩ := Turn.going.inj h
      cases hchoice : f.choice with
      | require => exact hdrop false (by simp)
      | refuse => exact hback popped (.inl rfl) (.refl _)
      | skip => exact hback popped (.inl rfl) (.refl _)
      | again =>
        simp only
        split
        · rename_i id body hloop
          obtain ⟨q, next, here⟩ := loop?_eq_some hloop
          exact .again hframes hpopped here (.inl rfl) hrecords
        · exact hdrop false (by simp)
      | settleForLess => exact hback _ hgive ((Machine.SameRecords.refl _).push _ _)
      | oneMore =>
        simp only
        split
        · rename_i id body hloop
          obtain ⟨q, next, here⟩ := loop?_eq_some hloop
          exact .again hframes hpopped here hgive ((hrecords.setCount _ _).push _ _)
        · exact hdrop false (by simp)
      | giveBack =>
        simp only
        split
        · exact .drop (f := f) (by rw [hframes]; exact congrArg (f :: ·) hpopped.symm) (by simp)
            (hrecords.setCount _ _)
        · exact hdrop false (by simp)

/-! ### Turns -/

theorem turn_walk (hc : c.chain ≠ .nil) :
    s.turn m (.walk c) = if s.exceeds m.visited.visits then .over .exhausted m.visited
      else .going (s.visit m.visited c).1 (s.visit m.visited c).2 := by
  obtain ⟨chain, above, pos, entering⟩ := c
  cases chain with
  | nil => exact absurd rfl hc
  | leaf id op next => rfl
  | box id op body next => rfl

/-- A turn that goes on is a move. -/
theorem move_of_turn (h : s.turn m phase = .going phase' m') : s.Move phase m phase' m' := by
  cases phase with
  | settle success => exact move_settle h
  | walk c =>
    by_cases hc : c.chain = .nil
    · simp only [turn, hc] at h
      obtain ⟨rfl, rfl⟩ := Turn.going.inj h
      exact .off hc
    · rw [turn_walk hc] at h
      split at h
      · simp at h
      · obtain ⟨rfl, rfl⟩ := Turn.going.inj h
        exact move_visit hc

/-- A turn that decides the attempt: no choice is left, or no visit is allowed. -/
theorem over_of_turn {v : Verdict} (h : s.turn m phase = .over v m') :
    (v = .matched ∧ phase = .settle true ∧ m.frames = [] ∧ m' = m) ∨
    (v = .failed ∧ phase = .settle false ∧ m.frames = [] ∧ m' = m) ∨
    (v = .exhausted ∧ m.SameRecords m') := by
  cases phase with
  | settle success =>
    simp only [turn, Machine.settle] at h
    split at h
    · rename_i hframes
      obtain ⟨rfl, rfl⟩ := Turn.over.inj h
      cases success with
      | true => exact .inl ⟨rfl, rfl, hframes, rfl⟩
      | false => exact .inr (.inl ⟨rfl, rfl, hframes, rfl⟩)
    · simp at h
  | walk c =>
    simp only [turn] at h
    split at h
    · simp at h
    · split at h
      · obtain ⟨rfl, rfl⟩ := Turn.over.inj h
        exact .inr (.inr ⟨rfl, .visited m⟩)
      · simp at h

theorem sameRecords_of_over {v : Verdict} (h : s.turn m phase = .over v m') : m.SameRecords m' := by
  rcases over_of_turn h with ⟨-, -, -, rfl⟩ | ⟨-, -, -, rfl⟩ | ⟨-, hsame⟩
  · exact .refl _
  · exact .refl _
  · exact hsame

/-- What every turn preserves that is made where the turns lead holds wherever they lead. -/
theorem Reaches.induct (I : Phase → Machine → Prop)
    (hturn : ∀ {phase₁ phase₂ m₁ m₂}, s.Reaches phase m phase₁ m₁ →
      s.turn m₁ phase₁ = .going phase₂ m₂ → I phase₁ m₁ → I phase₂ m₂)
    (h : s.Reaches phase m phase' m') (hI : I phase m) : I phase' m' := by
  have hgo : ∀ {phase₁ phase₂ m₁ m₂}, s.Reaches phase₁ m₁ phase₂ m₂ →
      s.Reaches phase m phase₁ m₁ → I phase₁ m₁ → I phase₂ m₂ := by
    intro phase₁ phase₂ m₁ m₂ hrest
    induction hrest with
    | refl => exact fun _ hI => hI
    | turn first _ ih => exact fun hreached hI => ih (hreached.snoc first) (hturn hreached first hI)
  exact hgo h (.refl _ _) hI

theorem Reaches.invariant (I : Phase → Machine → Prop)
    (hmove : ∀ {phase phase' m m'}, s.Move phase m phase' m' → I phase m → I phase' m')
    (h : s.Reaches phase m phase' m') (hI : I phase m) : I phase' m' :=
  h.induct I (fun _ turn => hmove (move_of_turn turn)) hI

end Setting
end SpanRegex
