import SpanRegex.Pattern.Links
import SpanRegex.Proofs.Loops
import SpanRegex.Proofs.Whole

/-! # What turns do to the counts of loops

* `Quantifier.Decides`: what a loop does at a visit, given its count.
* `visitLoop_decides`: a visit of a loop writes its count, and opens the choice that goes with it.
* `Tally`: a turn by what it does to the place, the open choices and the counts; `tally_of_turn`.
-/

namespace SpanRegex
set_option autoImplicit false

open Pattern (Chain Container Look Quantifier Slot)

/-! ## Visits of loops -/

/-- The count of a loop that is entered. -/
def Pattern.Quantifier.entry (q : Quantifier) : Count := ⟨q.min, q.spare⟩

/-- What a loop with a count does: its new count, the choice that it opens, and whether its children are
entered. -/
inductive Pattern.Quantifier.Decides (q : Quantifier) (k : Count) : Count → Option Choice → Bool → Prop
  /-- A repetition is due. -/
  | owed (due : k.due ≠ 0) : q.Decides k { k with due := k.due - 1 } none true
  /-- Any number of repetitions may follow. -/
  | free {choice : Option Choice} {inward : Bool} (due : k.due = 0) (unbounded : q.max = none)
      (uncounted : ∀ opened ∈ choice, opened = .again ∨ opened = .skip) : q.Decides k k choice inward
  /-- No repetition is to spare. -/
  | spent (due : k.due = 0) (bounded : q.max ≠ none) (spare : k.spare = 0) : q.Decides k k none false
  /-- A lazy loop is left; one more repetition may follow. -/
  | offer (due : k.due = 0) (bounded : q.max ≠ none) (spare : k.spare ≠ 0) :
      q.Decides k k (some .oneMore) false
  /-- A greedy loop takes a repetition. -/
  | take (due : k.due = 0) (bounded : q.max ≠ none) (spare : k.spare ≠ 0) :
      q.Decides k { k with spare := k.spare - 1 } (some .settleForLess) true

/-- One count is written. -/
def Machine.Writes1 (m m' : Machine) (id : Nat) (k : Count) : Prop :=
  ∀ i, m'.counts.get i = if id = i then k else m.counts.get i

section

variable {m m' : Machine} {c : Cursor} {id : Nat} {q : Quantifier} {body next : Chain}

/-- Where the walk goes from a loop. -/
def Cursor.onward (c : Cursor) (body next : Chain) (inward : Bool) : Cursor :=
  if inward then c.descend body c.pos else c.leave next c.pos

/-- The choice that is opened at the cursor, over the others. -/
def opened (c : Cursor) (choice : Option Choice) (trail : Nat) (frames : List Frame) : List Frame :=
  match choice with
  | some choice => ⟨c, choice, trail⟩ :: frames
  | none => frames

theorem decideLoop_decides (c : Cursor) (q : Quantifier) (body next : Chain)
    (hdue : (m.counts.get id).due = 0) : ∃ k choice inward, q.Decides (m.counts.get id) k choice inward ∧
      (decideLoop m c id q body next).1 = .walk (c.onward body next inward) ∧
      (∃ n, (decideLoop m c id q body next).2.frames = opened c choice n m.frames) ∧
      m.Writes1 (decideLoop m c id q body next).2 id k := by
  have hself : ∀ m' : Machine, m'.counts = m.counts → m.Writes1 m' id (m.counts.get id) := by
    intro m' hcounts i
    rw [hcounts]
    split
    · subst id
      rfl
    · rfl
  unfold decideLoop
  cases hmax : q.max with
  | none =>
    simp only
    split
    · exact ⟨_, none, false, .free hdue hmax (by simp), rfl, ⟨0, rfl⟩, hself m rfl⟩
    · split
      · exact ⟨_, some .again, false, .free hdue hmax (by simp), rfl,
          ⟨_, congrArg (_ :: ·) (by simp)⟩, hself _ (by simp [Machine.push])⟩
      · exact ⟨_, some .skip, true, .free hdue hmax (by simp), rfl,
          ⟨_, congrArg (_ :: ·) (by simp)⟩, hself _ (by simp [Machine.push])⟩
  | some max =>
    have hbounded : q.max ≠ none := by simp [hmax]
    simp only [beq_iff_eq]
    split
    · exact ⟨_, none, false, .spent hdue hbounded ‹_›, rfl, ⟨0, rfl⟩, hself m rfl⟩
    · split
      · exact ⟨_, some .oneMore, false, .offer hdue hbounded ‹_›, rfl, ⟨_, rfl⟩, hself _ rfl⟩
      · refine ⟨_, some .settleForLess, true, .take hdue hbounded ‹_›, rfl, ⟨_, rfl⟩, fun i => ?_⟩
        simp [Machine.push, Machine.setCount]

/-- A visit of a loop writes its count and opens the choice that goes with it. -/
theorem visitLoop_decides (m : Machine) (c : Cursor) (id : Nat) (q : Quantifier) (body next : Chain) :
    ∃ k choice inward, q.Decides (if c.entering then q.entry else m.counts.get id) k choice inward ∧
      (visitLoop m c id q body next).1 = .walk (c.onward body next inward) ∧
      (∃ n, (visitLoop m c id q body next).2.frames = opened c choice n m.frames) ∧
      m.Writes1 (visitLoop m c id q body next).2 id k := by
  obtain ⟨m₁, hm₁, hframes, hcount, hothers⟩ : ∃ m₁,
      (if c.entering then enterLoop m id q else m) = m₁ ∧ m₁.frames = m.frames ∧
        m₁.counts.get id = (if c.entering then q.entry else m.counts.get id) ∧
        ∀ i, ¬id = i → m₁.counts.get i = m.counts.get i := by
    refine ⟨_, rfl, ?_⟩
    split
    · refine ⟨(Setting.enterLoop_same m id q).1, ?_, fun i hi => enterLoop_counts_ne hi⟩
      simp [enterLoop_counts, Quantifier.entry]
    · exact ⟨rfl, rfl, fun _ _ => rfl⟩
  have hwrites : ∀ {m' : Machine} {k : Count}, m₁.Writes1 m' id k → m.Writes1 m' id k := by
    intro m' k h i
    rw [h i]
    split
    · rfl
    · exact hothers i ‹_›
  rw [visitLoop_eq, hm₁, ← hcount]
  unfold loopOn
  split
  · rename_i hdue
    obtain ⟨k, choice, inward, hdecides, hphase, ⟨n, hopened⟩, hwritten⟩ :=
      decideLoop_decides c q body next hdue
    exact ⟨k, choice, inward, hdecides, hphase, ⟨n, hframes ▸ hopened⟩, hwrites hwritten⟩
  · rename_i hdue
    refine ⟨_, none, true, .owed hdue, rfl, ⟨0, ?_⟩, hwrites fun i => ?_⟩
    · rw [Machine.begin, if_neg hdue]
      exact hframes
    · rw [Machine.begin, if_neg hdue]
      simp [Machine.setCount]

end

/-! ## Turns -/

/-- The turns that go on, by what they do to the place, the open choices and the counts. -/
inductive Tally : Phase → Machine → Phase → Machine → Prop
  /-- The walk ends here. -/
  | still {c : Cursor} {m m' : Machine} {success : Bool} (frames : m'.frames = m.frames)
      (counts : m'.counts = m.counts) : Tally (.walk c) m (.settle success) m'
  /-- A node that is no loop is left. -/
  | past {c : Cursor} {m m' : Machine} {onto : Chain} {pos : Nat}
      (onto_eq : onto = c.chain.tail ∨ onto = .nil) (look : c.chain.isLook = true → c.entering = true)
      (frames : m'.frames = m.frames) (counts : m'.counts = m.counts) :
      Tally (.walk c) m (.walk (c.leave onto pos)) m'
  /-- The children of a container that is no loop are entered. -/
  | down {c : Cursor} {m m' : Machine} {id pos n : Nat} {op : Container} {body next : Chain}
      (choice : Option Choice) (here : c.chain = .box id op body next) (entering : c.entering = true)
      (plain : ∀ q, op ≠ .loop q) (uncounted : ∀ opened ∈ choice, opened = .require ∨ opened = .refuse ∨ opened = .skip)
      (frames : m'.frames = opened c choice n m.frames) (counts : m'.counts = m.counts) :
      Tally (.walk c) m (.walk (c.descend body pos)) m'
  /-- A loop is visited. -/
  | loop {c : Cursor} {m m' : Machine} {id n : Nat} {q : Quantifier} {body next : Chain} {k : Count}
      {choice : Option Choice} {inward : Bool} (here : c.chain = .box id (.loop q) body next)
      (decides : q.Decides (if c.entering then q.entry else m.counts.get id) k choice inward)
      (frames : m'.frames = opened c choice n m.frames) (counts : m.Writes1 m' id k) :
      Tally (.walk c) m (.walk (c.onward body next inward)) m'
  /-- A choice is given up. -/
  | drop {f : Frame} {m m' : Machine} {success success' : Bool} (frames : m.frames = f :: m'.frames)
      (counts : m'.counts = m.counts) : Tally (.settle success) m (.settle success') m'
  /-- A repetition is given back. -/
  | giveBack {f : Frame} {m m' : Machine} {id : Nat} (frames : m.frames = f :: m'.frames)
      (choice : f.choice = .giveBack) (here : f.cursor.chain.head? = some id)
      (counts : m.Writes1 m' id (m.counts.get id).more) : Tally (.settle false) m (.settle false) m'
  /-- The walk goes on after the node of a choice. -/
  | resume {f : Frame} {m m' : Machine} {success : Bool} (frames : m.frames = f :: m'.frames)
      (counts : m'.counts = m.counts) : Tally (.settle success) m (.walk f.cursor.proceed) m'
  /-- An unbounded loop is entered after all. -/
  | again {f : Frame} {m m' : Machine} {id : Nat} {q : Quantifier} {body next : Chain}
      (frames : m.frames = f :: m'.frames) (choice : f.choice = .again)
      (here : f.cursor.chain = .box id (.loop q) body next) (counts : m'.counts = m.counts) :
      Tally (.settle false) m (.walk (f.cursor.descend body f.cursor.pos)) m'
  /-- A bounded loop is left without the repetition that it took. -/
  | settle {f : Frame} {below : List Frame} {m m' : Machine} {n : Nat} (frames : m.frames = f :: below)
      (choice : f.choice = .settleForLess) (opens : m'.frames = ⟨f.cursor, .giveBack, n⟩ :: below)
      (counts : m'.counts = m.counts) : Tally (.settle false) m (.walk f.cursor.proceed) m'
  /-- A bounded loop takes one more repetition. -/
  | oneMore {f : Frame} {below : List Frame} {m m' : Machine} {id n : Nat} {q : Quantifier}
      {body next : Chain} (frames : m.frames = f :: below) (choice : f.choice = .oneMore)
      (here : f.cursor.chain = .box id (.loop q) body next)
      (opens : m'.frames = ⟨f.cursor, .giveBack, n⟩ :: below)
      (counts : m.Writes1 m' id (m.counts.get id).less) :
      Tally (.settle false) m (.walk (f.cursor.descend body f.cursor.pos)) m'

namespace Setting

variable {s : Setting} {m m' : Machine} {c : Cursor} {phase phase' : Phase}

theorem tally_leaf {id : Nat} {op : Pattern.Leaf} {next : Chain} (here : c.chain = .leaf id op next) :
    Tally (.walk c) m (s.visitLeaf m.visited c op next).1 (s.visitLeaf m.visited c op next).2 := by
  have honto : next = c.chain.tail ∨ next = .nil := .inl (by rw [here]; rfl)
  have hlook : c.chain.isLook = true → c.entering = true := by simp [here, Chain.isLook]
  unfold visitLeaf
  split
  · split
    · rename_i edge _
      cases edge <;> exact .past honto hlook rfl rfl
    · exact .past honto hlook rfl rfl
  · exact .still rfl rfl

theorem tally_group {id : Nat} {capture : Option Slot} {body next : Chain}
    (here : c.chain = .box id (.group capture) body next) :
    Tally (.walk c) m (visitGroup m.visited c id capture body next).1
      (visitGroup m.visited c id capture body next).2 := by
  have honto : next = c.chain.tail ∨ next = .nil := .inl (by rw [here]; rfl)
  have hlook : c.chain.isLook = true → c.entering = true := by simp [here, Chain.isLook]
  unfold visitGroup
  split
  · rename_i hentering
    exact .down (n := 0) none here hentering (by simp) (by simp) rfl rfl
  · split
    · exact .past honto hlook rfl rfl
    · exact .past honto hlook rfl rfl

theorem tally_look {id : Nat} {look : Look} {body next : Chain}
    (here : c.chain = .box id (.look look) body next) :
    Tally (.walk c) m (visitLook m.visited c look body next).1 (visitLook m.visited c look body next).2 := by
  unfold visitLook
  split
  · rename_i hentering
    simp only
    split
    · split
      · exact .past (.inl (by rw [here]; rfl)) (fun _ => hentering) rfl rfl
      · exact .still rfl rfl
    · refine .down (some _) here hentering (by simp) ?_ rfl rfl
      intro opened hopened
      obtain rfl := Option.some.inj hopened
      split <;> simp
  · exact .still rfl rfl

theorem tally_alternative {id : Nat} {body next : Chain} (here : c.chain = .box id .alternative body next) :
    Tally (.walk c) m (visitAlternative m.visited c body).1 (visitAlternative m.visited c body).2 := by
  unfold visitAlternative
  split
  · rename_i hentering
    exact .down (some .skip) here hentering (by simp) (by simp) rfl rfl
  · exact .past (.inr rfl) (by simp [here, Chain.isLook]) rfl rfl

theorem tally_visit (hc : c.chain ≠ .nil) :
    Tally (.walk c) m (s.visit m.visited c).1 (s.visit m.visited c).2 := by
  unfold visit
  split
  · rename_i hnil
    exact absurd hnil hc
  · rename_i here
    exact tally_leaf here
  · rename_i id op body next here
    split
    · exact tally_group here
    · exact tally_look here
    · exact tally_alternative here
    · rename_i q
      obtain ⟨k, choice, inward, hdecides, hphase, ⟨n, hframes⟩, hwrites⟩ :=
        visitLoop_decides m.visited c id q body next
      rw [hphase]
      exact .loop here hdecides hframes hwrites

theorem tally_settle {success : Bool} (h : m.settle success = .going phase' m') :
    Tally (.settle success) m phase' m' := by
  unfold Machine.settle at h
  split at h
  · cases h
  · rename_i f frames hframes
    let popped := ({ m with frames }).unwind f.trail
    have hpopped : m.frames = f :: popped.frames := by simp [popped, hframes]
    have hcounts : popped.counts = m.counts := by simp [popped]
    have hdrop : ∀ success', Tally (.settle success) m (.settle success') popped := fun success' =>
      .drop hpopped hcounts
    have hresume : Tally (.settle success) m (.walk f.cursor.proceed) popped := .resume hpopped hcounts
    have hwrites : ∀ id k, m.Writes1 (popped.setCount id k) id k := fun id k i => by
      simp [Machine.setCount, hcounts]
    cases success with
    | true =>
      obtain ⟨rfl, rfl⟩ := Turn.going.inj h
      cases hchoice : f.choice with
      | require => exact hresume
      | refuse => exact hdrop false
      | skip => exact hdrop true
      | again => exact hdrop true
      | settleForLess => exact hdrop true
      | oneMore => exact hdrop true
      | giveBack => exact hdrop true
    | false =>
      obtain ⟨rfl, rfl⟩ := Turn.going.inj h
      cases hchoice : f.choice with
      | require => exact hdrop false
      | refuse => exact hresume
      | skip => exact hresume
      | again =>
        simp only
        split
        · rename_i id body hloop
          obtain ⟨q, next, here⟩ := loop?_eq_some hloop
          exact .again hpopped hchoice here hcounts
        · exact hdrop false
      | settleForLess => exact .settle hpopped hchoice rfl hcounts
      | oneMore =>
        simp only
        split
        · rename_i id body hloop
          obtain ⟨q, next, here⟩ := loop?_eq_some hloop
          refine .oneMore hpopped hchoice here rfl ?_
          have hless : (m.counts.get id).less = (popped.counts.get id).less := by rw [hcounts]
          rw [hless]
          exact hwrites id _
        · exact hdrop false
      | giveBack =>
        simp only
        split
        · rename_i id body hloop
          obtain ⟨q, next, here⟩ := loop?_eq_some hloop
          refine .giveBack hpopped hchoice (by rw [here]; rfl) ?_
          have hmore : (m.counts.get id).more = (popped.counts.get id).more := by rw [hcounts]
          rw [hmore]
          exact hwrites id _
        · exact hdrop false

theorem tally_of_turn (h : s.turn m phase = .going phase' m') : Tally phase m phase' m' := by
  cases phase with
  | settle success => exact tally_settle h
  | walk c =>
    by_cases hc : c.chain = .nil
    · simp only [turn, hc] at h
      obtain ⟨rfl, rfl⟩ := Turn.going.inj h
      exact .still rfl rfl
    · rw [turn_walk hc] at h
      split at h
      · cases h
      · obtain ⟨rfl, rfl⟩ := Turn.going.inj h
        exact tally_visit hc

end Setting

end SpanRegex
