import SpanRegex.Proofs.Prospects
import SpanRegex.Proofs.Tallies

/-! # Counts and open choices

What is due to a loop and what it has to spare is set when the loop is entered. Open choices of the loop will
give repetitions back, so that its count stays in range as long as the loop is not entered over them.

* `Frame.counts`, `Frame.offers`: the choices that give a repetition back, and those that take one more.
* `Over`, `Layered`: no loop is entered over its own choices, neither by the walk nor from another choice.
* `Counted`: the count of a loop, with what its open choices will give back.
* `Machine.Tallied`: all of these, between two turns.
* `Tallied.spent_of_once`, `Tallied.counted_visit`: what a visit of a loop finds, and what it leaves.
-/

namespace SpanRegex
set_option autoImplicit false

open Pattern (Chain Container Quantifier aheadOf lone)

/-! ## Choices that count -/

namespace Frame

/-- Failure gives back a repetition of the loop with this number, at once or after the walk has gone on. -/
def counts (f : Frame) (id : Nat) : Bool :=
  (f.choice == .settleForLess || f.choice == .giveBack) && f.cursor.chain.head? == some id

/-- Failure takes one more repetition of the loop with this number. -/
def offers (f : Frame) (id : Nat) : Bool := f.choice == .oneMore && f.cursor.chain.head? == some id

/-- The loop of the choice is not entered, nor returned to while one more repetition is offered, unless it
lies in the children of a loop that goes round again. -/
def Bars (f : Frame) (o : Outlook) : Prop :=
  ∀ id, id ∉ aheadOf f.cursor.above →
    (f.counts id = true ∨ f.offers id = true → id ∉ o.enters) ∧ (f.offers id = true → id ∉ o.returns)

variable {f : Frame} {o o' : Outlook} {id : Nat}

theorem head_of_counts (h : f.counts id = true) : f.cursor.chain.head? = some id := by
  simp only [counts, Bool.and_eq_true, beq_iff_eq] at h
  exact h.2

theorem head_of_offers (h : f.offers id = true) : f.cursor.chain.head? = some id := by
  simp only [offers, Bool.and_eq_true, beq_iff_eq] at h
  exact h.2

theorem Bars.within (h : f.Bars o') (hwithin : o.Within o') : f.Bars o := by
  intro id hid
  obtain ⟨henters, hreturns⟩ := h id hid
  refine ⟨fun hf hmem => henters hf (hwithin.enters hmem), fun hf hmem => ?_⟩
  rcases List.mem_append.1 (hwithin.returns hmem) with hmem | hmem
  · exact henters (.inr hf) hmem
  · exact hreturns hf hmem

end Frame

/-- The walk, or a choice, with this outlook inside these containers has these choices below it: none bars what
is to come, and each bounded loop around that owes nothing has taken a repetition that will be given back. -/
structure Over (frames : List Frame) (o : Outlook) (around : List Chain) : Prop where
  bars : ∀ g ∈ frames, g.Bars o
  backed : ∀ {id q body next}, .box id (.loop q) body next ∈ around → q.min = 0 → q.max ≠ none →
    ∃ g ∈ frames, g.counts id = true

/-- Every choice has the choices below it that it may have. -/
def Layered : List Frame → Prop
  | [] => True
  | f :: below =>
    (Over below f.cursor.kept f.cursor.above ∧
      (f.choice = .again → ∀ id q body next, f.cursor.chain = .box id (.loop q) body next → q.max = none)) ∧
    Layered below

/-- The loop has nothing to spare, or is not entered again from a loop around it. -/
def Pattern.Quantifier.Sheltered (q : Quantifier) (id : Nat) (above : List Chain) : Prop :=
  q.spare = 0 ∨ id ∉ aheadOf above

/-- The count of the loop is in range, even after its open choices have given back what they count. -/
structure Counted (m : Machine) (id : Nat) (q : Quantifier) (above : List Chain) : Prop where
  due : (m.counts.get id).due.toNat ≤ q.min.toNat - 1
  spare : q.Sheltered id above →
    (m.counts.get id).spare.toNat + m.frames.countP (·.counts id) ≤ q.spare.toNat
  offered : q.Sheltered id above → ∀ f ∈ m.frames, f.offers id = true →
    (m.counts.get id).spare ≠ 0

/-- What holds of the walk, of the open choices and of the counts between two turns. -/
structure Machine.Tallied (tree : Chain) (phase : Phase) (m : Machine) : Prop where
  places : m.Spread (Cursor.Stands tree) (Cursor.AtNode tree) phase
  walk : ∀ c, phase = .walk c → Over m.frames c.outlook c.active
  layered : Layered m.frames
  counted : ∀ {id q body next above}, (.box id (.loop q) body next, above) ∈ tree.places [] →
    Counted m id q above

section

variable {tree : Chain} {frames below : List Frame} {f : Frame} {o o' : Outlook} {around around' : List Chain}
  {m m' : Machine} {c c' : Cursor} {id n : Nat} {q : Quantifier} {body next : Chain} {above : List Chain}
  {choice : Choice}

namespace Over

theorem move (h : Over frames o around) (hwithin : o'.Within o)
    (haround : ∀ x ∈ around', x ∈ around ∨ x = .nil) : Over frames o' around' := by
  refine ⟨fun g hg => (h.bars g hg).within hwithin, fun hmem hmin hmax => ?_⟩
  rcases haround _ hmem with hmem | hnil
  · exact h.backed hmem hmin hmax
  · cases hnil

theorem enter {x : Chain} (h : Over frames o around) (hx : ∀ id q body next, x = .box id (.loop q) body next →
    q.min = 0 → q.max ≠ none → ∃ g ∈ frames, g.counts id = true) : Over frames o (x :: around) := by
  refine ⟨h.bars, fun hmem hmin hmax => ?_⟩
  rcases List.mem_cons.1 hmem with heq | hmem
  · exact hx _ _ _ _ heq.symm hmin hmax
  · exact h.backed hmem hmin hmax

theorem push (h : Over frames o around) (hf : f.Bars o) : Over (f :: frames) o around := by
  refine ⟨List.forall_mem_cons.2 ⟨hf, h.bars⟩, fun hmem hmin hmax => ?_⟩
  obtain ⟨g, hg, hcounts⟩ := h.backed hmem hmin hmax
  exact ⟨g, List.mem_cons_of_mem _ hg, hcounts⟩

theorem leave (h : Over frames o c.above) {onto : Chain} {pos : Nat}
    (hwithin : (c.leave onto pos).outlook.Within o) :
    Over frames (c.leave onto pos).outlook (c.leave onto pos).active :=
  h.move hwithin fun _ hx => Cursor.mem_active_leave hx

theorem proceed (h : Over frames c.kept c.above) (hne : c.chain ≠ .nil) :
    Over frames c.proceed.outlook c.proceed.active := by
  have hwithin := Cursor.outlook_proceed_kept hne
  cases hchain : c.chain with
  | nil => exact absurd hchain hne
  | leaf id op next =>
    simp only [Cursor.proceed, hchain] at hwithin ⊢
    exact h.leave hwithin
  | box id op body next =>
    simp only [Cursor.proceed, hchain] at hwithin ⊢
    exact h.leave hwithin

end Over

/-- A choice bars the way on from its own node. -/
theorem bars_own (hnodup : tree.ids.Nodup) (hc : c.AtNode tree) (hwithin : o.Within c.kept)
    (hreturns : choice = .oneMore → o.returns ⊆ Chain.heads c.above) : Frame.Bars ⟨c, choice, n⟩ o := by
  intro id hid
  have henters : c.chain.head? = some id → id ∉ o.enters := fun hhead hmem =>
    (List.mem_append.1 (hwithin.enters hmem)).elim (Chain.notMem_tail_ids hnodup hc hhead) hid
  refine ⟨fun hf => henters (hf.elim Frame.head_of_counts Frame.head_of_offers), fun hf hmem => ?_⟩
  have hchoice : choice = .oneMore := by
    simp only [Frame.offers, Bool.and_eq_true, beq_iff_eq] at hf
    exact hf.1
  exact Chain.notMem_heads hnodup hc (Frame.head_of_offers hf) (hreturns hchoice hmem)

/-! ## Counts -/

/-- A loop that has nothing to spare when it is entered never has, and counts nothing. -/
theorem Counted.of_spare_zero (h : Counted m id q above) (hspare : q.spare = 0) :
    (m.counts.get id).spare = 0 ∧ m.frames.countP (·.counts id) = 0 := by
  have hle := h.spare (Or.inl hspare)
  have hzero : q.spare.toNat = 0 := by rw [hspare]; rfl
  exact ⟨UInt32.toNat_inj.1 (Nat.eq_zero_of_le_zero (by omega)), by omega⟩

/-- A count that is not written stays in range while no choice is opened that counts. -/
theorem Counted.same (h : Counted m id q above) (hcount : m'.counts.get id = m.counts.get id)
    (hcounts : m'.frames.countP (·.counts id) ≤ m.frames.countP (·.counts id))
    (hoffers : ∀ f ∈ m'.frames, f.offers id = true → f ∈ m.frames) : Counted m' id q above := by
  refine ⟨hcount ▸ h.due, fun hcase => ?_, fun hcase f hf hoffered => ?_⟩
  · have hspare := h.spare hcase
    rw [hcount]
    omega
  · rw [hcount]
    exact h.offered hcase f (hoffers f hf hoffered) hoffered

theorem Counted.pop (h : Counted m id q above) (hcount : m'.counts.get id = m.counts.get id)
    (hframes : m.frames = f :: m'.frames) : Counted m' id q above := by
  refine h.same hcount ?_ fun g hg _ => by rw [hframes]; exact List.mem_cons_of_mem f hg
  rw [hframes]
  exact (List.sublist_cons_self f m'.frames).countP_le

theorem Counted.room (h : Counted m id q above) (hcase : q.Sheltered id above)
    (hframes : m.frames = f :: below) (hf : f.counts id = true) :
    (m.counts.get id).spare.toNat + 1 + below.countP (·.counts id) ≤ q.spare.toNat := by
  have hspare := h.spare hcase
  simp only [hframes, List.countP_cons, hf, if_true] at hspare
  omega

theorem Counted.giveBack (h : Counted m id q above) (hframes : m.frames = f :: m'.frames) (hf : f.counts id = true)
    (hcount : m'.counts.get id = (m.counts.get id).more) : Counted m' id q above := by
  have hmore : q.Sheltered id above →
      (m'.counts.get id).spare.toNat = (m.counts.get id).spare.toNat + 1 := by
    intro hcase
    have hroom := h.room hcase hframes hf
    have hlt := q.spare.toNat_lt
    rw [hcount, Count.more, UInt32.toNat_add, UInt32.toNat_one, Nat.mod_eq_of_lt (by omega)]
  refine ⟨by rw [hcount]; exact h.due, fun hcase => ?_, fun hcase g hg _ hzero => ?_⟩
  · rw [hmore hcase]
    exact h.room hcase hframes hf
  · have hpos := hmore hcase
    rw [hzero] at hpos
    cases hpos

theorem Counted.oneMore (h : Counted m id q above) (hframes : m.frames = f :: below) (hf : f.offers id = true)
    (hopens : m'.frames = ⟨f.cursor, .giveBack, n⟩ :: below)
    (hcount : m'.counts.get id = (m.counts.get id).less)
    (hlast : q.Sheltered id above → ∀ g ∈ below, ¬ g.offers id = true) : Counted m' id q above := by
  have hback : Frame.counts ⟨f.cursor, .giveBack, n⟩ id = true := by
    simp [Frame.counts, Frame.head_of_offers hf]
  have hnot : ¬ f.counts id = true := by
    simp only [Frame.offers, Bool.and_eq_true, beq_iff_eq] at hf
    simp [Frame.counts, hf.1]
  refine ⟨by rw [hcount]; exact h.due, fun hcase => ?_, fun hcase g hg hoffers => ?_⟩
  · have hne := h.offered hcase f (by rw [hframes]; exact List.mem_cons_self) hf
    have hspare := h.spare hcase
    have hpos : (m.counts.get id).spare.toNat ≠ 0 := fun h => hne (UInt32.toNat_inj.1 h)
    simp only [hframes, List.countP_cons, hnot] at hspare
    simp only [hcount, Count.toNat_less hne, hopens, List.countP_cons, hback, if_true]
    omega
  · rw [hopens] at hg
    rcases List.mem_cons.1 hg with rfl | hg
    · simp [Frame.offers] at hoffers
    · exact absurd hoffers (hlast hcase g hg)

/-! ## Loops at a visit -/

theorem mem_opened {choice : Option Choice} (h : f ∈ opened c choice n frames) :
    f ∈ frames ∨ ∃ choice' ∈ choice, f = ⟨c, choice', n⟩ := by
  cases choice with
  | none => exact .inl h
  | some choice =>
    rcases List.mem_cons.1 h with rfl | h
    · exact .inr ⟨choice, rfl, rfl⟩
    · exact .inl h

/-- A choice that counts nothing for the loop is opened over those that do. -/
theorem countP_opened {choice : Option Choice} (h : ∀ choice' ∈ choice, ¬ Frame.counts ⟨c, choice', n⟩ id = true) :
    (opened c choice n frames).countP (·.counts id) = frames.countP (·.counts id) := by
  cases choice with
  | none => rfl
  | some choice => exact List.countP_cons_of_neg (h choice rfl)

theorem offers_opened {choice : Option Choice} (hf : f ∈ opened c choice n frames) (hoffers : f.offers id = true) :
    f ∈ frames ∨ choice = some .oneMore ∧ c.chain.head? = some id := by
  rcases mem_opened hf with hf | ⟨choice', hchoice, rfl⟩
  · exact .inl hf
  · simp only [Frame.offers, Bool.and_eq_true, beq_iff_eq] at hoffers
    rw [Option.mem_def] at hchoice
    exact .inr ⟨hoffers.1 ▸ hchoice, hoffers.2⟩

theorem not_counts (hless : choice ≠ .settleForLess) (hback : choice ≠ .giveBack) :
    ¬ Frame.counts ⟨c, choice, n⟩ id = true := by
  simp [Frame.counts, hless, hback]

theorem above_eq (hnodup : tree.ids.Nodup) (hc : c.AtNode tree) (hf : f.cursor.AtNode tree)
    (hid : c.chain.head? = some id) (hfid : f.cursor.chain.head? = some id) : f.cursor.above = c.above :=
  (Chain.place_unique hnodup hf hc (hfid.trans hid.symm)).2

namespace Machine.Tallied

variable (hnodup : tree.ids.Nodup) (hm : m.Tallied tree (.walk c))
  (here : c.chain = .box id (.loop q) body next)

include hm here

theorem atNode : c.AtNode tree := (hm.places.1 c rfl).resolve_left (by simp [here])

theorem counted_here : Counted m id q c.above := by
  have hplace := hm.atNode here
  unfold Cursor.AtNode at hplace
  rw [here] at hplace
  exact hm.counted hplace

include hnodup

/-- Where a loop is visited, none of its choices offers one more repetition. -/
theorem not_offered (hcase : q.Sheltered id c.above) : ∀ f ∈ m.frames, ¬ f.offers id = true := by
  intro f hf hoffers
  rcases hcase with hspare | hid
  · have hcounted := hm.counted_here here
    exact hcounted.offered (Or.inl hspare) f hf hoffers (hcounted.of_spare_zero hspare).1
  · have hhead : c.chain.head? = some id := by rw [here]; rfl
    have habove := above_eq hnodup (hm.atNode here) (hm.places.2 f hf).2 hhead (Frame.head_of_offers hoffers)
    obtain ⟨henters, hreturns⟩ := (hm.walk c rfl).bars f hf id (habove ▸ hid)
    cases hentering : c.entering with
    | true => exact henters (.inr hoffers) (Cursor.head_mem_enters hentering hhead)
    | false => exact hreturns hoffers (Cursor.head_mem_returns hentering hhead)

/-- Where a loop is entered, none of its choices will give a repetition back. -/
theorem not_counted (hentering : c.entering = true) (hcase : q.Sheltered id c.above) :
    m.frames.countP (·.counts id) = 0 := by
  rcases hcase with hspare | hid
  · exact ((hm.counted_here here).of_spare_zero hspare).2
  · refine List.countP_eq_zero.2 fun f hf hcounts => ?_
    have hhead : c.chain.head? = some id := by rw [here]; rfl
    have habove := above_eq hnodup (hm.atNode here) (hm.places.2 f hf).2 hhead (Frame.head_of_counts hcounts)
    exact ((hm.walk c rfl).bars f hf id (habove ▸ hid)).1 (.inl hcounts) (Cursor.head_mem_enters hentering hhead)

omit hnodup

/-- A loop that runs once is left when it is returned to, unless it is entered again from around. -/
theorem spent_of_once (hleaving : c.entering = false) (honce : q.once = true) (hid : id ∉ aheadOf c.above)
    {k : Count} {choice : Option Choice} {inward : Bool} (h : q.Decides (m.counts.get id) k choice inward) :
    choice = none ∧ inward = false := by
  obtain ⟨hmin, hany⟩ := Bool.and_eq_true_iff.1 honce
  obtain ⟨max, hmax, hle⟩ := (Option.any_eq_true _ _).1 hany
  have hmin1 : q.min.toNat ≤ 1 := UInt32.le_iff_toNat_le.1 (of_decide_eq_true hmin)
  have hmax1 : max.toNat ≤ 1 := UInt32.le_iff_toNat_le.1 (of_decide_eq_true hle)
  have hcounted := hm.counted_here here
  have hspare := hcounted.spare (Or.inr hid)
  rw [Quantifier.spare_toNat hmax] at hspare
  have hspent : (m.counts.get id).spare = 0 := by
    refine UInt32.toNat_inj.1 (Nat.eq_zero_of_le_zero ?_)
    by_cases hzero : q.min = 0
    · -- The repetition that is under way has been counted.
      have hactive : .box id (.loop q) body next ∈ c.active := by
        simp [Cursor.active, hleaving, here]
      obtain ⟨g, hg, hcounts⟩ := (hm.walk c rfl).backed hactive hzero (by simp [hmax])
      have hpos : 0 < m.frames.countP (·.counts id) := List.countP_pos_iff.2 ⟨g, hg, hcounts⟩
      omega
    · have hmin : q.min.toNat ≠ 0 := fun h => hzero (UInt32.toNat_inj.1 h)
      omega
  cases h with
  | owed due =>
    have hdue := hcounted.due
    exact absurd (UInt32.toNat_inj.1 (Nat.eq_zero_of_le_zero (by omega))) due
  | free _ unbounded => simp [hmax] at unbounded
  | spent => exact ⟨rfl, rfl⟩
  | offer _ _ spare => exact absurd hspent spare
  | take _ _ spare => exact absurd hspent spare

include hnodup

/-- The count that a visit starts from is in range: that of an entry, or the one that there is. -/
theorem counted_start {k : Count} (h : (if c.entering then q.entry else m.counts.get id) = k) :
    k.due.toNat ≤ q.min.toNat ∧
    (q.Sheltered id c.above → k.spare.toNat + m.frames.countP (·.counts id) ≤ q.spare.toNat) := by
  subst h
  cases hentering : c.entering with
  | true =>
    refine ⟨Nat.le_refl _, fun hcase => ?_⟩
    rw [hm.not_counted hnodup here hentering hcase]
    exact Nat.le_refl _
  | false =>
    have hcounted := hm.counted_here here
    exact ⟨Nat.le_trans hcounted.due (Nat.sub_le _ _), hcounted.spare⟩

theorem counted_visit {k : Count} {choice : Option Choice} {inward : Bool}
    (h : q.Decides (if c.entering then q.entry else m.counts.get id) k choice inward)
    (hframes : m'.frames = opened c choice n m.frames) (hk : m'.counts.get id = k) : Counted m' id q c.above := by
  obtain ⟨k₀, hk₀⟩ : ∃ k₀, (if c.entering then q.entry else m.counts.get id) = k₀ := ⟨_, rfl⟩
  obtain ⟨hdue, hspare⟩ := hm.counted_start hnodup here hk₀
  rw [hk₀] at h
  have hoffered : choice ≠ some .oneMore → q.Sheltered id c.above →
      ∀ f ∈ m'.frames, f.offers id = true → (m'.counts.get id).spare ≠ 0 := by
    intro hchoice hcase f hf hoffers
    rw [hframes] at hf
    have hmem := (offers_opened hf hoffers).resolve_right fun h => hchoice h.1
    exact absurd hoffers (hm.not_offered hnodup here hcase f hmem)
  have hcount : (∀ choice' ∈ choice, choice' ≠ .settleForLess ∧ choice' ≠ .giveBack) →
      m'.frames.countP (·.counts id) = m.frames.countP (·.counts id) := fun huncounted => by
    rw [hframes, countP_opened fun choice' h => not_counts (huncounted choice' h).1 (huncounted choice' h).2]
  cases h with
  | owed due =>
    refine ⟨?_, ?_, hoffered (by simp)⟩
    · rw [hk, toNat_pred_of_ne_zero due]
      omega
    · rwa [hk, hcount (by simp)]
  | free due unbounded uncounted =>
    have hplain : ∀ choice' ∈ choice, choice' ≠ .settleForLess ∧ choice' ≠ .giveBack ∧ choice' ≠ .oneMore := by
      intro choice' hchoice
      rcases uncounted choice' hchoice with rfl | rfl <;> simp
    refine ⟨by simp [hk, due], ?_, hoffered fun h => (hplain .oneMore h).2.2 rfl⟩
    rwa [hk, hcount fun choice' h => ⟨(hplain choice' h).1, (hplain choice' h).2.1⟩]
  | spent due _ spare =>
    refine ⟨by simp [hk, due], ?_, hoffered (by simp)⟩
    rwa [hk, hcount (by simp)]
  | offer due _ spare =>
    refine ⟨by simp [hk, due], ?_, fun _ _ _ _ => by rwa [hk]⟩
    rwa [hk, hcount (by simp)]
  | take due _ spare =>
    refine ⟨by simp [hk, due], fun hcase => ?_, hoffered (by simp)⟩
    have hcounts : Frame.counts ⟨c, .settleForLess, n⟩ id = true := by simp [Frame.counts, here, Chain.head?]
    have hpos : k₀.spare.toNat ≠ 0 := fun h => spare (UInt32.toNat_inj.1 h)
    have hle := hspare hcase
    simp only [hk, toNat_pred_of_ne_zero spare, hframes, opened, List.countP_cons, hcounts, if_true]
    omega

end Machine.Tallied

end

end SpanRegex
