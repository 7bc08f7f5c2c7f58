import SpanRegex.Proofs.Nodes
import SpanRegex.Proofs.Shapes

/-! # Loops as sources of results

A loop is visited on the way in and after each repetition. One rule for each way in which such a
visit goes on; what the further visits yield is a hypothesis of the rules, so that the recursion
over the repetitions can be chosen to suit the loop.

* `Machine.begin`, `loopOn`: a visit of a loop, on the way in after it has been set up.
* `Setting.LoopYields`: from such a visit on, the loop is left at a list of offsets.
* `loopYields_leave`, `loopYields_due`, `loopYields_skip`, `loopYields_again`, `loopYields_less`,
  `loopYields_more`: the rules for visits; `chainYields_loop`: the rule for the node.
-/

namespace SpanRegex
set_option autoImplicit false

open Pattern (Chain Quantifier)
open Setting.Yields (Then Reports)

/-! ## Visits -/

/-- The machine after a repetition that is due has begun. -/
def Machine.begin (m : Machine) (id : Nat) : Machine :=
  if (m.counts.get id).due = 0 then m
  else m.setCount id { m.counts.get id with due := (m.counts.get id).due - 1 }

/-- A visit of a loop that is set up. -/
def loopOn (m : Machine) (c : Cursor) (id : Nat) (q : Quantifier) (body next : Chain) :
    Phase × Machine :=
  if (m.counts.get id).due = 0 then decideLoop m c id q body next
  else (.walk (c.descend body c.pos), m.begin id)

theorem visitLoop_eq (m : Machine) (c : Cursor) (id : Nat) (q : Quantifier) (body next : Chain) :
    visitLoop m c id q body next =
      loopOn (if c.entering then enterLoop m id q else m) c id q body next := by
  unfold visitLoop loopOn Machine.begin
  simp only [beq_iff_eq]
  split <;> split <;> rfl

/-- The terms of a loop without the siblings after it. -/
def loopTerms (id : Nat) (body : Chain) (low asks : Nat → Prop) (pins : Prop) : Terms :=
  ⟨fun i => i = id ∨ i ∈ body.ids, low, asks, fun i => asks i ∧ i ∉ body.ids, pins⟩

/-- From a visit at the offset on, the loop is left at offsets that satisfy `spec`. -/
def Setting.LoopYields (s : Setting) (low : Nat → Prop) (pins : Prop) (asks : Nat → Prop) (id : Nat)
    (q : Quantifier) (body next : Chain) (m : Machine) (pos : Nat) (spec : List Nat → Prop) : Prop :=
  ∀ above entering, s.Yields (loopTerms id body low asks pins) (Cursor.into next above) (m.begin id)
    (loopOn m ⟨.box id (.loop q) body next, above, pos, entering⟩ id q body next).1
    (loopOn m ⟨.box id (.loop q) body next, above, pos, entering⟩ id q body next).2 spec

section

variable {s : Setting} {low asks : Nat → Prop} {pins : Prop} {id : Nat} {q : Quantifier}
  {body next : Chain} {m : Machine} {pos : Nat} {spec specBody : List Nat → Prop}
  {specNext : Nat → List Nat → Prop}

theorem Setting.LoopYields.imp {spec' : List Nat → Prop}
    (h : s.LoopYields low pins asks id q body next m pos spec) (hspec : ∀ l, spec l → spec' l) :
    s.LoopYields low pins asks id q body next m pos spec' :=
  fun above entering => (h above entering).imp hspec

theorem Machine.begin_of_due (h : (m.counts.get id).due = 0) : m.begin id = m := by
  rw [Machine.begin, if_pos h]

theorem one_le_of_ne_zero {n : UInt32} (h : n ≠ 0) : 1 ≤ n := by
  rw [UInt32.le_iff_toNat_le]
  have hn : n.toNat ≠ 0 := fun h0 => h (UInt32.toNat_inj.1 h0)
  simpa using Nat.one_le_iff_ne_zero.2 hn

theorem toNat_pred_of_ne_zero {n : UInt32} (h : n ≠ 0) : (n - 1).toNat = n.toNat - 1 := by
  rw [UInt32.toNat_sub_of_le _ _ (one_le_of_ne_zero h), UInt32.toNat_one]

@[simp] theorem Machine.begin_guards (m : Machine) (id : Nat) : (m.begin id).guards = m.guards := by
  unfold Machine.begin
  split <;> rfl

theorem Machine.begin_back (m : Machine) (id : Nat) (low kept : Nat → Prop) :
    m.Back low kept (m.begin id) := by
  unfold Machine.begin
  split
  · exact .refl _ _ m
  · rename_i h
    have hpos := one_le_of_ne_zero h
    refine ⟨rfl, .of_eq rfl rfl, fun i _ hi => ?_, fun i _ => ?_, fun i _ => ?_⟩
    all_goals by_cases hid : id = i
    · exact absurd (by rw [hid, hi]) h
    · simpa [Machine.setCount, hid] using hi
    · subst hid
      simp [Machine.setCount, UInt32.toNat_sub_of_le _ _ hpos]
    · simp [Machine.setCount, hid]
    · subst hid
      simp [Machine.setCount]
    · simp [Machine.setCount, hid]

/-- The visit neither repeats nor may repeat. -/
theorem loopYields_leave (hdue : (m.counts.get id).due = 0)
    (hstay : (q.max = none ∧ m.guards.get id = some pos) ∨
      (q.max ≠ none ∧ (m.counts.get id).spare = 0)) (hspec : spec [pos]) :
    s.LoopYields low pins asks id q body next m pos spec := by
  intro above entering
  have hvisit : loopOn m ⟨.box id (.loop q) body next, above, pos, entering⟩ id q body next =
      (.walk (Cursor.into next above pos), m) := by
    rw [loopOn, if_pos hdue]
    rcases hstay with ⟨hmax, hguard⟩ | ⟨hmax, hspare⟩
    · simp only [decideLoop, hmax, hguard, beq_self_eq_true, if_true]
      rfl
    · obtain ⟨max, hmax⟩ := Option.ne_none_iff_exists'.1 hmax
      simp only [decideLoop, hmax, hspare, beq_self_eq_true, if_true]
      rfl
  rw [hvisit, Machine.begin_of_due hdue]
  exact .one (fun _ hi => hi.1) (.refl _ _ m) (fun _ _ => rfl) hspec

theorem Machine.setCount_writes {count : Count} (hlow : low id → m.counts.get id = {} → count = {}) :
    m.Writes (loopTerms id body low asks pins) (m.setCount id count) := by
  refine ⟨fun i hi => ?_, fun _ _ => rfl, fun i hi hm => ?_, .inr ⟨rfl, rfl⟩⟩
  · have hne : ¬ id = i := fun h => hi (.inl h.symm)
    simp [Machine.setCount, hne]
  · by_cases h : id = i
    · subst h
      simpa [Machine.setCount] using hlow hi hm
    · simpa [Machine.setCount, h] using hm

/-- A visit of a loop writes the values of that loop only. -/
theorem loopOn_writes (m : Machine) (c : Cursor) :
    m.Writes (loopTerms id body low asks pins) (loopOn m c id q body next).2 := by
  have hsame : ∀ m' : Machine, m'.counts = m.counts → m'.starts = m.starts →
      m'.startPinned = m.startPinned → m'.stopPinned = m.stopPinned →
      m.Writes (loopTerms id body low asks pins) m' := fun _ h1 h2 h3 h4 => .of_eq h1 h2 h3 h4
  unfold loopOn
  split
  · unfold decideLoop
    cases hmax : q.max with
    | none =>
      simp only
      split
      · exact .refl _ m
      · split <;> exact hsame _ (by simp [Machine.push]) (by simp [Machine.push])
          (by simp [Machine.push]) (by simp [Machine.push])
    | some max =>
      simp only
      split
      · exact .refl _ m
      · rename_i hspare
        split
        · exact hsame _ rfl rfl rfl rfl
        · refine (Machine.setCount_writes fun _ hm => ?_).trans (.of_eq rfl rfl rfl rfl)
          simp [hm] at hspare
  · rename_i hdue
    rw [Machine.begin, if_neg hdue]
    exact Machine.setCount_writes fun _ hm => absurd (by rw [hm]) hdue

/-- Users of the results keep what holds of the count of the loop, or there is at most one. -/
def HeldInUse (low kept : Nat → Prop) (id : Nat) (held : Count → Prop) (spec : List Nat → Prop) :
    Prop :=
  (∀ l, spec l → l.length ≤ 1) ∨ ∀ a b : Machine, a.Keeps low kept b →
    held (a.counts.get id) → held (b.counts.get id)

variable (q next) (hlimit : s.limit = none) (hne : body ≠ .nil) (hid : id ∉ body.ids)
  (hbody : s.ChainYields low pins (fun i => asks i ∧ i ∉ body.ids) body pos specBody)
  (held : Count → Prop) (hkept : HeldInUse low (fun i => asks i ∧ i ∉ body.ids) id held specBody)

include hlimit hid hbody hkept in
/-- One round: the children, then a visit of the loop at each of their results; `held` holds of the
count at each of these visits. -/
theorem loop_round (hheld : held (m.counts.get id))
    (hnext : ∀ e (m' : Machine), held (m'.counts.get id) → m'.guards.get id = m.guards.get id →
      Reports specBody e → s.LoopYields low pins asks id q body next m' e (specNext e))
    (above : List Chain) :
    s.Yields (loopTerms id body low asks pins) (Cursor.into next above) m
      (.walk (Cursor.into body (.box id (.loop q) body next :: above) pos)) m
      (Chained specBody specNext) := by
  let loop := Chain.box id (.loop q) body next
  let t := loopTerms id body low asks pins
  have hjoins : t.Joins (body.terms low (fun i => asks i ∧ i ∉ body.ids) pins) t := by
    refine ⟨?_, ⟨rfl, rfl⟩, fun i hi => hi, fun i hi => hi, fun i hi => ⟨hi, hi.2⟩,
      fun hp => hp.elim (fun h => h) fun h => h⟩
    rintro i (hi | hi)
    · exact .inr hi
    · exact hi
  refine Setting.Yields.bind (fun m => held (m.counts.get id)) hjoins (hbody (loop :: above) m) hheld
    ?_ (hkept.imp_right fun hkeep a b ha hab => hkeep a b hab.keeps ha) ?_
  · intro a b ha hab
    rw [hab.counts id hid]
    exact ha
  · intro e m' hm' hreports hext
    have hturn := s.turn_visit hlimit m' (c := ⟨loop, above, e, false⟩) (by simp [loop])
    have hvisit : s.visit m'.visited ⟨loop, above, e, false⟩ =
        loopOn m'.visited ⟨loop, above, e, false⟩ id q body next := by
      simp only [Setting.visit, loop, visitLoop_eq, Bool.false_eq_true, if_false]
    rw [hvisit] at hturn
    have hloop := hnext e m'.visited hm' (hext.guards id hid) hreports above false
    have hvisited : m'.Back low t.gives m'.visited := ⟨rfl, .of_eq rfl rfl, .of_eq rfl⟩
    have hsource := hloop.rebase (hvisited.trans (m'.visited.begin_back id low t.gives))
      fun i _ => by rw [Machine.begin_guards]; rfl
    have hcounted : m'.Writes t m'.visited := .of_eq rfl rfl rfl rfl
    exact hsource.after (.turn hturn (.refl _ _)) (hcounted.trans (loopOn_writes _ _))

variable {q next}

include hlimit hne hid hbody hkept in
theorem loopYields_due (hdue : (m.counts.get id).due ≠ 0)
    (hheld : held ((m.begin id).counts.get id))
    (hnext : ∀ e (m' : Machine), held (m'.counts.get id) → m'.guards.get id = m.guards.get id →
      Reports specBody e → s.LoopYields low pins asks id q body next m' e (specNext e)) :
    s.LoopYields low pins asks id q body next m pos (Chained specBody specNext) := by
  intro above entering
  have hround := loop_round q next hlimit hid hbody held hkept hheld
    (fun e m' hm' hguard => hnext e m' hm' (by rw [hguard, Machine.begin_guards])) above
  rw [loopOn, if_neg hdue]
  rw [Cursor.into_of_ne_nil hne] at hround
  exact hround

/-! ## Unbounded loops -/

theorem setGuard_extends (m : Machine) (id : Nat) (body : Chain) (low asks : Nat → Prop) (pins : Prop)
    (value : Option Nat) : m.Extends (loopTerms id body low asks pins) (m.setGuard id value) := by
  refine .of_eq (by simp) (m.setGuard_covers id _) fun i hi => ?_
  have hne : ¬ id = i := fun h => hi (.inl h.symm)
  simp [Machine.setGuard_guards, hne]

include hlimit hne hid hbody hkept in
/-- An unbounded greedy loop repeats before it goes on. -/
theorem loopYields_skip (hmax : q.max = none) (hlazy : q.lazy = false)
    (hdue : (m.counts.get id).due = 0) (hguard : m.guards.get id ≠ some pos)
    (hheld : held (m.counts.get id))
    (hnext : ∀ e (m' : Machine), held (m'.counts.get id) → m'.guards.get id = some pos →
      Reports specBody e → s.LoopYields low pins asks id q body next m' e (specNext e)) :
    s.LoopYields low pins asks id q body next m pos
      (Then (Chained specBody specNext) fun l => l = [pos]) := by
  intro above entering
  let c : Cursor := ⟨.box id (.loop q) body next, above, pos, entering⟩
  let t := loopTerms id body low asks pins
  let opened := (m.setGuard id (some pos)).push c .skip
  have hvisit : loopOn m c id q body next =
      (.walk (Cursor.into body (.box id (.loop q) body next :: above) pos), opened) := by
    rw [Cursor.into_of_ne_nil hne, loopOn, if_pos hdue]
    simp only [decideLoop, hmax, beq_iff_eq, c, if_neg hguard, hlazy]
    rfl
  have hopened : opened.guards.get id = some pos := by
    simp [opened, Machine.push, Machine.setGuard_guards]
  have hround := loop_round (m := opened) q next hlimit hid hbody held hkept
    (by simpa [opened, Machine.push] using hheld)
    (fun e m' hm' hguard' => hnext e m' hm' (hguard'.trans hopened)) above
  have hpass : Choice.skip.passing := ⟨by decide, by decide⟩
  have hext := setGuard_extends m id body low asks pins (some pos)
  rw [hvisit, Machine.begin_of_due hdue]
  refine Setting.Yields.choice hpass hext hround fun m' hrestores hkeeps => ⟨.refl _ _, ?_⟩
  have hset : m.Keeps low t.gives (m.setGuard id (some pos)) := .of_eq (by simp)
  exact .one (fun _ hi => hi.1) ⟨hrestores.frames.trans (by simp),
    hrestores.covers.trans hext.covers, hset.trans hkeeps⟩
    (fun i hi => (congrFun hrestores.guards i).trans (hext.guards i hi)) rfl

include hlimit hne hid hbody hkept in
/-- An unbounded lazy loop goes on before it repeats. -/
theorem loopYields_again (hmax : q.max = none) (hlazy : q.lazy = true)
    (hdue : (m.counts.get id).due = 0) (hguard : m.guards.get id ≠ some pos)
    (hheld : ∀ m' : Machine, m.Keeps low asks m' → held (m'.counts.get id))
    (hnext : ∀ e (m' : Machine), held (m'.counts.get id) → m'.guards.get id = some pos →
      Reports specBody e → s.LoopYields low pins asks id q body next m' e (specNext e)) :
    s.LoopYields low pins asks id q body next m pos
      (Then (fun l => l = [pos]) (Chained specBody specNext)) := by
  intro above entering
  let c : Cursor := ⟨.box id (.loop q) body next, above, pos, entering⟩
  let t := loopTerms id body low asks pins
  let opened := (m.setGuard id (some pos)).push c .again
  have hvisit : loopOn m c id q body next = (.walk (Cursor.into next above pos), opened) := by
    rw [loopOn, if_pos hdue]
    simp only [decideLoop, hmax, beq_iff_eq, c, if_neg hguard, hlazy]
    rfl
  have hpass : Choice.again.passing := ⟨by decide, by decide⟩
  have hext := setGuard_extends m id body low asks pins (some pos)
  have hset : m.Keeps low asks (m.setGuard id (some pos)) := .of_eq (by simp)
  rw [hvisit, Machine.begin_of_due hdue]
  refine Setting.Yields.offer hpass hext fun m' hrestores hkeeps => ⟨.refl _ _, ?_⟩
  have hkept' : m.Keeps low asks m' := hset.trans hkeeps
  have hguard' : m'.guards.get id = some pos := by
    rw [hrestores.guards]
    simp [Machine.setGuard_guards]
  have hround := loop_round (m := m') q next hlimit hid hbody held hkept (hheld m' hkept')
    (fun e m'' hm'' hguard'' => hnext e m'' hm'' (hguard''.trans hguard')) above
  rw [Cursor.into_of_ne_nil hne] at hround
  exact hround.rebase ⟨hrestores.frames.trans (by simp), hrestores.covers.trans hext.covers,
    hkept'.mono fun i hi => hi.1⟩
    fun i hi => (congrFun hrestores.guards i).trans (hext.guards i hi)

/-! ## Bounded loops -/

/-- The count of a loop with one repetition less to spare. -/
def Count.less (c : Count) : Count := { c with spare := c.spare - min c.spare 1 }

/-- The count of a loop with one repetition more to spare. -/
def Count.more (c : Count) : Count := { c with spare := c.spare + 1 }

theorem min_one_of_ne_zero {n : UInt32} (h : n ≠ 0) : min n 1 = 1 := by
  show (if n ≤ 1 then n else 1) = 1
  split
  · exact UInt32.le_antisymm ‹_› (one_le_of_ne_zero h)
  · rfl

theorem Count.toNat_less {c : Count} (hc : c.spare ≠ 0) : c.less.spare.toNat = c.spare.toNat - 1 := by
  rw [less, min_one_of_ne_zero hc, toNat_pred_of_ne_zero hc]

theorem Count.less_more {c d : Count} (hc : c.spare ≠ 0) (h : d.spare = c.less.spare) :
    d.more.spare = c.spare := by
  simp [more, h, less, min_one_of_ne_zero hc]

theorem Machine.Keeps.less {kept : Nat → Prop} {m' : Machine} (hlow : ¬ low id)
    (h : m.Keeps low kept m') :
    (m.setCount id (m.counts.get id).less).Keeps low kept
      (m'.setCount id (m'.counts.get id).less) := by
  refine ⟨fun i hi hm => ?_, fun i hi => ?_, fun i hi => ?_⟩
  · have hne : ¬ id = i := fun h => hlow (h ▸ hi)
    simp only [Machine.setCount, Store.get_set, if_neg hne] at hm ⊢
    exact h.low i hi hm
  · have hdue := h.due i hi
    by_cases hid : id = i
    · subst hid
      simpa [Machine.setCount, Count.less] using hdue
    · simpa [Machine.setCount, hid] using hdue
  · have hspare := h.spare i hi
    by_cases hid : id = i
    · subst hid
      simp [Machine.setCount, Count.less, hspare]
    · simpa [Machine.setCount, hid] using hspare

/-- Giving a repetition back to a loop that had one to spare restores its count. -/
theorem giveBack_back {kept : Nat → Prop} {m' : Machine} (hlow : ¬ low id)
    (hspare : (m.counts.get id).spare ≠ 0) (hrestores : m.Restores m')
    (hkeeps : (m.setCount id (m.counts.get id).less).Keeps low kept m') :
    m.Back low kept (m'.setCount id (m'.counts.get id).more) := by
  have hset : ∀ i, (m.setCount id (m.counts.get id).less).counts.get i =
      if id = i then (m.counts.get id).less else m.counts.get i := fun i => by simp [Machine.setCount]
  have hset' : ∀ i, (m'.setCount id (m'.counts.get id).more).counts.get i =
      if id = i then (m'.counts.get id).more else m'.counts.get i := fun i => by
    simp [Machine.setCount]
  refine ⟨hrestores.frames, hrestores.covers, ⟨fun i hi hm => ?_, fun i hi => ?_, fun i hi => ?_⟩⟩
  · have hne : ¬ id = i := fun h => hlow (h ▸ hi)
    have h := hkeeps.low i hi
    rw [hset, if_neg hne] at h
    rw [hset', if_neg hne]
    exact h hm
  · have h := hkeeps.due i hi
    rw [hset] at h
    rw [hset']
    by_cases hid : id = i
    · subst hid
      simpa [Count.more, Count.less] using h
    · simpa [hid] using h
  · have h := hkeeps.spare i hi
    rw [hset] at h
    rw [hset']
    by_cases hid : id = i
    · subst hid
      simpa using Count.less_more hspare (by simpa using h)
    · simpa [hid] using h

include hlimit hne hid hbody hkept in
/-- A bounded greedy loop repeats before it goes on. -/
theorem loopYields_less (hlow : ¬ low id) (hmax : q.max ≠ none) (hlazy : q.lazy = false)
    (hdue : (m.counts.get id).due = 0) (hspare : (m.counts.get id).spare ≠ 0)
    (hheld : held (m.counts.get id).less)
    (hnext : ∀ e (m' : Machine), held (m'.counts.get id) → Reports specBody e →
      s.LoopYields low pins asks id q body next m' e (specNext e)) :
    s.LoopYields low pins asks id q body next m pos
      (Then (Chained specBody specNext) fun l => l = [pos]) := by
  intro above entering
  let c : Cursor := ⟨.box id (.loop q) body next, above, pos, entering⟩
  let t := loopTerms id body low asks pins
  let taken := m.setCount id (m.counts.get id).less
  have hvisit : loopOn m c id q body next =
      (.walk (Cursor.into body (.box id (.loop q) body next :: above) pos),
        taken.push c .settleForLess) := by
    obtain ⟨max, hmax⟩ := Option.ne_none_iff_exists'.1 hmax
    rw [Cursor.into_of_ne_nil hne, loopOn, if_pos hdue]
    simp only [decideLoop, hmax, beq_iff_eq, c, if_neg hspare, hlazy, taken, Count.less,
      min_one_of_ne_zero hspare]
    rfl
  have hround := loop_round (m := taken.push c .settleForLess) q next hlimit hid hbody held hkept
    (by simpa [taken, Machine.push, Machine.setCount] using hheld)
    (fun e m' hm' _ => hnext e m' hm') above
  have hpass : Choice.settleForLess.passing := ⟨by decide, by decide⟩
  have hpass' : Choice.giveBack.passing := ⟨by decide, by decide⟩
  have htaken : m.Restores taken := ⟨rfl, rfl, rfl⟩
  have hext : m.Extends t taken := .of_eq rfl (.of_eq rfl rfl) fun _ _ => rfl
  rw [hvisit, Machine.begin_of_due hdue]
  refine Setting.Yields.choice hpass hext hround fun m' hrestores hkeeps =>
    ⟨.of_eq rfl rfl rfl rfl, ?_⟩
  have hext' : m.Extends t m' := .of_eq hrestores.frames hrestores.covers
    fun i _ => congrFun hrestores.guards i
  -- The loop is left; going back once more gives the repetition back.
  have hgive : s.Yields t (Cursor.into next above) m (.walk (Cursor.into next above pos))
      (m'.push c .giveBack) (Then (fun l => l = [pos]) fun l => l = []) :=
    .offer hpass' hext' fun m₂ hrestores₂ hkeeps₂ =>
      ⟨Machine.setCount_writes fun hi => absurd hi hlow,
        .done (.refl _ _) (.refl t _)
          (giveBack_back hlow hspare ((htaken.trans hrestores).trans hrestores₂)
            (hkeeps.trans (hkeeps₂.mono fun i hi => hi.1))) rfl⟩
  refine hgive.imp ?_
  rintro _ ⟨_, _, rfl, rfl, rfl⟩
  rfl

include hlimit hne hid hbody hkept in
/-- A bounded lazy loop goes on before it repeats. -/
theorem loopYields_more (hlow : ¬ low id) (hmax : q.max ≠ none) (hlazy : q.lazy = true)
    (hdue : (m.counts.get id).due = 0) (hspare : (m.counts.get id).spare ≠ 0)
    (hheld : ∀ m' : Machine, m.Keeps low asks m' → held (m'.counts.get id).less)
    (hnext : ∀ e (m' : Machine), held (m'.counts.get id) → Reports specBody e →
      s.LoopYields low pins asks id q body next m' e (specNext e)) :
    s.LoopYields low pins asks id q body next m pos
      (Then (fun l => l = [pos]) (Chained specBody specNext)) := by
  intro above entering
  let c : Cursor := ⟨.box id (.loop q) body next, above, pos, entering⟩
  let t := loopTerms id body low asks pins
  have hvisit : loopOn m c id q body next =
      (.walk (Cursor.into next above pos), m.push c .oneMore) := by
    obtain ⟨max, hmax⟩ := Option.ne_none_iff_exists'.1 hmax
    rw [loopOn, if_pos hdue]
    simp only [decideLoop, hmax, beq_iff_eq, c, if_neg hspare, hlazy]
    rfl
  have hpass : Choice.oneMore.passing := ⟨by decide, by decide⟩
  have hpass' : Choice.giveBack.passing := ⟨by decide, by decide⟩
  have hext : m.Extends t m := .refl t m
  rw [hvisit, Machine.begin_of_due hdue]
  refine Setting.Yields.offer hpass hext fun m' hrestores hkeeps => ?_
  -- The children over the choice that gives the repetition back.
  let taken := m'.setCount id (m'.counts.get id).less
  have htaken : m'.Restores taken := ⟨rfl, rfl, rfl⟩
  have hwrites : m'.Writes t taken := Machine.setCount_writes fun hi => absurd hi hlow
  have hless : (m.setCount id (m.counts.get id).less).Keeps low t.gives taken :=
    (hkeeps.mono fun i hi => hi.1).less hlow
  have hext' : m.Extends t taken := .of_eq hrestores.frames hrestores.covers
    fun i _ => congrFun hrestores.guards i
  have hround := loop_round (m := taken.push c .giveBack) q next hlimit hid hbody held hkept
    (by simpa [taken, Machine.push, Machine.setCount] using hheld m' hkeeps)
    (fun e m' hm' _ => hnext e m' hm') above
  rw [Cursor.into_of_ne_nil hne] at hround
  have hgive : s.Yields t (Cursor.into next above) m (.walk (c.descend body pos))
      (taken.push c .giveBack) (Then (Chained specBody specNext) fun l => l = []) :=
    .choice hpass' hext' hround fun m₂ hrestores₂ hkeeps₂ =>
      ⟨Machine.setCount_writes fun hi => absurd hi hlow,
        .done (.refl _ _) (.refl t _)
          (giveBack_back hlow hspare (hrestores.trans (htaken.trans hrestores₂))
            (hless.trans hkeeps₂)) rfl⟩
  refine ⟨hwrites.trans (.of_eq rfl rfl rfl rfl), hgive.imp ?_⟩
  rintro _ ⟨l, _, hl, rfl, rfl⟩
  simpa using hl

/-! ## The node -/

theorem enterLoop_counts (m : Machine) (id : Nat) (q : Quantifier) :
    (enterLoop m id q).counts = m.counts.set id ⟨q.min, q.spare⟩ := by
  simp only [enterLoop, Machine.setGuard_counts, Machine.setCount]
  rfl

theorem Machine.begin_counts_ne {i : Nat} (h : ¬ id = i) :
    (m.begin id).counts.get i = m.counts.get i := by
  unfold Machine.begin
  split
  · rfl
  · simp [Machine.setCount, h]

/-- After a repetition that is due has begun, nothing is left of a count of at most one. -/
theorem Machine.begin_counts_nil {due : UInt32} (hcount : m.counts.get id = ⟨due, 0⟩)
    (hdue : due.toNat ≤ 1) : (m.begin id).counts.get id = {} := by
  unfold Machine.begin
  rw [hcount]
  split
  · rename_i h
    have h0 : due = 0 := h
    rw [hcount, h0]
  · rename_i h
    have h1 : due = 1 := UInt32.toNat_inj.1
      (Nat.le_antisymm hdue (by simpa using UInt32.le_iff_toNat_le.1 (one_le_of_ne_zero h)))
    simp [Machine.setCount, h1]

/-- A loop without repetitions to spare leaves its count as the repetition that is due does. -/
theorem loopOn_counts (hspare : (m.counts.get id).spare = 0) (c : Cursor) :
    (loopOn m c id q body next).2.counts = (m.begin id).counts := by
  unfold loopOn
  split
  · rename_i hdue
    rw [Machine.begin_of_due hdue]
    unfold decideLoop
    cases q.max with
    | none =>
      simp only
      split
      · rfl
      · split <;> simp [Machine.push]
    | some max => simp [hspare]
  · rfl

/-! ### Setting up -/

theorem enterLoop_counts_ne {i : Nat} (h : ¬ id = i) :
    (enterLoop m id q).counts.get i = m.counts.get i := by
  simp [enterLoop_counts, h]

theorem enterLoop_guards_ne {i : Nat} (h : ¬ id = i) :
    (enterLoop m id q).guards.get i = m.guards.get i := by
  simp [enterLoop, Machine.setGuard_guards, h, Machine.setCount]

variable (hlow : low id → q.min.toNat ≤ 1 ∧ q.spare = 0)

include hlow

/-- A loop that counts nothing has a count of nothing once its first repetition has begun. -/
theorem enterLoop_begin_nil (hi : low id) : ((enterLoop m id q).begin id).counts.get id = {} := by
  obtain ⟨hmin, hspare⟩ := hlow hi
  exact Machine.begin_counts_nil (by simp [enterLoop_counts, hspare]) hmin

/-- Setting up a loop opens no choice and keeps all counts but that of the loop. -/
theorem enterLoop_back {kept : Nat → Prop} (hkept : ∀ i, kept i → ¬ id = i) :
    m.Back low kept ((enterLoop m id q).begin id) := by
  have hbegin := (enterLoop m id q).begin_back id low kept
  have hcovers : (enterLoop m id q).Covers m := Machine.setGuard_covers _ id none
  have hcounts : ∀ i, ¬ id = i → ((enterLoop m id q).begin id).counts.get i = m.counts.get i :=
    fun i h => by rw [Machine.begin_counts_ne h, enterLoop_counts_ne h]
  refine ⟨hbegin.frames.trans (by simp [enterLoop, Machine.setCount]), hbegin.covers.trans hcovers,
    ⟨fun i hi hm => ?_, fun i hi => ?_, fun i hi => ?_⟩⟩
  · by_cases h : id = i
    · subst h
      exact enterLoop_begin_nil hlow hi
    · rw [hcounts i h, hm]
  · exact Nat.le_of_eq (by rw [hcounts i (hkept i hi)])
  · rw [hcounts i (hkept i hi)]

/-- Setting up a loop and visiting it writes values of its node only. -/
theorem enterLoop_writes (c : Cursor) :
    m.Writes ((Chain.box id (.loop q) body next).terms low asks pins)
      (loopOn (enterLoop m id q) c id q body next).2 := by
  have hvisit : (enterLoop m id q).Writes (loopTerms id body low asks pins)
      (loopOn (enterLoop m id q) c id q body next).2 := loopOn_writes _ _
  have hown : ∀ i, i ∉ (Chain.box id (.loop q) body next).ids →
      ¬ (loopTerms id body low asks pins).own i := by
    rintro i hi (rfl | h)
    · exact hi List.mem_cons_self
    · exact hi (Chain.mem_ids_of_body h)
  have hother : ∀ i, i ∉ (Chain.box id (.loop q) body next).ids → ¬ id = i :=
    fun i hi h => hi (h ▸ List.mem_cons_self)
  refine ⟨fun i hi => ?_, fun i hi => ?_, fun i hi hm => ?_, hvisit.pins.imp_right fun h => ?_⟩
  · rw [hvisit.counts i (hown i hi), enterLoop_counts_ne (hother i hi)]
  · rw [hvisit.starts i (hown i hi)]
    simp [enterLoop, Machine.setCount]
  · by_cases h : id = i
    · subst h
      rw [loopOn_counts (by simp [enterLoop_counts, (hlow hi).2])]
      exact enterLoop_begin_nil hlow hi
    · exact hvisit.low i hi (by rw [enterLoop_counts_ne h, hm])
  · exact ⟨h.1.trans (by simp [enterLoop, Machine.setCount]),
      h.2.trans (by simp [enterLoop, Machine.setCount])⟩

/-- A loop that is entered is set up, then visited. -/
theorem chainYields_loop (hlimit : s.limit = none)
    (hloop : ∀ m : Machine, m.counts.get id = ⟨q.min, q.spare⟩ → m.guards.get id = none →
      s.LoopYields low pins (fun i => asks i ∧ i ∉ next.ids) id q body next m pos spec)
    (hnext : ∀ e, Reports spec e → s.ChainYields low pins asks next e (specNext e)) :
    s.ChainYields low pins asks (.box id (.loop q) body next) pos (Chained spec specNext) := by
  intro above m
  let loop := Chain.box id (.loop q) body next
  let t := loop.terms low asks pins
  let entered := enterLoop m.visited id q
  have hcount : entered.counts.get id = ⟨q.min, q.spare⟩ := by simp [entered, enterLoop_counts]
  have hguard : entered.guards.get id = none := by
    simp [entered, enterLoop, Machine.setGuard_guards]
  have hjoins : t.Joins (loopTerms id body low (fun i => asks i ∧ i ∉ next.ids) pins)
      (next.terms low asks pins) := joins_next fun _ hi => hi
  have hsource := Setting.Yields.bind_any hjoins (hloop entered hcount hguard above true)
    fun e m' he => hnext e he above m'
  have hturn := s.turn_visit hlimit m (c := ⟨loop, above, pos, true⟩) (by simp [loop])
  have hvisit : s.visit m.visited ⟨loop, above, pos, true⟩ =
      loopOn entered ⟨loop, above, pos, true⟩ id q body next := by
    simp only [Setting.visit, loop, visitLoop_eq, if_true, entered]
  rw [hvisit] at hturn
  have hother : ∀ i, ¬ t.own i → ¬ id = i := fun i hi h => hi (h ▸ List.mem_cons_self)
  have hback : m.Back low t.gives (entered.begin id) := by
    have hkeeps : m.Keeps low t.gives m.visited := .of_eq rfl
    have h := enterLoop_back (m := m.visited) hlow fun i (hi : t.gives i) => hother i hi.2
    exact ⟨h.frames, h.covers, hkeeps.trans h.keeps⟩
  have hguards : ∀ i, ¬ t.own i → (entered.begin id).guards.get i = m.guards.get i := fun i hi => by
    rw [Machine.begin_guards, enterLoop_guards_ne (hother i hi)]
    rfl
  have hvisited : m.Writes t m.visited := .of_eq rfl rfl rfl rfl
  exact (hsource.rebase hback hguards).after (.turn hturn (.refl _ _))
    (hvisited.trans (enterLoop_writes hlow _))

end
end SpanRegex
