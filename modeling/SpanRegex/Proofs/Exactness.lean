import SpanRegex.Proofs.Repeats

/-! # Chains that yield exactly their ends

A chain is steady if backtracking cannot spoil the count of a loop in it. Such a chain yields its
ends, in their order.

* `ends_loopSpec`: the ends of repetitions fit together.
* `Quantifier.steady`, `Chain.steady`: when the count of a loop stands, inside another loop or not.
* `chainYields_steady`: a steady chain yields its ends.
-/

namespace SpanRegex
set_option autoImplicit false

open Pattern (Chain Leaf Quantifier)
open Setting.Yields (Then Reports)

/-! ## Lists of results -/

theorem Chained.eq_flatMap {es l : List Nat} {f : Nat → List Nat}
    (h : Chained (fun l => l = es) (fun e l => l = f e) l) : l = es.flatMap f := by
  obtain ⟨_, rfl, heach⟩ := h
  induction heach with
  | nil => rfl
  | cons head tail ih => rw [head, ih]; rfl

theorem Setting.Yields.Reports.mem {es : List Nat} {e : Nat} (h : Reports (fun l => l = es) e) :
    e ∈ es := by
  obtain ⟨l, l', rfl⟩ := h
  simp

theorem Tries.eq {lazy : Bool} {pos : Nat} {spec : List Nat → Prop} {es l : List Nat}
    (h : Tries lazy pos spec l) (hspec : ∀ l, spec l → l = es) :
    l = if lazy then pos :: es else es ++ [pos] := by
  cases lazy with
  | false =>
    obtain ⟨l₁, _, hl, rfl, rfl⟩ := h
    rw [hspec l₁ hl]
    rfl
  | true =>
    obtain ⟨_, l₂, rfl, hl, rfl⟩ := h
    rw [hspec l₂ hl]
    rfl

theorem ends_loopSpec (q : Quantifier) {stop : Nat} {step : Nat → List Nat} (h : Bounded stop step) :
    LoopSpec q stop (fun pos l => l = step pos)
      (fun n pos l => l = (Repeat.timesEnds step n pos).flatMap (Repeat.restEnds q step stop))
      (fun n pos l => l = Repeat.upToEnds q.lazy step n pos)
      (fun pos l => l = Repeat.manyEnds q.lazy step stop pos) where
  bounds pos e hpos hreports := ⟨(h pos e hreports.mem).1, (h pos e hreports.mem).2 hpos⟩
  due_succ n pos l hl := by rw [hl.eq_flatMap, Repeat.timesEnds, List.flatMap_assoc]
  due_many hmax pos l hl := by
    simpa [Repeat.timesEnds, Repeat.restEnds, Quantifier.spare?, hmax] using hl
  due_spare hmax pos l hl := by
    obtain ⟨bound, hmax⟩ := Option.ne_none_iff_exists'.1 hmax
    simpa [Repeat.timesEnds, Repeat.restEnds, Quantifier.spare?_of_max hmax] using hl
  spare_zero _ _ := rfl
  spare_succ _ _ _ _ hl := hl.eq fun _ => Chained.eq_flatMap
  many_tries pos l hpos hl := by
    rw [Repeat.manyEnds_eq h q.lazy hpos]
    refine hl.eq fun l hl => Chained.eq_flatMap ?_
    obtain ⟨es, hes, heach⟩ := hl
    refine ⟨es, hes, ?_⟩
    clear hes
    induction heach with
    | nil => exact .nil
    | @cons e es l ls head tail ih =>
      refine .cons ?_ ih
      by_cases heq : e = pos
      · simpa [heq] using head
      · simpa [heq] using head

theorem chainYields_repeat {s : Setting} (hlimit : s.limit = none) {low asks : Nat → Prop}
    {pins : Prop} {id : Nat} {q : Quantifier} {body next : Chain}
    (hplaced : (Chain.box id (.loop q) body next).Placed low)
    (hbody : ∀ pos, pos ≤ s.input.stop → s.ChainYields low pins
      (fun i => (asks i ∧ i ∉ next.ids) ∧ i ∉ body.ids) body pos fun l => l = s.ends body pos)
    (hnext : ∀ pos, pos ≤ s.input.stop →
      s.ChainYields low pins asks next pos fun l => l = s.ends next pos)
    (hrest : RestKept s.input.stop low asks id q fun pos l => l = s.ends body pos)
    (hdue : DueKept s.input.stop low asks id q fun pos l => l = s.ends body pos)
    {pos : Nat} (hpos : pos ≤ s.input.stop) :
    s.ChainYields low pins asks (.box id (.loop q) body next) pos
      fun l => l = s.ends (.box id (.loop q) body next) pos := by
  have hin : asks id → asks id ∧ id ∉ next.ids := fun h => ⟨h, hplaced.id_notMem.2⟩
  have hcountless := hplaced.loop.1
  have hbounds := s.ends_bounds body
  have hloop := fun m hcount hguard =>
    loopYields_kept next hlimit (ends_loopSpec q hbounds) hplaced.body_ne_nil
      hplaced.id_notMem.1 hbody hcountless (hrest.imp_right (Or.imp_left hin))
      (hdue.imp_right (Or.imp_left fun h => ⟨hin h.1, h.2⟩)) q.min.toNat (Nat.le_refl _) pos hpos m
      q.min rfl hcount hguard
  refine (chainYields_loop (fun h => ⟨(Quantifier.countless_iff.1 (hcountless h)).1,
    Quantifier.spare_countless (hcountless h)⟩) hlimit hloop fun e hreports => hnext e ?_).imp
    fun l hl => ?_
  · exact ((hbounds.timesEnds _).flatMap (hbounds.restEnds q) pos e hreports.mem).2 hpos
  · rw [hl.eq_flatMap]
    rfl

theorem passes_eq {s : Setting} {look : Pattern.Look} {body : Chain} {pos : Nat} {found : Bool}
    (h : LookFinds look pos (fun l => l = s.ends body (pos - look.behind.getD 0)) found) :
    look.passes pos (fun p => !(s.ends body p).isEmpty) = (found != look.negated) := by
  unfold Pattern.Look.passes
  congr 1
  cases found with
  | true =>
    obtain ⟨hle, e, l, hl⟩ := h
    simp [hle, ← hl]
  | false =>
    by_cases hle : look.behind.getD 0 ≤ pos
    · simp [← h hle]
    · simp [hle]

/-! ## Steady chains -/

/-- The count of the loop stands: it counts nothing, or it belongs to an outermost loop that owes
one repetition at most, or its children have one end at most and it is greedy, exact or outermost. -/
def Pattern.Quantifier.steady (q : Quantifier) (nested rigid : Bool) : Bool :=
  q.countless || (!nested && q.min ≤ 1) || (rigid && (!nested || !q.lazy || q.max == some q.min))

/-- No leaf is a reference, and the count of every loop stands. The children of a look are
in no loop, as they are not returned to. -/
def Pattern.Chain.steady (nested : Bool) : Chain → Bool
  | .nil => true
  | .leaf _ op next => op.plain && next.steady nested
  | .box _ op body next =>
    next.steady nested && match op with
      | .group _ | .alternative => body.steady nested
      | .look _ => body.steady false
      | .loop q => body.steady true && q.steady nested body.rigid

theorem chainYields_steady_loop {s : Setting} (hlimit : s.limit = none) {low asks : Nat → Prop}
    {pins : Prop} {id : Nat} {q : Quantifier} {body next : Chain} {nested : Bool}
    (hplaced : (Chain.box id (.loop q) body next).Placed low)
    (hsteady : q.steady nested body.rigid = true) (hid : nested = false → asks id)
    (hbody : ∀ pos, pos ≤ s.input.stop → s.ChainYields low pins
      (fun i => (asks i ∧ i ∉ next.ids) ∧ i ∉ body.ids) body pos fun l => l = s.ends body pos)
    (hnext : ∀ pos, pos ≤ s.input.stop →
      s.ChainYields low pins asks next pos fun l => l = s.ends next pos)
    {pos : Nat} (hpos : pos ≤ s.input.stop) :
    s.ChainYields low pins asks (.box id (.loop q) body next) pos
      fun l => l = s.ends (.box id (.loop q) body next) pos := by
  have hone : body.rigid = true → ∀ pos, pos ≤ s.input.stop → ∀ l, l = s.ends body pos →
      l.length ≤ 1 := fun hrigid pos _ l hl => hl ▸ s.ends_rigid hrigid pos
  simp only [Quantifier.steady, Bool.or_eq_true, Bool.and_eq_true, Bool.not_eq_true',
    decide_eq_true_eq, beq_iff_eq] at hsteady
  -- The count stands because it is nothing, because no user enters the loop, or because there is
  -- no second result to go back to.
  rcases hsteady with (hcountless | ⟨hn, hmin⟩) | ⟨hrigid, hor⟩
  · have hlow := hplaced.loop.2 hcountless
    exact chainYields_repeat hlimit hplaced hbody hnext (.inl hlow) (.inl hlow) hpos
  · exact chainYields_repeat hlimit hplaced hbody hnext (.inr (.inl (hid hn)))
      (.inr (.inl ⟨hid hn, UInt32.le_iff_toNat_le.1 hmin⟩)) hpos
  · refine chainYields_repeat hlimit hplaced hbody hnext ?_ (.inr (.inr (hone hrigid))) hpos
    rcases hor with (hn | hgreedy) | hexact
    · exact .inr (.inl (hid hn))
    · exact .inr (.inr ⟨hone hrigid, .inl hgreedy⟩)
    · exact .inr (.inr ⟨hone hrigid, .inr hexact⟩)

/-- A steady chain yields its ends, in their order. -/
theorem chainYields_steady {s : Setting} (hlimit : s.limit = none) {low : Nat → Prop} {pins : Prop}
    (c : Chain) : ∀ (asks : Nat → Prop) (nested : Bool), c.Placed low → c.steady nested = true →
      (pins ∨ c.unpinned = true) → (nested = false → ∀ i ∈ c.ids, asks i) → ∀ pos,
      pos ≤ s.input.stop → s.ChainYields low pins asks c pos fun l => l = s.ends c pos := by
  induction c with
  | nil => exact fun _ _ _ _ _ _ pos _ => chainYields_nil rfl
  | leaf id op next ih =>
    intro asks nested hplaced hsteady hpins hasks pos hpos
    simp only [Chain.steady, Bool.and_eq_true] at hsteady
    obtain ⟨hplain, hnext⟩ := hsteady
    refine chainYields_leaf hlimit (fun edge hedge =>
      hpins.resolve_right fun h => (Chain.unpinned_leaf h).1 edge hedge) ?_ ?_
    · intro captures hread
      rw [s.read_plain hplain] at hread
      simp [Setting.ends, hread]
    · intro captures e hread
      have he := (s.read_bounds hread).2 hpos
      rw [s.read_plain hplain] at hread
      refine (ih asks nested hplaced.ofLeaf hnext (hpins.imp_right fun h => (Chain.unpinned_leaf h).2)
        (fun hn i hi => hasks hn i (List.mem_cons_of_mem _ hi)) e he).imp fun l hl => ?_
      simp [Setting.ends, hread, hl]
  | box id op body next ihbody ihnext =>
    intro asks nested hplaced hsteady hpins hasks pos hpos
    simp only [Chain.steady, Bool.and_eq_true] at hsteady
    obtain ⟨hsnext, hop⟩ := hsteady
    have hpbody := hpins.imp_right fun h => (Chain.unpinned_box h).1
    have hnext : ∀ pos, pos ≤ s.input.stop →
        s.ChainYields low pins asks next pos fun l => l = s.ends next pos :=
      ihnext asks nested hplaced.ofNext hsnext (hpins.imp_right fun h => (Chain.unpinned_box h).2)
        fun hn i hi => hasks hn i (Chain.mem_ids_of_next hi)
    cases op with
    | group capture =>
      have hbody := ihbody (fun i => asks i ∧ i ∉ next.ids) nested hplaced.ofBody hop hpbody
        (fun hn i hi => ⟨hasks hn i (Chain.mem_ids_of_body hi), hplaced.disjoint hi⟩) pos hpos
      refine (chainYields_group hlimit hplaced.body_ne_nil hbody fun e hreports =>
        hnext e ((s.ends_bounds body pos e hreports.mem).2 hpos)).imp fun l hl => hl.eq_flatMap
    | alternative =>
      have hbody := ihbody asks nested hplaced.ofBody hop hpbody
        (fun hn i hi => hasks hn i (Chain.mem_ids_of_body hi)) pos hpos
      refine (chainYields_alternative hlimit hplaced.body_ne_nil hbody (hnext pos hpos)).imp ?_
      rintro _ ⟨_, _, rfl, rfl, rfl⟩
      rfl
    | look look =>
      have hbody : s.ChainYields low pins (fun _ => True) body (pos - look.behind.getD 0)
          fun l => l = s.ends body (pos - look.behind.getD 0) :=
        ihbody (fun _ => True) false hplaced.ofBody hop hpbody (fun _ _ _ => trivial) _ (by omega)
      refine chainYields_look hlimit hplaced.body_ne_nil (fun _ => hbody) fun found hfinds => ?_
      have hends : s.ends (.box id (.look look) body next) pos =
          if found != look.negated then s.ends next pos else [] := by
        rw [← passes_eq hfinds]
        rfl
      rw [hends]
      split
      · exact hnext pos hpos
      · rfl
    | loop q =>
      simp only [Bool.and_eq_true] at hop
      obtain ⟨hsbody, hq⟩ := hop
      have hbody := ihbody (fun i => (asks i ∧ i ∉ next.ids) ∧ i ∉ body.ids) true hplaced.ofBody
        hsbody hpbody (by simp)
      exact chainYields_steady_loop hlimit hplaced hq (fun hn => hasks hn id List.mem_cons_self) hbody
        hnext hpos

end SpanRegex
