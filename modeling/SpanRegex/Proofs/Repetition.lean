import SpanRegex.Proofs.Priority

/-! # Repetitions and their bounds

* `InRow`: matches in a row.
* `Setting.Matches`: what a chain matches, without an order of trials; `Setting.mem_ends`.
* `exec_repeat`: a repetition finds as many matches of its item in a row as its bounds allow, where
  backtracking cannot spoil its count.
-/

namespace SpanRegex
set_option autoImplicit false

open Pattern (Chain Quantifier)

/-! ## Matches in a row -/

/-- As many matches in a row lead from one offset to another. -/
inductive InRow (step : Nat → Nat → Prop) : Nat → Nat → Nat → Prop
  | nil (pos : Nat) : InRow step 0 pos pos
  | cons {n pos mid e : Nat} (first : step pos mid) (rest : InRow step n mid e) :
      InRow step (n + 1) pos e

/-- The number of repetitions lies between the bounds; a greatest number below the least stands for
the least. -/
def Pattern.Quantifier.allows (q : Quantifier) (n : Nat) : Prop :=
  q.min.toNat ≤ n ∧ ∀ bound, q.max = some bound → n ≤ Nat.max q.min.toNat bound.toNat

theorem Pattern.Quantifier.allows_iff {q : Quantifier} (h : ∀ bound, q.max = some bound → q.min ≤ bound)
    (n : Nat) : q.allows n ↔ q.min.toNat ≤ n ∧ ∀ bound, q.max = some bound → n ≤ bound.toNat := by
  refine and_congr_right fun _ => forall_congr' fun bound => imp_congr_right fun hbound => ?_
  have hle := UInt32.le_iff_toNat_le.1 (h bound hbound)
  rw [show Nat.max q.min.toNat bound.toNat = bound.toNat from Nat.max_eq_right hle]

namespace InRow

variable {step : Nat → Nat → Prop} {steps : Nat → List Nat} {stop : Nat}

theorem append {n k pos mid e : Nat} (h : InRow step n pos mid) (h' : InRow step k mid e) :
    InRow step (n + k) pos e := by
  induction h with
  | nil pos => rwa [Nat.zero_add]
  | cons first rest ih => rw [Nat.add_right_comm]; exact .cons first (ih h')

theorem split {n k pos e : Nat} (h : InRow step (n + k) pos e) :
    ∃ mid, InRow step n pos mid ∧ InRow step k mid e := by
  induction n generalizing pos with
  | zero =>
    rw [Nat.zero_add] at h
    exact ⟨pos, .nil pos, h⟩
  | succ n ih =>
    rw [Nat.add_right_comm] at h
    cases h with
    | cons first rest =>
      obtain ⟨mid, hn, hk⟩ := ih rest
      exact ⟨mid, .cons first hn, hk⟩

variable (hbounded : Bounded stop steps)
  (hstep : ∀ pos, pos ≤ stop → ∀ e, e ∈ steps pos ↔ step pos e)

include hbounded hstep in
theorem mem_timesEnds (n : Nat) : ∀ pos, pos ≤ stop → ∀ e,
    e ∈ Repeat.timesEnds steps n pos ↔ InRow step n pos e := by
  induction n with
  | zero =>
    intro pos _ e
    constructor
    · intro he
      obtain rfl := List.mem_singleton.1 he
      exact .nil e
    · intro h
      cases h
      exact List.mem_singleton_self _
  | succ n ih =>
    intro pos hpos e
    constructor
    · intro he
      obtain ⟨mid, hmid, he⟩ := List.mem_flatMap.1 he
      have hle := (hbounded pos mid hmid).2 hpos
      exact .cons ((hstep pos hpos mid).1 hmid) ((ih mid hle e).1 he)
    · intro h
      cases h with
      | cons first rest =>
        have hmid := (hstep pos hpos _).2 first
        exact List.mem_flatMap.2 ⟨_, hmid, (ih _ ((hbounded pos _ hmid).2 hpos) e).2 rest⟩

include hbounded hstep in
theorem mem_upToEnds (lazy : Bool) (n : Nat) : ∀ pos, pos ≤ stop → ∀ e,
    e ∈ Repeat.upToEnds lazy steps n pos ↔ ∃ k, k ≤ n ∧ InRow step k pos e := by
  induction n with
  | zero =>
    intro pos _ e
    constructor
    · intro he
      obtain rfl := List.mem_singleton.1 he
      exact ⟨0, Nat.le_refl 0, .nil e⟩
    · rintro ⟨k, hk, h⟩
      obtain rfl := Nat.le_zero.1 hk
      cases h
      exact List.mem_singleton_self _
  | succ n ih =>
    intro pos hpos e
    have hor : e ∈ Repeat.upToEnds lazy steps (n + 1) pos ↔
        e = pos ∨ ∃ mid ∈ steps pos, e ∈ Repeat.upToEnds lazy steps n mid := by
      cases lazy <;> simp [Repeat.upToEnds, List.mem_flatMap, or_comm]
    rw [hor]
    constructor
    · rintro (rfl | ⟨mid, hmid, he⟩)
      · exact ⟨0, Nat.zero_le _, .nil e⟩
      · obtain ⟨k, hk, h⟩ := (ih mid ((hbounded pos mid hmid).2 hpos) e).1 he
        exact ⟨k + 1, Nat.succ_le_succ hk, .cons ((hstep pos hpos mid).1 hmid) h⟩
    · rintro ⟨k, hk, h⟩
      cases h with
      | nil => exact .inl rfl
      | cons first rest =>
        have hmid := (hstep pos hpos _).2 first
        exact .inr ⟨_, hmid, (ih _ ((hbounded pos _ hmid).2 hpos) e).2
          ⟨_, Nat.le_of_succ_le_succ hk, rest⟩⟩

include hbounded hstep in
/-- Repetitions that do not move forward add nothing. -/
theorem mem_manyEnds (lazy : Bool) {pos : Nat} (hpos : pos ≤ stop) (e : Nat) :
    e ∈ Repeat.manyEnds lazy steps stop pos ↔ ∃ k, InRow step k pos e := by
  have hor : ∀ pos, pos ≤ stop → (e ∈ Repeat.manyEnds lazy steps stop pos ↔
      e = pos ∨ ∃ mid ∈ steps pos, mid ≠ pos ∧ e ∈ Repeat.manyEnds lazy steps stop mid) := by
    intro pos hpos
    have hmem : e = pos ∨ (∃ mid ∈ steps pos,
        e ∈ if mid = pos then [mid] else Repeat.manyEnds lazy steps stop mid) ↔
          e = pos ∨ ∃ mid ∈ steps pos, mid ≠ pos ∧ e ∈ Repeat.manyEnds lazy steps stop mid := by
      constructor
      · rintro (rfl | ⟨mid, hmid, he⟩)
        · exact .inl rfl
        · by_cases hne : mid = pos
          · rw [if_pos hne] at he
            exact .inl ((List.mem_singleton.1 he).trans hne)
          · rw [if_neg hne] at he
            exact .inr ⟨mid, hmid, hne, he⟩
      · rintro (rfl | ⟨mid, hmid, hne, he⟩)
        · exact .inl rfl
        · exact .inr ⟨mid, hmid, by rwa [if_neg hne]⟩
    rw [← hmem, Repeat.manyEnds_eq hbounded lazy hpos]
    cases lazy <;> simp [List.mem_flatMap, or_comm]
  constructor
  · induction hn : stop - pos using Nat.strongRecOn generalizing pos with
    | ind n ih =>
      intro he
      rcases (hor pos hpos).1 he with rfl | ⟨mid, hmid, hne, he⟩
      · exact ⟨0, .nil e⟩
      · obtain ⟨hle, hstop⟩ := hbounded pos mid hmid
        have hstop := hstop hpos
        obtain ⟨k, hk⟩ := ih (stop - mid) (by omega) hstop rfl he
        exact ⟨k + 1, .cons ((hstep pos hpos mid).1 hmid) hk⟩
  · rintro ⟨k, h⟩
    induction h with
    | nil pos => exact (hor pos hpos).2 (.inl rfl)
    | @cons k pos mid e first rest ih =>
      have hmid := (hstep pos hpos mid).2 first
      have hstop := (hbounded pos mid hmid).2 hpos
      by_cases hne : mid = pos
      · subst hne
        exact ih hpos hor
      · exact (hor pos hpos).2 (.inr ⟨mid, hmid, hne, ih hstop hor⟩)

include hbounded hstep in
theorem mem_restEnds (q : Quantifier) {pos : Nat} (hpos : pos ≤ stop) (e : Nat) :
    e ∈ (Repeat.timesEnds steps q.min.toNat pos).flatMap (Repeat.restEnds q steps stop) ↔
      ∃ n, q.allows n ∧ InRow step n pos e := by
  have hrest : ∀ mid, mid ≤ stop → (e ∈ Repeat.restEnds q steps stop mid ↔
      ∃ k, q.allows (q.min.toNat + k) ∧ InRow step k mid e) := by
    intro mid hmid
    cases hmax : q.max with
    | none =>
      have hallows : ∀ k, q.allows (q.min.toNat + k) := fun k =>
        ⟨Nat.le_add_right _ _, by simp [hmax]⟩
      simp [Repeat.restEnds, Quantifier.spare?, hmax, mem_manyEnds hbounded hstep q.lazy hmid, hallows]
    | some bound =>
      have hallows : ∀ k, q.allows (q.min.toNat + k) ↔ k ≤ bound.toNat - q.min.toNat := by
        intro k
        simp only [Quantifier.allows, hmax, Option.some.injEq, forall_eq']
        show q.min.toNat ≤ q.min.toNat + k ∧ q.min.toNat + k ≤ max q.min.toNat bound.toNat ↔ _
        omega
      simp [Repeat.restEnds, Quantifier.spare?, hmax, mem_upToEnds hbounded hstep q.lazy _ mid hmid,
        hallows]
  rw [List.mem_flatMap]
  constructor
  · rintro ⟨mid, hmid, he⟩
    have hle := (hbounded.timesEnds _ pos mid hmid).2 hpos
    obtain ⟨k, hk, h⟩ := (hrest mid hle).1 he
    exact ⟨_, hk, ((mem_timesEnds hbounded hstep _ pos hpos mid).1 hmid).append h⟩
  · rintro ⟨n, hn, h⟩
    obtain ⟨k, rfl⟩ : ∃ k, n = q.min.toNat + k := ⟨n - q.min.toNat, by have := hn.1; omega⟩
    obtain ⟨mid, hdue, hmore⟩ := h.split
    have hmid := (mem_timesEnds hbounded hstep _ pos hpos mid).2 hdue
    exact ⟨mid, hmid, (hrest mid ((hbounded.timesEnds _ pos mid hmid).2 hpos)).2 ⟨k, hn, hmore⟩⟩

end InRow

/-! ## What a chain matches -/

/-- The chain matches the text from one offset to another. -/
def Setting.Matches (s : Setting) : Chain → Nat → Nat → Prop
  | .nil, pos, e => e = pos
  | .leaf _ op next, pos, e => ∃ mid, s.read? {} pos op = some mid ∧ s.Matches next mid e
  | .box _ op body next, pos, e =>
    match op with
    | .group _ => ∃ mid, s.Matches body pos mid ∧ s.Matches next mid e
    | .alternative => s.Matches body pos e ∨ s.Matches next pos e
    | .look look =>
      ((look.behind.getD 0 ≤ pos ∧ ∃ mid, s.Matches body (pos - look.behind.getD 0) mid) ↔
        look.negated = false) ∧ s.Matches next pos e
    | .loop q => ∃ mid, (∃ n, q.allows n ∧ InRow (s.Matches body) n pos mid) ∧ s.Matches next mid e

theorem Setting.mem_ends (s : Setting) (c : Chain) : ∀ pos, pos ≤ s.input.stop → ∀ e,
    e ∈ s.ends c pos ↔ s.Matches c pos e := by
  induction c with
  | nil => exact fun _ _ _ => List.mem_singleton
  | leaf id op next ih =>
    intro pos hpos e
    cases hread : s.read? {} pos op with
    | none => simp [ends, Matches, hread]
    | some mid => simp [ends, Matches, hread, ih mid ((s.read_bounds hread).2 hpos)]
  | box id op body next ihbody ihnext =>
    intro pos hpos e
    have hbounds := s.ends_bounds body
    have hnext : ∀ {steps : Nat → List Nat} {step : Nat → Nat → Prop}, Bounded s.input.stop steps →
        (∀ mid, mid ∈ steps pos ↔ step pos mid) →
        (e ∈ (steps pos).flatMap (s.ends next) ↔ ∃ mid, step pos mid ∧ s.Matches next mid e) := by
      intro steps step hsteps hstep
      rw [List.mem_flatMap]
      refine exists_congr fun mid => ?_
      rw [← hstep mid]
      exact and_congr_right fun hmid => ihnext mid ((hsteps pos mid hmid).2 hpos) e
    cases op with
    | group capture => exact hnext hbounds (ihbody pos hpos)
    | alternative => simp [ends, Matches, ihbody pos hpos, ihnext pos hpos]
    | look look =>
      -- The children are read from before `pos`, and so from no further than the end.
      have hfound : (look.behind.getD 0 ≤ pos ∧
          ∃ mid, s.Matches body (pos - look.behind.getD 0) mid) ↔
          (decide (look.behind.getD 0 ≤ pos) &&
            !(s.ends body (pos - look.behind.getD 0)).isEmpty) = true := by
        have hmem := ihbody (pos - look.behind.getD 0) (by omega)
        simp only [Bool.and_eq_true, decide_eq_true_eq, Bool.not_eq_true',
          List.isEmpty_eq_false_iff_exists_mem]
        exact and_congr_right fun _ => exists_congr fun mid => (hmem mid).symm
      have hpasses : look.passes pos (fun p => !(s.ends body p).isEmpty) = true ↔
          ((look.behind.getD 0 ≤ pos ∧ ∃ mid, s.Matches body (pos - look.behind.getD 0) mid) ↔
            look.negated = false) := by
        rw [hfound, Pattern.Look.passes]
        cases decide (look.behind.getD 0 ≤ pos) && !(s.ends body (pos - look.behind.getD 0)).isEmpty <;>
          cases look.negated <;> decide
      simp only [ends, Matches, ← hpasses]
      split
      · rename_i h
        simp [h, ihnext pos hpos]
      · rename_i h
        simp [h]
    | loop q =>
      exact @hnext _ (fun pos mid => ∃ n, q.allows n ∧ InRow (s.Matches body) n pos mid)
        ((hbounds.timesEnds q.min.toNat).flatMap (hbounds.restEnds q))
        (InRow.mem_restEnds hbounds ihbody q hpos)

/-! ## One repetition as the whole pattern -/

/-- A repetition of an item whose loops stand within another loop. It owes one repetition at most,
or the item can match in one way at most from any offset. A search at one offset ends; what it finds
is as many matches of the item in a row as the bounds allow, and it finds a match if there are as
many in a row. -/
theorem exec_repeat {o : Pattern.Options} {cs : List Char} {p : Pattern}
    (hp : Pattern.compile o cs = .ok p) {id : Nat} {r : Quantifier} {item : Chain}
    (hbody : p.body = .box id (.loop r) item .nil)
    (hr : ∀ bound, r.max = some bound → r.min ≤ bound) (hitem : item.steady true = true)
    (hpins : item.unpinned = true)
    {m : Matcher} (hm : m.pattern = p) (hlimit : m.limit = none) {q : Query}
    (hmode : q.mode = .anchored) (hstart : q.start ≤ q.bound)
    (hcount : r.min.toNat ≤ 1 ∨
      ∀ pos, pos ≤ q.bound → ((m.setting q).ends item pos).length ≤ 1) :
    ∃ found m', m.Answers q found m' ∧
      (∀ hit, found = some hit → hit.span.start = q.start ∧
        ∃ n, (r.min.toNat ≤ n ∧ ∀ bound, r.max = some bound → n ≤ bound.toNat) ∧
          InRow ((m.setting q).Matches item) n q.start hit.span.stop) ∧
      ((∃ e n, (r.min.toNat ≤ n ∧ ∀ bound, r.max = some bound → n ≤ bound.toNat) ∧
        InRow ((m.setting q).Matches item) n q.start e) → found ≠ none) := by
  let s := m.setting q
  have hplaced := (Pattern.numbered_of_compile hp).placed.ofBody
  rw [hbody] at hplaced
  have hends : s.ChainYields (fun i => i ∈ p.tree.lows) False (fun _ => True) p.body q.start
      fun l => l = s.ends p.body q.start := by
    rw [hbody]
    have hdue : DueKept s.input.stop (fun i => i ∈ p.tree.lows) (fun _ => True) id r
        fun pos l => l = s.ends item pos :=
      .inr (hcount.imp (fun h => ⟨trivial, h⟩) fun hone pos hpos l hl => hl ▸ hone pos hpos)
    exact chainYields_repeat hlimit hplaced
      (fun pos hpos => chainYields_steady hlimit item _ true hplaced.ofBody hitem (.inr hpins) (by simp)
        pos hpos)
      (fun pos _ => chainYields_nil rfl) (.inr (.inl trivial)) hdue hstart
  obtain ⟨found, m', hexec, hfound, hspan⟩ := exec_ends hp hm hlimit hmode hstart hends
  replace hspan := hspan not_false
  have hmem : ∀ e, e ∈ s.ends p.body q.start ↔
      ∃ n, (r.min.toNat ≤ n ∧ ∀ bound, r.max = some bound → n ≤ bound.toNat) ∧
        InRow (s.Matches item) n q.start e := by
    intro e
    simp only [← r.allows_iff hr]
    rw [s.mem_ends p.body q.start hstart e, hbody]
    simp [Setting.Matches]
  refine ⟨found, m', hexec, ?_, ?_⟩
  · rintro hit rfl
    cases hhead : (s.ends p.body q.start).head? with
    | none => simp [s, hhead] at hspan
    | some e =>
      have heq : hit.span = ⟨q.start, e⟩ := by
        simp only [s] at hhead
        simpa [hhead] using hspan
      rw [heq]
      exact ⟨rfl, (hmem e).1 (List.mem_of_mem_head? hhead)⟩
  · rintro ⟨e, h⟩
    exact hfound.2 ⟨e, (hmem e).2 h⟩

/-- The item `(?:ab|ac)`: not rigid, but no two of its alternatives match from one offset. -/
def forkItem : Chain :=
  .box 5 (.group none)
    (.box 4 .alternative (.leaf 0 (.unit (.literal 97)) (.leaf 1 (.unit (.literal 98)) .nil))
      (.leaf 2 (.unit (.literal 97)) (.leaf 3 (.unit (.literal 99)) .nil))) .nil

/-- The pattern `(?:ab|ac)\x7b2,3\x7d?`. -/
def someForks : Pattern := ⟨{}, .empty, .box 6 (.loop ⟨2, some 3, true⟩) forkItem .nil, 7⟩

/-- On `abacab` two or three of the items are found in a row. -/
theorem exec_someForks :
    Pattern.compile {} "(?:ab|ac)\x7b2,3\x7d?".toList = .ok someForks ∧
    ∃ found m', ({ pattern := someForks } : Matcher).Answers
        { text := #[97, 98, 97, 99, 97, 98], mode := .anchored } found m' ∧
      found ≠ none := by
  let m : Matcher := { pattern := someForks }
  let q : Query := { text := #[97, 98, 97, 99, 97, 98], mode := .anchored }
  let s := m.setting q
  have hp : Pattern.compile {} "(?:ab|ac)\x7b2,3\x7d?".toList = .ok someForks := by
    decide +kernel
  have hone : ∀ pos, pos ≤ q.bound → (s.ends forkItem pos).length ≤ 1 := by decide +kernel
  have hrow : InRow (s.Matches forkItem) 2 0 4 := by
    rw [← InRow.mem_timesEnds (s.ends_bounds forkItem) (s.mem_ends forkItem) 2 0 (Nat.zero_le _) 4]
    decide +kernel
  obtain ⟨found, m', hexec, -, hfound⟩ := exec_repeat (m := m) (q := q) hp rfl
    (by rintro _ ⟨⟩; decide) (by decide) (by decide) rfl rfl rfl (by decide) (.inr hone)
  exact ⟨hp, found, m', hexec, hfound ⟨4, 2, ⟨by decide, by rintro _ ⟨⟩; decide⟩, hrow⟩⟩

/-! ## A count that does not stand -/

def pairItem : Chain :=
  .box 4 (.group none)
    (.box 3 .alternative (.leaf 0 (.unit (.literal 97)) .nil)
      (.leaf 1 (.unit (.literal 97)) (.leaf 2 (.unit (.literal 98)) .nil))) .nil

/-- The pattern `(?:a|ab){2}`. -/
def twoPairs : Pattern := ⟨{}, .empty, .box 5 (.loop ⟨2, some 2, false⟩) pairItem .nil, 6⟩

/-- On `ab` the second alternative of the first repetition is tried after the second repetition has
failed. Its count is no longer due then, and the pattern matches with one repetition. -/
theorem exec_twoPairs :
    Pattern.compile {} "(?:a|ab)\x7b2\x7d".toList = .ok twoPairs ∧
    (({ pattern := twoPairs } : Matcher).exec 100 { text := #[97, 98], mode := .anchored }).map
        (fun r => r.1.map Match.span) = some (some ⟨0, 2⟩) ∧
    ¬ InRow ((({ pattern := twoPairs } : Matcher).setting
        { text := #[97, 98], mode := .anchored }).Matches pairItem) 2 0 2 := by
  let s := ({ pattern := twoPairs } : Matcher).setting { text := #[97, 98], mode := .anchored }
  refine ⟨by decide +kernel, by decide +kernel, ?_⟩
  have hmem := InRow.mem_timesEnds (s.ends_bounds pairItem) (s.mem_ends pairItem) 2 0
    (Nat.zero_le _) 2
  rw [← hmem]
  decide +kernel

end SpanRegex
