import SpanRegex.Proofs.Loops

/-! # All repetitions of a loop

The rules for single visits are put together for loops whose count stands: users keep it, it counts
nothing, or the children have one result at most.

* `LoopSpec`: what is claimed of the results, with what is due, with what is to spare, without bound.
* `CountKept`, `RestKept`, `DueKept`: a count, and the counts of a loop, stand.
* `loopYields_many`, `loopYields_spare`, `loopYields_rest`: repetitions that are not due.
* `loopYields_kept`: all repetitions of a loop whose counts stand.
-/

namespace SpanRegex
set_option autoImplicit false

open Pattern (Chain Quantifier)
open Setting.Yields (Then Reports)

/-! ## Claims about results -/

/-- A lazy loop goes on before it repeats, a greedy one after. -/
def Tries (lazy : Bool) (pos : Nat) (spec : List Nat → Prop) : List Nat → Prop :=
  if lazy then Then (fun l => l = [pos]) spec else Then spec fun l => l = [pos]

/-- Claims about the results of a loop that fit together: `item` of its children, `due` and `spare`
with so many repetitions due or to spare, `many` of unbounded repetition. -/
structure LoopSpec (q : Quantifier) (stop : Nat) (item : Nat → List Nat → Prop)
    (due spare : Nat → Nat → List Nat → Prop) (many : Nat → List Nat → Prop) : Prop where
  bounds : ∀ pos e, pos ≤ stop → Reports (item pos) e → pos ≤ e ∧ e ≤ stop
  due_succ : ∀ n pos l, Chained (item pos) (due n) l → due (n + 1) pos l
  due_many : q.max = none → ∀ pos l, many pos l → due 0 pos l
  due_spare : q.max ≠ none → ∀ pos l, spare q.spare.toNat pos l → due 0 pos l
  spare_zero : ∀ pos, pos ≤ stop → spare 0 pos [pos]
  spare_succ : ∀ n pos l, pos ≤ stop → Tries q.lazy pos (Chained (item pos) (spare n)) l →
    spare (n + 1) pos l
  many_tries : ∀ pos l, pos ≤ stop → Tries q.lazy pos (Chained (item pos) fun e l =>
    if e = pos then l = [e] else many e l) l → many pos l

/-! ## Counts that stand -/

/-- The users of results leave a count at which nothing is due. -/
theorem Machine.Keeps.count_eq {low kept : Nat → Prop} {a b : Machine} {id : Nat} {c : Count}
    (h : a.Keeps low kept b) (ha : a.counts.get id = c)
    (hc : kept id ∧ c.due = 0 ∨ low id ∧ c = {}) : b.counts.get id = c := by
  rcases hc with ⟨hk, hdue⟩ | ⟨hlow, rfl⟩
  · have hle := h.due id hk
    have hspare := h.spare id hk
    rw [ha, hdue] at hle
    rw [ha] at hspare
    have hdue' : (b.counts.get id).due = 0 := UInt32.toNat_inj.1 (Nat.le_zero.1 hle)
    rw [show b.counts.get id = ⟨(b.counts.get id).due, (b.counts.get id).spare⟩ from rfl, hdue', hspare,
      ← hdue]
  · exact h.low id hlow ha

section

variable {s : Setting} {low asks : Nat → Prop} {pins : Prop} {id : Nat} {q : Quantifier}
  {body next : Chain} {item : Nat → List Nat → Prop} {due spare : Nat → Nat → List Nat → Prop}
  {many : Nat → List Nat → Prop}

/-- A count that stands while the children of the loop are in use: their users keep it, or the
children have one result at most. -/
def CountKept (stop : Nat) (low asks : Nat → Prop) (id : Nat) (item : Nat → List Nat → Prop)
    (c : Count) : Prop :=
  (asks id ∧ c.due = 0 ∨ low id ∧ c = {}) ∨ ∀ pos, pos ≤ stop → ∀ l, item pos l → l.length ≤ 1

theorem CountKept.held {stop : Nat} {c : Count} (h : CountKept stop low asks id item c)
    (hid : id ∉ body.ids) {pos : Nat} (hpos : pos ≤ stop) :
    HeldInUse low (fun i => asks i ∧ i ∉ body.ids) id (fun c' => c' = c) (item pos) := by
  rcases h with hc | hone
  · refine .inr fun a b hab ha => hab.count_eq ha ?_
    exact hc.imp_left fun h => ⟨⟨h.1, hid⟩, h.2⟩
  · exact .inl (hone pos hpos)

/-- The counts of a loop stand when nothing is due: it counts nothing, or users keep its count, or
its children have one result at most and no user comes between a lazy choice and its count. -/
def RestKept (stop : Nat) (low asks : Nat → Prop) (id : Nat) (q : Quantifier)
    (item : Nat → List Nat → Prop) : Prop :=
  low id ∨ asks id ∨ (∀ pos, pos ≤ stop → ∀ l, item pos l → l.length ≤ 1) ∧
    (q.lazy = false ∨ q.max = some q.min)

/-- The counts of a loop stand when something is due: it counts nothing, or users keep its count and
one repetition is due at most, or its children have one result at most. -/
def DueKept (stop : Nat) (low asks : Nat → Prop) (id : Nat) (q : Quantifier)
    (item : Nat → List Nat → Prop) : Prop :=
  low id ∨ asks id ∧ q.min.toNat ≤ 1 ∨ ∀ pos, pos ≤ stop → ∀ l, item pos l → l.length ≤ 1

variable (hlimit : s.limit = none) (hspec : LoopSpec q s.input.stop item due spare many)
  (hne : body ≠ .nil) (hid : id ∉ body.ids)
  (hbody : ∀ pos, pos ≤ s.input.stop →
    s.ChainYields low pins (fun i => asks i ∧ i ∉ body.ids) body pos (item pos))

/-! ## Repetitions that are not due -/

include hlimit hspec hne hid hbody in
theorem loopYields_many (hmax : q.max = none) (hkept : CountKept s.input.stop low asks id item {})
    (hlazy : q.lazy = true → asks id ∨ low id) {pos : Nat} (hpos : pos ≤ s.input.stop) :
    ∀ m : Machine, m.counts.get id = {} → m.guards.get id ≠ some pos →
      s.LoopYields low pins asks id q body next m pos (many pos) := by
  induction hn : s.input.stop - pos using Nat.strongRecOn generalizing pos with
  | ind n ih =>
    intro m hcount hguard
    have hdue : (m.counts.get id).due = 0 := by rw [hcount]
    have hheld := hkept.held hid hpos
    -- A repetition that moves forward is followed by others, one that does not by none.
    have hnext : ∀ e (m' : Machine), m'.counts.get id = {} → m'.guards.get id = some pos →
        Reports (item pos) e → s.LoopYields low pins asks id q body next m' e fun l =>
          if e = pos then l = [e] else many e l := by
      intro e m' hcount' hguard' hreports
      obtain ⟨hle, hstop⟩ := hspec.bounds pos e hpos hreports
      by_cases heq : e = pos
      · subst heq
        exact loopYields_leave (by rw [hcount']) (.inl ⟨hmax, hguard'⟩) (by simp)
      · have hrest := ih (s.input.stop - e) (by omega) hstop rfl m' hcount'
          (by rw [hguard']; simpa using fun h => heq h.symm)
        exact hrest.imp fun l hl => by rwa [if_neg heq]
    have htries := hspec.many_tries pos
    cases hlz : q.lazy with
    | false =>
      rw [hlz] at htries
      exact (loopYields_skip hlimit hne hid (hbody pos hpos) _ hheld hmax hlz hdue hguard hcount
        hnext).imp fun l hl => htries l hpos hl
    | true =>
      rw [hlz] at htries
      have hkeep : ∀ m' : Machine, m.Keeps low asks m' → m'.counts.get id = {} := fun m' hm' =>
        hm'.count_eq hcount ((hlazy hlz).imp (fun h => ⟨h, rfl⟩) fun h => ⟨h, rfl⟩)
      exact (loopYields_again hlimit hne hid (hbody pos hpos) _ hheld hmax hlz hdue hguard hkeep
        hnext).imp fun l hl => htries l hpos hl

include hlimit hspec hne hid hbody in
theorem loopYields_spare (hlow : ¬ low id) (hmax : q.max ≠ none)
    (hkept : asks id ∨ ∀ pos, pos ≤ s.input.stop → ∀ l, item pos l → l.length ≤ 1)
    (hlazy : q.lazy = true → asks id) (n : Nat) : ∀ pos, pos ≤ s.input.stop → ∀ m : Machine,
      (m.counts.get id).due = 0 → (m.counts.get id).spare.toNat = n →
      s.LoopYields low pins asks id q body next m pos (spare n pos) := by
  induction n with
  | zero =>
    intro pos hpos m hdue hspare
    exact loopYields_leave hdue (.inr ⟨hmax, UInt32.toNat_inj.1 hspare⟩) (hspec.spare_zero pos hpos)
  | succ n ih =>
    intro pos hpos m hdue hspare
    have hne0 : (m.counts.get id).spare ≠ 0 := fun h0 => by simp [h0] at hspare
    have hless : (m.counts.get id).less.spare.toNat = n := by
      rw [Count.toNat_less hne0, hspare, Nat.add_sub_cancel]
    have hcount : CountKept s.input.stop low asks id item (m.counts.get id).less :=
      hkept.imp_left fun h => .inl ⟨h, hdue⟩
    have hheld := hcount.held hid hpos
    have hnext : ∀ e (m' : Machine), m'.counts.get id = (m.counts.get id).less →
        Reports (item pos) e → s.LoopYields low pins asks id q body next m' e (spare n e) := by
      intro e m' hcount' hreports
      refine ih e (hspec.bounds pos e hpos hreports).2 m' ?_ ?_
      · rw [hcount']
        exact hdue
      · rw [hcount', hless]
    have htries := hspec.spare_succ n pos
    cases hlz : q.lazy with
    | false =>
      rw [hlz] at htries
      exact (loopYields_less hlimit hne hid (hbody pos hpos) _ hheld hlow hmax hlz hdue hne0 rfl
        hnext).imp fun l hl => htries l hpos hl
    | true =>
      rw [hlz] at htries
      have hkeep : ∀ m' : Machine, m.Keeps low asks m' →
          (m'.counts.get id).less = (m.counts.get id).less := fun m' hm' => by
        rw [hm'.count_eq rfl (.inl ⟨hlazy hlz, hdue⟩)]
      exact (loopYields_more hlimit hne hid (hbody pos hpos) _ hheld hlow hmax hlz hdue hne0 hkeep
        hnext).imp fun l hl => htries l hpos hl

variable (hlow : low id → q.countless = true)
  (hrest : RestKept s.input.stop low asks id q item)

include hlimit hspec hne hid hbody hlow hrest in
theorem loopYields_rest {pos : Nat} (hpos : pos ≤ s.input.stop) {m : Machine}
    (hcount : m.counts.get id = ⟨0, q.spare⟩) (hguard : m.guards.get id = none) :
    s.LoopYields low pins asks id q body next m pos (due 0 pos) := by
  cases hmax : q.max with
  | none =>
    have hspare : q.spare = 0 := by simp [Quantifier.spare, hmax]
    rw [hspare] at hcount
    have hnil : CountKept s.input.stop low asks id item {} := by
      rcases hrest with hlow | hasks | ⟨hone, -⟩
      · exact .inl (.inr ⟨hlow, rfl⟩)
      · exact .inl (.inl ⟨hasks, rfl⟩)
      · exact .inr hone
    have hlazy : q.lazy = true → asks id ∨ low id := by
      intro hlz
      rcases hrest with hlow | hasks | ⟨-, hgreedy | hexact⟩
      · exact .inr hlow
      · exact .inl hasks
      · simp [hlz] at hgreedy
      · simp [hmax] at hexact
    exact (loopYields_many hlimit hspec hne hid hbody hmax hnil hlazy hpos m hcount
      (by simp [hguard])).imp (hspec.due_many hmax pos)
  | some bound =>
    have hmax' : q.max ≠ none := by simp [hmax]
    have hdue : (m.counts.get id).due = 0 := by rw [hcount]
    by_cases hspare : q.spare = 0
    · refine loopYields_leave hdue (.inr ⟨hmax', by rw [hcount, hspare]⟩)
        (hspec.due_spare hmax' pos _ ?_)
      rw [hspare]
      exact hspec.spare_zero pos hpos
    · have hlow' : ¬ low id := fun h => hspare (Quantifier.spare_countless (hlow h))
      have huse : asks id ∨ ∀ pos, pos ≤ s.input.stop → ∀ l, item pos l → l.length ≤ 1 :=
        (hrest.resolve_left hlow').imp_right fun h => h.1
      have hlazy : q.lazy = true → asks id := by
        intro hlz
        rcases hrest.resolve_left hlow' with hasks | ⟨-, hgreedy | hexact⟩
        · exact hasks
        · simp [hlz] at hgreedy
        · exact absurd (Quantifier.spare_exact hexact) hspare
      exact (loopYields_spare hlimit hspec hne hid hbody hlow' hmax' huse hlazy q.spare.toNat pos hpos m
        hdue (by rw [hcount])).imp (hspec.due_spare hmax' pos)

/-! ## All repetitions -/

variable (next)

include hlimit hspec hne hid hbody hlow hrest in
/-- The repetitions that are due, then those that may follow. -/
theorem loopYields_kept (hdue : DueKept s.input.stop low asks id q item) (n : Nat)
    (hn : n ≤ q.min.toNat) : ∀ pos, pos ≤ s.input.stop → ∀ (m : Machine) (c : UInt32),
      c.toNat = n → m.counts.get id = ⟨c, q.spare⟩ → m.guards.get id = none →
      s.LoopYields low pins asks id q body next m pos (due n pos) := by
  induction n with
  | zero =>
    intro pos hpos m c hc hcount hguard
    have h0 : c = 0 := UInt32.toNat_inj.1 hc
    rw [h0] at hcount
    exact loopYields_rest hlimit hspec hne hid hbody hlow hrest hpos hcount hguard
  | succ n ih =>
    intro pos hpos m c hc hcount hguard
    have hne0 : c ≠ 0 := fun h0 => by simp [h0] at hc
    have hc' : (c - 1).toNat = n := by
      rw [toNat_pred_of_ne_zero hne0, hc, Nat.add_sub_cancel]
    have hbegin : (m.begin id).counts.get id = ⟨c - 1, q.spare⟩ := by
      rw [Machine.begin, if_neg (by rw [hcount]; exact hne0)]
      simp [Machine.setCount, hcount]
    -- Going back must find the count as it is now: nothing, or not gone back to.
    have hlast : q.min.toNat ≤ 1 → c - 1 = 0 := fun hmin =>
      UInt32.toNat_inj.1 (hc'.trans (show n = 0 by omega))
    have hstands : CountKept s.input.stop low asks id item ⟨c - 1, q.spare⟩ := by
      rcases hdue with h | ⟨hasks, hmin⟩ | hone
      · refine .inl (.inr ⟨h, ?_⟩)
        rw [hlast (Quantifier.countless_iff.1 (hlow h)).1, Quantifier.spare_countless (hlow h)]
      · exact .inl (.inl ⟨hasks, hlast hmin⟩)
      · exact .inr hone
    have hnext : ∀ e (m' : Machine), m'.counts.get id = ⟨c - 1, q.spare⟩ →
        m'.guards.get id = m.guards.get id → Reports (item pos) e →
        s.LoopYields low pins asks id q body next m' e (due n e) :=
      fun e m' hcount' hguard' hreports => ih (by omega) e (hspec.bounds pos e hpos hreports).2 m'
        (c - 1) hc' hcount' (hguard'.trans hguard)
    exact (loopYields_due hlimit hne hid (hbody pos hpos) _ (hstands.held hid hpos)
      (by rw [hcount]; exact hne0) hbegin hnext).imp (hspec.due_succ n pos)

end
end SpanRegex
