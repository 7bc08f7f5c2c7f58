import SpanRegex.Proofs.Attempts
import SpanRegex.Proofs.Drafts
import SpanRegex.Proofs.Repeats

/-! # Patterns on which matching ends

* `Chain.consumes`: every match of the chain reads a unit.
* `Quantifier.halting`, `Chain.halting`: loops that end, inside another loop or not.
* `Lasting`: what is claimed of the results of a chain.
* `chainYields_halting`: a halting chain yields finitely many results, whatever its users do.
* `exec_halts`: a search for a halting pattern ends.
-/

namespace SpanRegex
set_option autoImplicit false

open Pattern (Chain Leaf Quantifier)
open Setting.Yields (Then Reports)

namespace Pattern

/-! ## Shapes -/

/-- The chain cannot be left without reading a unit. -/
def Chain.consumes : Chain → Bool
  | .nil => false
  | .leaf _ (.unit _) _ => true
  | .leaf _ _ next => next.consumes
  | .box _ op body next =>
    match op with
    | .group _ => body.consumes || next.consumes
    | .look _ => next.consumes
    | .alternative => body.consumes && next.consumes
    | .loop q => (q.min != 0 && body.consumes) || next.consumes

/-- The loop ends: it counts nothing, it is outermost, its children have one result at most and it
is greedy or exact, or its children always move forward. -/
def Quantifier.halting (q : Quantifier) (nested : Bool) (body : Chain) : Bool :=
  q.countless || !nested || (body.rigid && (!q.lazy || q.max == some q.min)) || body.consumes

/-- Every loop ends. The children of a look are in no loop, as they are not returned to. -/
def Chain.halting (nested : Bool) : Chain → Bool
  | .nil => true
  | .leaf _ _ next => next.halting nested
  | .box _ op body next =>
    next.halting nested && match op with
      | .group _ | .alternative => body.halting nested
      | .look _ => body.halting false
      | .loop q => body.halting true && q.halting nested body

end Pattern

/-! ## Claims about results -/

/-- The results lie between the offset and the end of the input; they are behind the offset if the
chain `reads`, and there is one at most if it is `single`. -/
structure Lasting (stop : Nat) (reads single : Bool) (pos : Nat) (l : List Nat) : Prop where
  bounds : ∀ e ∈ l, pos ≤ e ∧ e ≤ stop
  reads : reads = true → ∀ e ∈ l, pos < e
  single : single = true → l.length ≤ 1

namespace Lasting

variable {stop pos : Nat} {reads reads' single single' : Bool} {l l' : List Nat}

theorem nil : Lasting stop reads single pos [] := ⟨by simp, by simp, by simp⟩

theorem here (hpos : pos ≤ stop) : Lasting stop false single pos [pos] :=
  ⟨by simpa using hpos, by simp, by simp⟩

theorem mono (h : Lasting stop reads single pos l) (hr : reads' = true → reads = true)
    (hs : single' = true → single = true) : Lasting stop reads' single' pos l :=
  ⟨h.bounds, fun hreads => h.reads (hr hreads), fun hsingle => h.single (hs hsingle)⟩

theorem report {e : Nat} (h : Reports (Lasting stop reads single pos) e) :
    pos ≤ e ∧ e ≤ stop ∧ (reads = true → pos < e) := by
  obtain ⟨l, l', h⟩ := h
  have he : e ∈ l ++ e :: l' := by simp
  exact ⟨(h.bounds e he).1, (h.bounds e he).2, fun hr => h.reads hr e he⟩

theorem append (h : Lasting stop reads single pos l) (h' : Lasting stop reads' single' pos l') :
    Lasting stop (reads && reads') false pos (l ++ l') := by
  refine ⟨fun e he => ?_, fun hr e he => ?_, by simp⟩
  · exact (List.mem_append.1 he).elim (h.bounds e) (h'.bounds e)
  · rw [Bool.and_eq_true] at hr
    exact (List.mem_append.1 he).elim (h.reads hr.1 e) (h'.reads hr.2 e)

theorem from_le {e : Nat} (h : Lasting stop reads single e l) (hle : pos ≤ e) :
    Lasting stop reads single pos l := by
  refine ⟨fun x hx => ?_, fun hr x hx => ?_, h.single⟩
  · have := h.bounds x hx
    omega
  · have := h.reads hr x hx
    omega

theorem from_lt {e : Nat} (h : Lasting stop reads single e l) (hlt : pos < e) :
    Lasting stop true single pos l := by
  refine ⟨fun x hx => ?_, fun _ x hx => ?_, h.single⟩ <;>
  · have := h.bounds x hx
    omega

theorem each_mem {next : Nat → List Nat → Prop} {es : List Nat} (h : Each next es l) {x : Nat}
    (hx : x ∈ l) : ∃ e ∈ es, ∃ l', next e l' ∧ x ∈ l' := by
  induction h with
  | nil => simp at hx
  | cons head tail ih =>
    rcases List.mem_append.1 hx with hx | hx
    · exact ⟨_, List.mem_cons_self, _, head, hx⟩
    · obtain ⟨e, he, l', hl', hx⟩ := ih hx
      exact ⟨e, List.mem_cons_of_mem _ he, l', hl', hx⟩

theorem chained {next : Nat → List Nat → Prop}
    (hnext : ∀ e, e ≤ stop → ∀ l, next e l → Lasting stop reads' single' e l)
    (h : Chained (Lasting stop reads single pos) next l) :
    Lasting stop (reads || reads') (single && single') pos l := by
  obtain ⟨es, hes, heach⟩ := h
  have hmem : ∀ x ∈ l, ∃ e ∈ es, ∃ l', Lasting stop reads' single' e l' ∧ x ∈ l' := by
    intro x hx
    obtain ⟨e, he, l', hl', hx⟩ := each_mem heach hx
    exact ⟨e, he, l', hnext e (hes.bounds e he).2 l' hl', hx⟩
  refine ⟨fun x hx => ?_, fun hr x hx => ?_, fun hs => ?_⟩
  · obtain ⟨e, he, l', hl', hx⟩ := hmem x hx
    exact (hl'.from_le (hes.bounds e he).1).bounds x hx
  · obtain ⟨e, he, l', hl', hx⟩ := hmem x hx
    rw [Bool.or_eq_true] at hr
    rcases hr with hr | hr
    · exact (hl'.from_lt (hes.reads hr e he)).reads rfl x hx
    · exact (hl'.from_le (hes.bounds e he).1).reads hr x hx
  · rw [Bool.and_eq_true] at hs
    have hlen := hes.single hs.1
    cases heach with
    | nil => simp
    | @cons e es l₁ l₂ head tail =>
      cases tail with
      | nil => simpa using (hnext e (hes.bounds e List.mem_cons_self).2 l₁ head).single hs.2
      | cons => simp at hlen

theorem tries (hpos : pos ≤ stop) {lazy : Bool} {spec : List Nat → Prop}
    (hspec : ∀ l, spec l → Lasting stop false false pos l) (h : Tries lazy pos spec l) :
    Lasting stop false false pos l := by
  have hhere : Lasting stop false false pos [pos] := here hpos
  cases lazy with
  | false =>
    obtain ⟨l₁, _, hl, rfl, rfl⟩ := h
    exact (hspec l₁ hl).append hhere
  | true =>
    obtain ⟨_, l₂, rfl, hl, rfl⟩ := h
    exact hhere.append (hspec l₂ hl)

end Lasting

/-! ## Loops -/

theorem lasting_loopSpec (q : Quantifier) (stop : Nat) (reads single : Bool) :
    LoopSpec q stop (Lasting stop reads single)
      (fun n => Lasting stop (decide (n ≠ 0) && reads) (single && q.max == some q.min))
      (fun n => Lasting stop false (decide (n = 0)))
      (Lasting stop false false) where
  bounds pos e hpos hreports := ⟨(Lasting.report hreports).1, (Lasting.report hreports).2.1⟩
  due_succ n pos l hl := by
    refine (Lasting.chained (fun e he l hl => hl) hl).mono (fun h => ?_) fun h => ?_
    · simp at h
      simp [h]
    · simp only [Bool.and_eq_true] at h
      simp [h.1, h.2]
  due_many hmax pos l hl := hl.mono (by simp) (by simp [hmax])
  due_spare hmax pos l hl := by
    refine hl.mono (by simp) fun h => ?_
    simp only [Bool.and_eq_true, beq_iff_eq] at h
    simp [Quantifier.spare_exact h.2]
  spare_zero pos hpos := .here hpos
  spare_succ n pos l hpos hl :=
    (Lasting.tries hpos (fun l hl => (Lasting.chained (fun e he l hl => hl) hl).mono (by simp)
      (by simp)) hl).mono id (by simp)
  many_tries pos l hpos hl := by
    have hnext : ∀ e, e ≤ stop → ∀ l, (if e = pos then l = [e] else Lasting stop false false e l) →
        Lasting stop false false e l := by
      intro e he l hl
      by_cases heq : e = pos
      · rw [if_pos heq] at hl
        exact hl ▸ .here he
      · rwa [if_neg heq] at hl
    exact Lasting.tries hpos (fun l hl => (Lasting.chained hnext hl).mono (by simp) (by simp)) hl

section

variable {s : Setting} {low asks : Nat → Prop} {pins : Prop} {id : Nat} {q : Quantifier}
  {body next : Chain} {reads single : Bool}

variable (next) (hlimit : s.limit = none) (hne : body ≠ .nil) (hid : id ∉ body.ids)
  (hbody : ∀ pos, pos ≤ s.input.stop →
    s.ChainYields low pins (fun i => asks i ∧ i ∉ body.ids) body pos
      (Lasting s.input.stop reads single pos))

include hlimit hne hid hbody in
/-- An outermost loop: what is due only becomes less, as no user enters the loop again. -/
theorem loopYields_outermost (hlow : low id → q.countless = true) (hasks : asks id) (n : Nat) :
    ∀ pos, pos ≤ s.input.stop → ∀ m : Machine, (m.counts.get id).due.toNat = n →
      (m.counts.get id).spare = q.spare → m.guards.get id = none →
      s.LoopYields low pins asks id q body next m pos
        (Lasting s.input.stop (decide (n ≠ 0) && reads) false pos) := by
  induction n using Nat.strongRecOn with
  | ind n ih =>
    intro pos hpos m hdue hspare hguard
    by_cases hn : n = 0
    · have hcount : m.counts.get id = ⟨0, q.spare⟩ := by
        have h0 : (m.counts.get id).due = 0 := UInt32.toNat_inj.1 (hdue.trans hn)
        rw [← h0, ← hspare]
      refine (loopYields_rest hlimit (lasting_loopSpec q _ reads single) hne hid hbody hlow
        (.inr (.inl hasks)) hpos hcount hguard).imp fun l hl => hl.mono (by simp [hn]) (by simp)
    · have hne0 : (m.counts.get id).due ≠ 0 := fun h0 => hn (by simp [← hdue, h0])
      let held : Count → Prop := fun c => c.due.toNat < n ∧ c.spare = q.spare
      have hbegin : held ((m.begin id).counts.get id) := by
        rw [Machine.begin, if_neg hne0]
        refine ⟨?_, by simp [Machine.setCount, hspare]⟩
        simp [Machine.setCount, toNat_pred_of_ne_zero hne0, hdue]
        omega
      have hkept : HeldInUse low (fun i => asks i ∧ i ∉ body.ids) id held
          (Lasting s.input.stop reads single pos) := by
        refine .inr fun a b hab ha => ⟨Nat.lt_of_le_of_lt (hab.due id ⟨hasks, hid⟩) ha.1, ?_⟩
        rw [hab.spare id ⟨hasks, hid⟩, ha.2]
      have hnext : ∀ e (m' : Machine), held (m'.counts.get id) → m'.guards.get id = m.guards.get id →
          Reports (Lasting s.input.stop reads single pos) e →
          s.LoopYields low pins asks id q body next m' e (Lasting s.input.stop false false e) := by
        intro e m' hm' hguard' hreports
        exact (ih _ hm'.1 e (Lasting.report hreports).2.1 m' rfl hm'.2 (hguard'.trans hguard)).imp
          fun l hl => hl.mono (by simp) (by simp)
      refine (loopYields_due hlimit hne hid (hbody pos hpos) held hkept hne0 hbegin hnext).imp
        fun l hl => (Lasting.chained (fun e he l hl => hl) hl).mono (fun h => ?_) (by simp)
      simp only [Bool.and_eq_true] at h
      simp [h.2]

include hlimit hne hid in
/-- A loop whose children move forward ends whatever happens to its count. -/
theorem loopYields_forward (hlow : ¬ low id)
    (hbody : ∀ pos, pos ≤ s.input.stop →
      s.ChainYields low pins (fun i => asks i ∧ i ∉ body.ids) body pos
        (Lasting s.input.stop true single pos)) {pos : Nat} (hpos : pos ≤ s.input.stop) :
    ∀ m : Machine, s.LoopYields low pins asks id q body next m pos
      (Lasting s.input.stop (decide ((m.counts.get id).due ≠ 0)) false pos) := by
  -- Each repetition ends behind its offset, so the distance to the end decreases whatever the count.
  induction hn : s.input.stop - pos using Nat.strongRecOn generalizing pos with
  | ind n ih =>
    intro m
    have hany : ∀ spec, HeldInUse low (fun i => asks i ∧ i ∉ body.ids) id (fun _ => True) spec :=
      fun _ => .inr fun _ _ _ _ => trivial
    have hnext : ∀ e (m' : Machine), Reports (Lasting s.input.stop true single pos) e →
        s.LoopYields low pins asks id q body next m' e (Lasting s.input.stop false false e) := by
      intro e m' hreports
      obtain ⟨-, hstop, hlt⟩ := Lasting.report hreports
      have hlt := hlt rfl
      exact (ih (s.input.stop - e) (by omega) hstop rfl m').imp fun l hl => hl.mono (by simp) (by simp)
    have hround : ∀ l, Chained (Lasting s.input.stop true single pos)
        (fun e => Lasting s.input.stop false false e) l → Lasting s.input.stop true false pos l :=
      fun l hl => (Lasting.chained (fun e he l hl => hl) hl).mono (by simp) (by simp)
    have htries : ∀ lazy l, Tries lazy pos (Chained (Lasting s.input.stop true single pos)
        fun e => Lasting s.input.stop false false e) l → Lasting s.input.stop false false pos l :=
      fun lazy l hl => Lasting.tries hpos (fun l hl => (hround l hl).mono (by simp) (by simp)) hl
    by_cases hdue : (m.counts.get id).due = 0
    · rw [show decide ((m.counts.get id).due ≠ 0) = false by simp [hdue]]
      cases hmax : q.max with
      | none =>
        by_cases hguard : m.guards.get id = some pos
        · exact loopYields_leave hdue (.inl ⟨hmax, hguard⟩) (.here hpos)
        · cases hlz : q.lazy with
          | false =>
            exact (loopYields_skip hlimit hne hid (hbody pos hpos) _ (hany _) hmax hlz hdue hguard
              trivial fun e m' _ _ => hnext e m').imp (htries false)
          | true =>
            exact (loopYields_again hlimit hne hid (hbody pos hpos) _ (hany _) hmax hlz hdue hguard
              (fun _ _ => trivial) fun e m' _ _ => hnext e m').imp (htries true)
      | some bound =>
        have hmax' : q.max ≠ none := by simp [hmax]
        by_cases hspare : (m.counts.get id).spare = 0
        · exact loopYields_leave hdue (.inr ⟨hmax', hspare⟩) (.here hpos)
        · cases hlz : q.lazy with
          | false =>
            exact (loopYields_less hlimit hne hid (hbody pos hpos) _ (hany _) hlow hmax' hlz hdue
              hspare trivial fun e m' _ => hnext e m').imp (htries false)
          | true =>
            exact (loopYields_more hlimit hne hid (hbody pos hpos) _ (hany _) hlow hmax' hlz hdue
              hspare (fun _ _ => trivial) fun e m' _ => hnext e m').imp (htries true)
    · refine (loopYields_due hlimit hne hid (hbody pos hpos) _ (hany _) hdue trivial
        fun e m' _ _ => hnext e m').imp fun l hl => (hround l hl).mono (by simp) (by simp)

end

/-! ## Chains -/

theorem chainYields_halting_loop {s : Setting} (hlimit : s.limit = none) {low asks : Nat → Prop}
    {id : Nat} {q : Quantifier} {body next : Chain} {nested : Bool}
    (hplaced : (Chain.box id (.loop q) body next).Placed low)
    (hbody : ∀ pos, pos ≤ s.input.stop → s.ChainYields low True
      (fun i => (asks i ∧ i ∉ next.ids) ∧ i ∉ body.ids) body pos
        (Lasting s.input.stop body.consumes body.rigid pos))
    (hnext : ∀ pos, pos ≤ s.input.stop → s.ChainYields low True asks next pos
      (Lasting s.input.stop next.consumes next.rigid pos))
    (hhalting : q.halting nested body = true) (hasks : nested = false → asks id) {pos : Nat}
    (hpos : pos ≤ s.input.stop) :
    s.ChainYields low True asks (.box id (.loop q) body next) pos
      (Lasting s.input.stop ((q.min != 0 && body.consumes) || next.consumes)
        (next.rigid && (body.rigid && q.max == some q.min)) pos) := by
  have hcountless := hplaced.loop.1
  have hin : asks id → asks id ∧ id ∉ next.ids := fun h => ⟨h, hplaced.id_notMem.2⟩
  have hmin : decide (q.min.toNat ≠ 0) = (q.min != 0) := by
    by_cases h : q.min = 0
    · simp [h]
    · have h' : q.min.toNat ≠ 0 := fun h0 => h (UInt32.toNat_inj.1 h0)
      simp [h, h']
  have hloop : ∀ m : Machine, m.counts.get id = ⟨q.min, q.spare⟩ → m.guards.get id = none →
      s.LoopYields low True (fun i => asks i ∧ i ∉ next.ids) id q body next m pos
        (Lasting s.input.stop (q.min != 0 && body.consumes) (body.rigid && q.max == some q.min)
          pos) := by
    intro m hcount hguard
    -- Either the count stands at every visit, or more than one result is allowed for.
    by_cases hkept : low id ∨ body.rigid = true ∧ (q.lazy = false ∨ q.max = some q.min)
    · have hone : body.rigid = true → ∀ pos, pos ≤ s.input.stop → ∀ l,
          Lasting s.input.stop body.consumes body.rigid pos l → l.length ≤ 1 :=
        fun hrigid pos _ l hl => hl.single hrigid
      have h := loopYields_kept next hlimit (lasting_loopSpec q _ body.consumes body.rigid)
        hplaced.body_ne_nil hplaced.id_notMem.1 hbody hcountless
        (hkept.imp_right fun h => .inr ⟨hone h.1, h.2⟩) (hkept.imp_right fun h => .inr (hone h.1))
        q.min.toNat (Nat.le_refl _) pos hpos m q.min rfl hcount hguard
      rwa [hmin] at h
    · rw [not_or] at hkept
      obtain ⟨hlow, hkept⟩ := hkept
      have hloose : (body.rigid && q.max == some q.min) = false := by
        rw [Bool.eq_false_iff]
        intro h
        simp only [Bool.and_eq_true, beq_iff_eq] at h
        exact hkept ⟨h.1, .inr h.2⟩
      rw [hloose]
      simp only [Quantifier.halting, Bool.or_eq_true, Bool.and_eq_true, Bool.not_eq_true',
        beq_iff_eq] at hhalting
      rcases hhalting with ((h | hn) | h) | hconsumes
      · exact absurd (hplaced.loop.2 h) hlow
      · have h := loopYields_outermost next hlimit hplaced.body_ne_nil
          hplaced.id_notMem.1 hbody hcountless (hin (hasks hn)) q.min.toNat pos hpos m
          (by rw [hcount]) (by rw [hcount]) hguard
        rwa [hmin] at h
      · exact absurd h hkept
      · rw [hconsumes] at hbody ⊢
        refine (loopYields_forward next hlimit hplaced.body_ne_nil hplaced.id_notMem.1 hlow hbody hpos
          m).imp fun l hl => hl.mono (fun h => ?_) fun h => h
        simpa [hcount] using h
  refine (chainYields_loop (fun h => ⟨(Quantifier.countless_iff.1 (hcountless h)).1,
    Quantifier.spare_countless (hcountless h)⟩) hlimit hloop fun e hreports => hnext e
      (Lasting.report hreports).2.1).imp fun l hl => ?_
  refine (Lasting.chained (fun e he l hl => hl) hl).mono (fun h => h) fun h => ?_
  rwa [Bool.and_comm]

/-- A halting chain yields finitely many results, whatever its users do. -/
theorem chainYields_halting {s : Setting} (hlimit : s.limit = none) {low : Nat → Prop} (c : Chain) :
    ∀ (asks : Nat → Prop) (nested : Bool), c.Placed low → c.halting nested = true →
      (nested = false → ∀ i ∈ c.ids, asks i) → ∀ pos, pos ≤ s.input.stop →
      s.ChainYields low True asks c pos (Lasting s.input.stop c.consumes c.rigid pos) := by
  induction c with
  | nil => exact fun _ _ _ _ _ pos hpos => chainYields_nil (.here hpos)
  | leaf id op next ih =>
    intro asks nested hplaced hhalting hasks pos hpos
    refine chainYields_leaf hlimit (fun _ _ => trivial) (fun _ _ => .nil) fun captures e hread => ?_
    obtain ⟨hle, hstop⟩ := s.read_bounds hread
    refine (ih asks nested hplaced.ofLeaf hhalting
      (fun hn i hi => hasks hn i (List.mem_cons_of_mem _ hi)) e (hstop hpos)).imp fun l hl => ?_
    cases op with
    | unit test =>
      have := s.read_unit hread
      exact hl.from_lt (by omega)
    | empty => exact hl.from_le hle
    | assertion condition => exact hl.from_le hle
    | pin edge => exact hl.from_le hle
    | reference slot => exact hl.from_le hle
    | cross target ignoreCase => exact hl.from_le hle
  | box id op body next ihbody ihnext =>
    intro asks nested hplaced hhalting hasks pos hpos
    simp only [Chain.halting, Bool.and_eq_true] at hhalting
    obtain ⟨hhnext, hop⟩ := hhalting
    have hnext : ∀ pos, pos ≤ s.input.stop → s.ChainYields low True asks next pos
        (Lasting s.input.stop next.consumes next.rigid pos) :=
      ihnext asks nested hplaced.ofNext hhnext fun hn i hi => hasks hn i (Chain.mem_ids_of_next hi)
    cases op with
    | group capture =>
      have hbody := ihbody (fun i => asks i ∧ i ∉ next.ids) nested hplaced.ofBody hop
        (fun hn i hi => ⟨hasks hn i (Chain.mem_ids_of_body hi), hplaced.disjoint hi⟩) pos hpos
      refine (chainYields_group hlimit hplaced.body_ne_nil hbody fun e hreports =>
        hnext e (Lasting.report hreports).2.1).imp fun l hl => ?_
      refine (Lasting.chained (fun e he l hl => hl) hl).mono (fun h => h) fun h => ?_
      simpa [Chain.rigid, Bool.and_comm] using h
    | alternative =>
      have hbody := ihbody asks nested hplaced.ofBody hop
        (fun hn i hi => hasks hn i (Chain.mem_ids_of_body hi)) pos hpos
      refine (chainYields_alternative hlimit hplaced.body_ne_nil hbody (hnext pos hpos)).imp ?_
      rintro _ ⟨l, l', hl, hl', rfl⟩
      exact (hl.append hl').mono (fun h => h) (by simp [Chain.rigid])
    | look look =>
      -- Nothing after a look goes back into it, so its children are taken to be in no loop.
      have hbody := ihbody (fun _ => True) false hplaced.ofBody hop (fun _ _ _ => trivial)
        (pos - look.behind.getD 0) (by omega)
      have hnext' : s.ChainYields low True asks next pos
          (Lasting s.input.stop (Chain.box id (.look look) body next).consumes
            (Chain.box id (.look look) body next).rigid pos) :=
        (hnext pos hpos).imp fun l hl => hl.mono (fun h => h) (by simp [Chain.rigid])
      refine chainYields_look hlimit hplaced.body_ne_nil (fun _ => hbody) fun found _ => ?_
      split
      · exact hnext'
      · exact .nil
    | loop q =>
      simp only [Bool.and_eq_true] at hop
      have hbody := ihbody (fun i => (asks i ∧ i ∉ next.ids) ∧ i ∉ body.ids) true hplaced.ofBody
        hop.1 (by simp)
      exact chainYields_halting_loop hlimit hplaced hbody hnext hop.2
        (fun hn => hasks hn id List.mem_cons_self) hpos

/-! ## Searches -/

/-- A search for a halting pattern ends. -/
theorem exec_halts {o : Pattern.Options} {cs : List Char} {p : Pattern}
    (hp : Pattern.compile o cs = .ok p) (hhalting : p.body.halting false = true) {m : Matcher}
    (hm : m.pattern = p) (hlimit : m.limit = none) (q : Query) :
    ∃ found m', m.Answers q found m' := by
  subst hm
  have hnumbered : (m.setting q).pattern.Numbered := Pattern.numbered_of_compile hp
  have hends : ∀ pos, pos ≤ q.bound → ∀ m' : Machine, ∃ v m'',
      (m.setting q).Ends (.walk (.start m.pattern.tree pos)) m'.ready v m'' := by
    intro pos hpos m'
    have hbody := chainYields_halting (s := m.setting q) hlimit m.pattern.body (fun _ => True) false
      hnumbered.placed.ofBody hhalting (fun _ _ _ => trivial) pos hpos
    rcases decides_of_yields (m := m'.ready) hlimit hnumbered hbody rfl rfl rfl with
      ⟨-, m'', hends⟩ | ⟨e, -, m'', hends, -⟩
    · exact ⟨.failed, m'', hends⟩
    · exact ⟨.matched, m'', hends⟩
  by_cases hstart : q.bound < q.start
  · exact ⟨none, m, m.answers_behind hstart⟩
  · have hoffsets : q.start + q.offsets ≤ q.bound + 1 := by
      cases hmode : q.mode with
      | anchored => simp only [Query.offsets, hmode]; omega
      | scan => simp only [Query.offsets, hmode]; omega
    obtain ⟨⟨v, m'⟩, hsearch⟩ := Setting.search_of_ends hends m.pattern.prefilter q.offsets q.start {}
      hoffsets
    exact ⟨_, _, Matcher.answers_of_search (Nat.le_of_not_lt hstart) hsearch⟩

/-- The pattern `(?:(?:a|b)\x7b2,3\x7d|)*c`. -/
def pairsOrNothing : Pattern where
  options := {}
  names := .empty
  body :=
    .box 9 (.loop ⟨0, none, false⟩)
      (.box 7 (.group none)
        (.box 6 .alternative
          (.box 4 (.loop ⟨2, some 3, false⟩)
            (.box 3 (.group none)
              (.box 2 .alternative (.leaf 0 (.unit (.literal 97)) .nil)
                (.leaf 1 (.unit (.literal 98)) .nil)) .nil) .nil)
          (.leaf 5 .empty .nil)) .nil)
      (.leaf 8 (.unit (.literal 99)) .nil)
  rootId := 10

/-- The inner loop moves forward, and the outer one does not repeat nothing. -/
theorem exec_pairsOrNothing :
    Pattern.compile {} "(?:(?:a|b)\x7b2,3\x7d|)*c".toList = .ok pairsOrNothing ∧
    ∀ text, ∃ found m', ({ pattern := pairsOrNothing } : Matcher).Answers { text } found m' := by
  have hp : Pattern.compile {} "(?:(?:a|b)\x7b2,3\x7d|)*c".toList = .ok pairsOrNothing := by
    decide +kernel
  exact ⟨hp, fun text => exec_halts hp (by decide) rfl rfl { text }⟩

end SpanRegex
