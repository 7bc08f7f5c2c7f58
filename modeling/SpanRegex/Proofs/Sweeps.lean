import SpanRegex.Regex
import SpanRegex.Proofs.Leftmost
import SpanRegex.Proofs.Spans

/-! # All matches of a text

`findAll` searches again and again, each time further on: from where the last match ends, and at least
one unit behind the last start. A search finds the leftmost match, so what is passed over lies in a match
or begins none.

* `Probe`, `Sweep`: the searches that are made, in order; `sweep_of_collect`.
* `Sweep.made`, `Sweep.pairwise`, `Sweep.turn_of`, `Sweep.resumed`: each of them is made within the text,
  each is further on than those before it, every offset has one whose turn it is, and none is left out.
* `exec_leftmost`: what a search finds is what a fresh search at the offset where it begins finds.
* `findAll_covers`: the matches lie in the text one after another, and none is lost.
-/

namespace SpanRegex
set_option autoImplicit false

/-! ## The searches of a sweep -/

/-- A search for the matches from an offset on, and what it found. -/
structure Regex.Probe where
  start : Nat
  found : Option Match

namespace Regex

/-- The searches from the start on, the regex before them and the one after them. -/
inductive Sweep (query : Nat → Query) (fuel : Nat) : Nat → Regex → List Probe → Regex → Prop
  /-- The start is behind the end. -/
  | past {start : Nat} {r : Regex} (behind : (query start).bound < start) :
      Sweep query fuel start r [] r
  /-- Nothing more is found. -/
  | last {start : Nat} {r r' : Regex} (inside : start ≤ (query start).bound)
      (exec : r.exec fuel (query start) = some (none, r')) :
      Sweep query fuel start r [⟨start, none⟩] r'
  /-- A match is found, and the search resumes behind it. -/
  | next {start : Nat} {r r₁ r' : Regex} {hit : Match} {probes : List Probe}
      (inside : start ≤ (query start).bound)
      (exec : r.exec fuel (query start) = some (some hit, r₁))
      (rest : Sweep query fuel (resume start hit) r₁ probes r') :
      Sweep query fuel start r (⟨start, some hit⟩ :: probes) r'

variable {query : Nat → Query} {fuel bound start : Nat} {r r' : Regex} {probes : List Probe}
  {found : Option Match} {hit : Match} {q : Query}

theorem lt_resume (start : Nat) (hit : Match) : start < resume start hit := by
  unfold resume
  split
  · assumption
  · exact Nat.lt_succ_self start

theorem stop_le_resume (start : Nat) (hit : Match) : hit.span.stop ≤ resume start hit := by
  unfold resume
  split <;> omega

/-- The number of searches allowed is never reached: each one is made further on than the last. -/
theorem sweep_of_collect (hbound : ∀ start, (query start).bound = bound) {count : Nat} {hits : List Match}
    (hcount : bound < start + count) (h : collect query fuel count start r = some (hits, r')) :
    ∃ probes, Sweep query fuel start r probes r' ∧ hits = probes.filterMap Probe.found := by
  fun_induction collect query fuel count start r generalizing hits with
  | case1 start r =>
    obtain ⟨rfl, rfl⟩ := Prod.mk.inj (Option.some.inj h)
    exact ⟨[], .past (hbound start ▸ hcount), rfl⟩
  | case2 count start r behind =>
    obtain ⟨rfl, rfl⟩ := Prod.mk.inj (Option.some.inj h)
    exact ⟨[], .past behind, rfl⟩
  | case3 => simp at h
  | case4 count start r inside r₁ exec =>
    obtain ⟨rfl, rfl⟩ := Prod.mk.inj (Option.some.inj h)
    exact ⟨_, .last (Nat.le_of_not_lt inside) exec, rfl⟩
  | case5 => simp at h
  | case6 count start r inside hit r₁ exec hits' r₂ hrest ih =>
    obtain ⟨rfl, rfl⟩ := Prod.mk.inj (Option.some.inj h)
    have hresume := lt_resume start hit
    obtain ⟨probes, hsweep, rfl⟩ := ih (by omega) hrest
    exact ⟨_, .next (Nat.le_of_not_lt inside) exec hsweep, rfl⟩

theorem exec_fresh (h : r.exec fuel q = some (found, r')) :
    r.matcher.exec fuel q = some (found, r'.matcher) ∧ r'.matcher.fresh = r.matcher.fresh := by
  obtain ⟨⟨found', m'⟩, hexec, heq⟩ := Option.map_eq_some_iff.1 h
  obtain ⟨rfl, rfl⟩ := Prod.mk.inj heq
  refine ⟨hexec, ?_⟩
  unfold Matcher.exec at hexec
  split at hexec
  · obtain ⟨-, rfl⟩ := Prod.mk.inj (Option.some.inj hexec)
    rfl
  · simp at hexec

namespace Sweep

/-- Each search is made from an offset of the text, on a regex that differs in its captures alone. -/
theorem made (hbound : ∀ start, (query start).bound = bound) (h : Sweep query fuel start r probes r') :
    ∀ x ∈ probes, start ≤ x.start ∧ x.start ≤ bound ∧
      ∃ m m' : Matcher, m.fresh = r.matcher.fresh ∧ m.exec fuel (query x.start) = some (x.found, m') := by
  induction h with
  | past => simp
  | @last start r r' inside exec =>
    simp only [List.mem_singleton, forall_eq]
    exact ⟨Nat.le_refl _, hbound start ▸ inside, _, _, rfl, (exec_fresh exec).1⟩
  | @next start r r₁ r' hit probes inside exec rest ih =>
    obtain ⟨hexec, hfresh⟩ := exec_fresh exec
    refine List.forall_mem_cons.2 ⟨⟨Nat.le_refl _, hbound start ▸ inside, _, _, rfl, hexec⟩, fun x hx => ?_⟩
    obtain ⟨hle, hlast, m, m', hm, hx⟩ := ih x hx
    exact ⟨Nat.le_trans (Nat.le_of_lt (lt_resume start hit)) hle, hlast, m, m', hm.trans hfresh, hx⟩

/-- A search that is followed by another has found a match, and the other starts where the search
resumes or later. -/
theorem pairwise (hbound : ∀ start, (query start).bound = bound)
    (h : Sweep query fuel start r probes r') :
    probes.Pairwise fun x y => ∃ hit, x.found = some hit ∧ resume x.start hit ≤ y.start := by
  induction h with
  | past => exact .nil
  | last => exact List.pairwise_singleton _ _
  | @next start r r₁ r' hit probes inside exec rest ih =>
    exact List.pairwise_cons.2 ⟨fun y hy => ⟨hit, rfl, (rest.made hbound y hy).1⟩, ih⟩

theorem length_le (hbound : ∀ start, (query start).bound = bound)
    (h : Sweep query fuel start r probes r') : probes.length ≤ bound + 1 - start := by
  induction h with
  | past => exact Nat.zero_le _
  | @last start r r' inside exec =>
    rw [hbound] at inside
    simp only [List.length_singleton]
    omega
  | @next start r r₁ r' hit probes inside exec rest ih =>
    have hresume := lt_resume start hit
    rw [hbound] at inside
    simp only [List.length_cons]
    omega

/-- Every offset has a search whose turn it is: the one that starts there or before and, if it finds a
match, resumes behind it. -/
theorem turn_of (hbound : ∀ start, (query start).bound = bound)
    (h : Sweep query fuel start r probes r') {pos : Nat} (hstart : start ≤ pos) (hpos : pos ≤ bound) :
    ∃ x ∈ probes, x.start ≤ pos ∧ ∀ hit, x.found = some hit → pos < resume x.start hit := by
  induction h with
  | @past start r behind =>
    rw [hbound] at behind
    omega
  | last => exact ⟨_, List.mem_singleton_self _, hstart, by simp⟩
  | @next start r r₁ r' hit probes inside exec rest ih =>
    by_cases hturn : pos < resume start hit
    · exact ⟨_, List.mem_cons_self, hstart, fun hit' h => Option.some.inj h ▸ hturn⟩
    · obtain ⟨x, hx, hle, hlt⟩ := ih (Nat.le_of_not_lt hturn)
      exact ⟨x, List.mem_cons_of_mem _ hx, hle, hlt⟩

/-- The next search is made where the last one resumes, if this is in the text. -/
theorem resumed (hbound : ∀ start, (query start).bound = bound) (h : Sweep query fuel start r probes r') :
    ∀ x ∈ probes, ∀ hit, x.found = some hit → resume x.start hit ≤ bound →
      ∃ y ∈ probes, y.start = resume x.start hit := by
  induction h with
  | past => simp
  | last => simp
  | @next start r r₁ r' hit probes inside exec rest ih =>
    refine List.forall_mem_cons.2 ⟨fun hit' hfound hresume => ?_, fun x hx hit hfound hresume => ?_⟩
    · obtain rfl : hit = hit' := Option.some.inj hfound
      cases rest with
      | past behind =>
        rw [hbound] at behind
        exact absurd hresume (Nat.not_le_of_lt behind)
      | last => exact ⟨_, List.mem_cons_of_mem _ (List.mem_singleton_self _), rfl⟩
      | next => exact ⟨_, List.mem_cons_of_mem _ List.mem_cons_self, rfl⟩
    · obtain ⟨y, hy, hstart⟩ := ih x hx hit hfound hresume
      exact ⟨y, List.mem_cons_of_mem _ hy, hstart⟩

end Sweep
end Regex

/-! ## What a search finds -/

/-- How a fresh search at the offset ends. -/
def Matcher.outcomeAt (m : Matcher) (fuel : Nat) (q : Query) (pos : Nat) : Option (Verdict × Captures) :=
  (m.setting q).outcome m.pattern.prefilter fuel 1 pos {}

theorem Matcher.same_of_fresh {a b : Matcher} (h : a.fresh = b.fresh) :
    a.pattern = b.pattern ∧ a.limit = b.limit := by
  obtain ⟨hpattern, -, -, hlimit⟩ := Matcher.mk.inj h
  exact ⟨hpattern, hlimit⟩

theorem Matcher.outcomeAt_fresh {a b : Matcher} (h : a.fresh = b.fresh) (fuel : Nat) (q : Query)
    (pos : Nat) : a.outcomeAt fuel q pos = b.outcomeAt fuel q pos := by
  show a.fresh.outcomeAt fuel q pos = b.fresh.outcomeAt fuel q pos
  rw [h]

section

variable {m m' : Matcher} {q : Query} {fuel : Nat}

theorem not_findsAt {pos : Nat} (hpos : pos ≤ q.bound)
    (h : m.outcomeAt fuel q pos = some (.failed, {})) : ¬ m.FindsAt q pos := by
  rintro ⟨hit, m', hanswers⟩
  have hexec : m.fresh.exec fuel (q.anchoredAt pos) = some (none, m.fresh) := by
    rw [m.fresh.exec_outcome fuel (q := q.anchoredAt pos) hpos]
    exact congrArg (Option.map m.fresh.answer) h
  exact absurd ((Matcher.answers_of_exec hexec).unique hanswers).1 (by simp)

variable (hnumbered : m.pattern.Numbered) (hpins : m.pattern.body.unpinned = true)
  (hlimit : m.limit = none)

include hnumbered hpins

theorem span_of_outcome {pos : Nat} (hpos : pos ≤ q.bound) {r : Verdict × Captures}
    (hr : r.1 = .matched) (h : m.outcomeAt fuel q pos = some r) :
    ∃ stop, r.2.get Pattern.Slot.whole = ⟨some pos, some stop⟩ := by
  obtain ⟨⟨v, machine⟩, hsearch, rfl⟩ := Option.map_eq_some_iff.1 h
  obtain rfl : v = .matched := hr
  obtain ⟨pos', before, hle, hlt, hattempt⟩ := Setting.attempt_of_search _ hsearch
  obtain rfl : pos' = pos := by omega
  obtain ⟨stop, -, -, hwhole⟩ :=
    Setting.span_of_attempt (s := m.setting q) hnumbered hpins hpos hattempt
  exact ⟨stop, hwhole⟩

include hlimit

/-- A scan finds nothing if every fresh search at one of its offsets fails; and what it finds, the fresh
search at the offset where it begins finds, and those before that fail. -/
theorem exec_leftmost (hmode : q.mode = .scan) (hstart : q.start ≤ q.bound) {found : Option Match}
    (h : m.exec fuel q = some (found, m')) :
    (found = none ∧ ∀ pos, q.start ≤ pos → pos ≤ q.bound →
      m.outcomeAt fuel q pos = some (.failed, {})) ∨
    ∃ hit, found = some hit ∧ q.start ≤ hit.span.start ∧ hit.span.start ≤ q.bound ∧
      m.outcomeAt fuel q hit.span.start = some (.matched, hit.captures) ∧
      ∀ pos, q.start ≤ pos → pos < hit.span.start →
        m.outcomeAt fuel q pos = some (.failed, {}) := by
  have hoffsets : q.offsets = q.bound + 1 - q.start := by simp [Query.offsets, hmode]
  rw [m.exec_outcome fuel hstart, hoffsets] at h
  obtain ⟨r, hr, hanswer⟩ := Option.map_eq_some_iff.1 h
  obtain ⟨rfl, -⟩ := Prod.mk.inj hanswer
  rcases Setting.outcome_inv (s := m.setting q) hlimit _ fuel _ hr with
    ⟨hfailed, hall⟩ | ⟨pos, hle, hlt, hnot, hpos, hearlier⟩
  · exact .inl ⟨by simp [hfailed], fun pos h h' => hall pos h (by omega)⟩
  · have hbound : pos ≤ q.bound := by omega
    obtain ⟨hit, hmatched, hhit⟩ :=
      (Setting.outcome_one (s := m.setting q) hlimit _ fuel hnumbered hpos).resolve_left
        fun h => hnot (congrArg Prod.fst h)
    obtain ⟨stop, hwhole⟩ := span_of_outcome hnumbered hpins hbound hmatched hpos
    have hcaptures := Match.captures_ofCaptures hhit
    have hspan : hit.span = ⟨pos, stop⟩ := Match.span_eq (hcaptures ▸ hwhole)
    refine .inr ⟨hit, by simp [hmatched, hhit], ?_⟩
    obtain ⟨v, captures⟩ := r
    obtain rfl : v = .matched := hmatched
    obtain rfl : hit.captures = captures := hcaptures
    rw [hspan]
    exact ⟨hle, hbound, hpos, hearlier⟩

end

/-! ## Searching a whole text -/

/-- The search of a text from an offset on. -/
def Query.onward (text : Text) (start : Nat) : Query := { text, start }

theorem Query.bound_onward (text : Text) (start : Nat) : (onward text start).bound = text.size :=
  Nat.min_self _

namespace Regex

variable {r r' : Regex} {text : Text} {fuel : Nat}

/-- What `findAll` answers is what its searches find. -/
theorem sweep_of_findAll {hits : List Match} (h : r.findAll fuel text = some (hits, r')) :
    ∃ probes, Sweep (.onward text) fuel 0 r probes r' ∧ hits = probes.filterMap Probe.found :=
  sweep_of_collect (Query.bound_onward text) (by omega) h

section

variable {start : Nat} {probes : List Probe} (hnumbered : r.matcher.pattern.Numbered)
  (hpins : r.matcher.pattern.body.unpinned = true) (h : Sweep (.onward text) fuel start r probes r')

include hnumbered hpins h

theorem Sweep.spans : ∀ x ∈ probes, ∀ hit, x.found = some hit →
    x.start ≤ hit.span.start ∧ hit.span.start ≤ hit.span.stop ∧ hit.span.stop ≤ text.size := by
  intro x hx hit hfound
  obtain ⟨-, -, m, m', hfresh, hexec⟩ := h.made (Query.bound_onward text) x hx
  obtain ⟨hpattern, -⟩ := Matcher.same_of_fresh hfresh
  rw [hfound] at hexec
  obtain ⟨hstart, hle, hstop⟩ := Matcher.span_of_exec (hpattern ▸ hnumbered) (hpattern ▸ hpins) hexec
  exact ⟨hstart, hle, Query.bound_onward text x.start ▸ hstop⟩

/-- Every search finds what the fresh search does at the first offset where one does not fail. -/
theorem Sweep.leftmost (hlimit : r.matcher.limit = none) : ∀ x ∈ probes,
    (x.found = none ∧ ∀ pos, x.start ≤ pos → pos ≤ text.size →
      r.matcher.outcomeAt fuel { text } pos = some (.failed, {})) ∨
    ∃ hit, x.found = some hit ∧
      r.matcher.outcomeAt fuel { text } hit.span.start = some (.matched, hit.captures) ∧
      ∀ pos, x.start ≤ pos → pos < hit.span.start →
        r.matcher.outcomeAt fuel { text } pos = some (.failed, {}) := by
  intro x hx
  obtain ⟨-, hle, m, m', hfresh, hexec⟩ := h.made (Query.bound_onward text) x hx
  obtain ⟨hpattern, hlimit₁⟩ := Matcher.same_of_fresh hfresh
  have hbound := Query.bound_onward text x.start
  -- Where a search starts makes no difference to what a fresh search at an offset finds.
  have hsame : ∀ pos, m.outcomeAt fuel (.onward text x.start) pos =
      r.matcher.outcomeAt fuel { text } pos := fun pos =>
    Matcher.outcomeAt_fresh hfresh fuel { text } pos
  rcases exec_leftmost (hpattern ▸ hnumbered) (hpattern ▸ hpins) (hlimit₁.trans hlimit)
      (q := .onward text x.start) rfl (hbound ▸ hle) hexec with
    ⟨hnone, hall⟩ | ⟨hit, hfound, -, -, hhit, hearlier⟩
  · exact .inl ⟨hnone, fun pos h h' => hsame pos ▸ hall pos h (hbound ▸ h')⟩
  · exact .inr ⟨hit, hfound, hsame _ ▸ hhit, fun pos h h' => hsame pos ▸ hearlier pos h h'⟩

end

section

variable (hnumbered : r.matcher.pattern.Numbered) (hlimit : r.matcher.limit = none)

include hnumbered hlimit

/-- If the fresh searches at all offsets end, the searches of a text do. -/
theorem collect_of_ends
    (hends : ∀ pos, pos ≤ text.size →
      ∃ found m', r.matcher.fresh.Answers (Query.anchoredAt { text } pos) found m')
    (count : Nat) : ∀ (start : Nat) (r₁ : Regex), r₁.matcher.fresh = r.matcher.fresh →
      ∃ answer n, ∀ fuel, n ≤ fuel → collect (.onward text) fuel count start r₁ = some answer := by
  induction count with
  | zero => exact fun start r₁ _ => ⟨([], r₁), 0, fun _ _ => rfl⟩
  | succ count ih =>
    intro start r₁ hfresh
    by_cases hbehind : (Query.onward text start).bound < start
    · exact ⟨([], r₁), 0, fun fuel _ => by rw [collect, if_pos hbehind]⟩
    · obtain ⟨hpattern, hlimit₁⟩ := Matcher.same_of_fresh hfresh
      obtain ⟨found, m', n, hn⟩ := answers_of_ends (m := r₁.matcher) (hpattern ▸ hnumbered)
        (hlimit₁.trans hlimit)
        (q := .onward text start) rfl (Nat.le_of_not_lt hbehind) fun pos _ hpos =>
          hfresh ▸ hends pos (Query.bound_onward text start ▸ hpos)
      have hexec : ∀ fuel, n ≤ fuel → r₁.exec fuel (.onward text start) = some (found, ⟨m'⟩) :=
        fun fuel hf => by rw [exec, hn fuel hf]; rfl
      cases found with
      | none =>
        refine ⟨([], ⟨m'⟩), n, fun fuel hf => ?_⟩
        rw [collect, if_neg hbehind, hexec fuel hf]
      | some hit =>
        have hfresh' := (exec_fresh (hexec n (Nat.le_refl n))).2.trans hfresh
        obtain ⟨⟨hits, r₂⟩, n', hn'⟩ := ih (resume start hit) ⟨m'⟩ hfresh'
        refine ⟨(hit :: hits, r₂), max n n', fun fuel hf => ?_⟩
        rw [collect, if_neg hbehind, hexec fuel (by omega)]
        simp only [hn' fuel (by omega)]

end

end Regex

/-- The matches of a text lie in it one after another, at most one search more is made than the text has
units, and no offset at which a match begins is lost: a match is reported that begins there, or one that
begins before it and ends behind it. If the searches at all offsets end, so does this one. -/
theorem findAll_covers {o : Pattern.Options} {cs : List Char} {p : Pattern}
    (hp : Pattern.compile o cs = .ok p) (hpins : p.body.unpinned = true) {r : Regex}
    (hr : r.pattern = p) (hlimit : r.matcher.limit = none) (text : Text) :
    ((∀ pos, pos ≤ text.size →
        ∃ found m', r.matcher.fresh.Answers (Query.anchoredAt { text } pos) found m') →
      ∃ hits r' n, ∀ fuel, n ≤ fuel → r.findAll fuel text = some (hits, r')) ∧
    ∀ fuel hits r', r.findAll fuel text = some (hits, r') →
      (∀ hit ∈ hits, hit.span.start ≤ hit.span.stop ∧ hit.span.stop ≤ text.size) ∧
      hits.Pairwise (fun a b => a.span.stop ≤ b.span.start) ∧
      (∃ probes, Regex.Sweep (.onward text) fuel 0 r probes r' ∧
        hits = probes.filterMap Regex.Probe.found ∧ probes.length ≤ text.size + 1) ∧
      ∀ pos, pos ≤ text.size → r.matcher.FindsAt { text } pos →
        ∃ hit ∈ hits, hit.span.start = pos ∨ hit.span.start < pos ∧ pos < hit.span.stop := by
  subst hr
  have hnumbered : r.matcher.pattern.Numbered := Pattern.numbered_of_compile hp
  have hbound := Query.bound_onward text
  constructor
  · intro hends
    obtain ⟨⟨hits, r'⟩, h⟩ := Regex.collect_of_ends hnumbered hlimit hends (text.size + 1) 0 r rfl
    exact ⟨hits, r', h⟩
  · intro fuel hits r' h
    obtain ⟨probes, hsweep, rfl⟩ := Regex.sweep_of_findAll h
    have hspans := hsweep.spans hnumbered hpins
    refine ⟨fun hit hhit => ?_, ?_, ⟨probes, hsweep, rfl, hsweep.length_le hbound⟩, fun pos hpos hfinds => ?_⟩
    · obtain ⟨x, hx, hfound⟩ := List.mem_filterMap.1 hhit
      exact (hspans x hx hit hfound).2
    · -- The later match begins where its search starts or behind, so not before the earlier one ends.
      refine ((hsweep.pairwise hbound).imp_of_mem (S := fun x y => ∀ hit again, x.found = some hit →
        y.found = some again → hit.span.stop ≤ again.span.start) ?_).filterMap _ ?_
      · rintro x y - hy ⟨hit, hfound, hresume⟩ hit' again hfound' hagain
        obtain rfl := Option.some.inj (hfound.symm.trans hfound')
        exact Nat.le_trans (Regex.stop_le_resume x.start hit)
          (Nat.le_trans hresume (hspans y hy again hagain).1)
      · exact fun x y hxy hit hfound again hagain => hxy hit again hfound hagain
    · obtain ⟨x, hx, hle, hturn⟩ := hsweep.turn_of hbound (Nat.zero_le pos) hpos
      have hnot : r.matcher.outcomeAt fuel { text } pos ≠ some (.failed, {}) := fun hfailed =>
        not_findsAt (q := .onward text 0)
          (Nat.le_trans hpos (Nat.le_of_eq (hbound 0).symm)) hfailed hfinds
      rcases hsweep.leftmost hnumbered hpins hlimit x hx with
        ⟨-, hall⟩ | ⟨hit, hfound, -, hearlier⟩
      · exact absurd (hall pos hle hpos) hnot
      · -- The search whose turn it is finds a match that begins there or before.
        have hbegin : hit.span.start ≤ pos :=
          Nat.le_of_not_lt fun hlt => hnot (hearlier pos hle hlt)
        have hresume := hturn hit hfound
        have hstart := (hspans x hx hit hfound).1
        refine ⟨hit, List.mem_filterMap.2 ⟨x, hx, hfound⟩, ?_⟩
        unfold Regex.resume at hresume
        split at hresume <;> omega

/-- The pattern `x*`. -/
def someXs : Pattern where
  options := {}
  names := .empty
  body := .box 1 (.loop ⟨0, none, false⟩) (.leaf 0 (.unit (.literal 120)) .nil) .nil
  rootId := 2

/-- The match of both `x` in `axxb` covers the offset between them, where a match begins too. -/
theorem findAll_someXs : Pattern.compile {} "x*".toList = .ok someXs ∧
    (∃ hits r' n, ∀ fuel, n ≤ fuel →
      Regex.findAll ⟨{ pattern := someXs }⟩ fuel #[97, 120, 120, 98] = some (hits, r')) ∧
    ∃ hits r', Regex.findAll ⟨{ pattern := someXs }⟩ 100 #[97, 120, 120, 98] = some (hits, r') ∧
      hits.map Match.span = [⟨0, 0⟩, ⟨1, 3⟩, ⟨3, 3⟩, ⟨4, 4⟩] ∧
      ∃ hit ∈ hits, hit.span.start = 2 ∨ hit.span.start < 2 ∧ 2 < hit.span.stop := by
  let r : Regex := ⟨{ pattern := someXs }⟩
  let text : Text := #[97, 120, 120, 98]
  have hp : Pattern.compile {} "x*".toList = .ok someXs := by decide +kernel
  obtain ⟨hends, hcovers⟩ := findAll_covers hp (by decide) (r := r) rfl rfl text
  have hdone : ∀ pos, pos ≤ 4 →
      ((r.matcher.fresh.exec 100 (Query.anchoredAt { text } pos)).bind (·.1)).isSome := by
    decide +kernel
  have hfinds : ∀ pos, pos ≤ 4 → r.matcher.FindsAt { text } pos := by
    intro pos hpos
    obtain ⟨hit, hbind⟩ := Option.isSome_iff_exists.1 (hdone pos hpos)
    obtain ⟨⟨found, m'⟩, hexec, rfl⟩ := Option.bind_eq_some_iff.1 hbind
    exact ⟨hit, m', Matcher.answers_of_exec hexec⟩
  have hspans : (r.findAll 100 text).map (fun answer => answer.1.map Match.span) =
      some [⟨0, 0⟩, ⟨1, 3⟩, ⟨3, 3⟩, ⟨4, 4⟩] := by decide +kernel
  obtain ⟨⟨hits, r'⟩, hall, hspans⟩ := Option.map_eq_some_iff.1 hspans
  obtain ⟨-, -, -, hcover⟩ := hcovers 100 hits r' hall
  refine ⟨hp, hends fun pos hpos => ?_, hits, r', hall, hspans, hcover 2 (by decide) (hfinds 2 (by decide))⟩
  obtain ⟨hit, m', h⟩ := hfinds pos hpos
  exact ⟨some hit, m', h⟩

end SpanRegex
