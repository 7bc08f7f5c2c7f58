import SpanRegex.Proofs.Drafts
import SpanRegex.Proofs.Stale
import SpanRegex.Proofs.Whole

/-! # A scan finds the leftmost match

A scan finds what a search at one offset finds at the least offset at which one succeeds. What the
attempts before it have left in the machine makes no difference.

* `Setting.outcome`: how a search ends and what it captures; `outcome_succ`: one offset, then the
  others.
* `exec_outcome`: what a matcher answers is determined by the outcome.
* `outcome_of_ends`: the outcome of a scan whose attempts all end.
* `exec_scan`: a scan finds the leftmost match.
-/

namespace SpanRegex
set_option autoImplicit false

/-! ## Outcomes -/

/-- How a search from the offset on ends, and the captures of its match. -/
def Setting.outcome (s : Setting) (prefilter : Pattern.Prefilter) (fuel count pos : Nat) (m : Machine) :
    Option (Verdict × Captures) :=
  (s.search prefilter fuel count pos m).map fun r => (r.1, if r.1 = .matched then r.2.captures else {})

namespace Setting

variable {s : Setting} (hlimit : s.limit = none) (prefilter : Pattern.Prefilter) (fuel : Nat)

theorem outcome_step (count pos : Nat) (m : Machine) :
    s.outcome prefilter fuel (count + 1) pos m =
      if prefilter.accepts s.input pos then
        match s.attempt fuel pos m with
        | none => none
        | some (.failed, m') => s.outcome prefilter fuel count (pos + 1) m'
        | some (v, m') => some (v, if v = .matched then m'.captures else {})
      else s.outcome prefilter fuel count (pos + 1) m := by
  unfold outcome
  rw [search]
  split
  · cases s.attempt fuel pos m with
    | none => rfl
    | some r =>
      obtain ⟨v, m'⟩ := r
      cases v <;> rfl
  · rfl

theorem outcome_failed {count pos : Nat} {m : Machine} {r : Verdict × Captures}
    (h : s.outcome prefilter fuel count pos m = some r) (hr : r.1 = .failed) : r = (.failed, {}) := by
  obtain ⟨⟨v, m'⟩, -, rfl⟩ := Option.map_eq_some_iff.1 h
  obtain rfl : v = .failed := hr
  rfl

include hlimit

/-- The outcome does not depend on what earlier attempts have left. -/
theorem outcome_stale (count : Nat) : ∀ (pos : Nat) (a b : Machine),
    s.outcome prefilter fuel count pos b = s.outcome prefilter fuel count pos a := by
  induction count with
  | zero => exact fun _ _ _ => rfl
  | succ count ih =>
    intro pos a b
    rw [outcome_step, outcome_step]
    split
    · have hattempt := attempt_stale hlimit fuel pos a b
      cases ha : s.attempt fuel pos a with
      | none =>
        rw [ha] at hattempt
        rw [Option.map_eq_none_iff.1 hattempt]
      | some r =>
        obtain ⟨v, a'⟩ := r
        rw [ha] at hattempt
        obtain ⟨r', hb, hr'⟩ := Option.map_eq_some_iff.1 hattempt
        obtain ⟨v', b'⟩ := r'
        obtain ⟨rfl, hcaptures⟩ := Prod.mk.inj hr'
        rw [hb]
        cases v' with
        | failed => exact ih (pos + 1) a' b'
        | matched => simpa using hcaptures
        | exhausted => rfl
    · exact ih (pos + 1) a b

/-- A fresh search at the first offset, and then fresh searches at the others if it has failed. -/
theorem outcome_succ (count pos : Nat) (m : Machine) :
    s.outcome prefilter fuel (count + 1) pos m =
      (s.outcome prefilter fuel 1 pos {}).bind fun r =>
        if r.1 = .failed then s.outcome prefilter fuel count (pos + 1) {} else some r := by
  rw [outcome_stale hlimit prefilter fuel (count + 1) pos {} m, outcome_step, outcome_step]
  split
  · cases s.attempt fuel pos {} with
    | none => rfl
    | some r =>
      obtain ⟨v, m'⟩ := r
      cases v with
      | failed => exact outcome_stale hlimit prefilter fuel count (pos + 1) {} m'
      | matched => rfl
      | exhausted => rfl
  · rfl

/-- A search that ends fails at every offset, or it ends as a fresh search at the first offset at which
one does not fail. -/
theorem outcome_inv (count : Nat) : ∀ {pos : Nat} {r : Verdict × Captures},
    s.outcome prefilter fuel count pos {} = some r →
    (r.1 = .failed ∧ ∀ at', pos ≤ at' → at' < pos + count →
      s.outcome prefilter fuel 1 at' {} = some (.failed, {})) ∨
    ∃ at', pos ≤ at' ∧ at' < pos + count ∧ r.1 ≠ .failed ∧
      s.outcome prefilter fuel 1 at' {} = some r ∧
      ∀ earlier, pos ≤ earlier → earlier < at' →
        s.outcome prefilter fuel 1 earlier {} = some (.failed, {}) := by
  induction count with
  | zero => exact fun h => .inl ⟨(congrArg Prod.fst (Option.some.inj h)).symm, fun at' h h' => by omega⟩
  | succ count ih =>
    intro pos r h
    rw [outcome_succ hlimit] at h
    obtain ⟨first, hfirst, h⟩ := Option.bind_eq_some_iff.1 h
    by_cases hfailed : first.1 = .failed
    · rw [if_pos hfailed] at h
      rw [outcome_failed prefilter fuel hfirst hfailed] at hfirst
      have hfrom : ∀ at', pos ≤ at' →
          (pos + 1 ≤ at' → s.outcome prefilter fuel 1 at' {} = some (.failed, {})) →
          s.outcome prefilter fuel 1 at' {} = some (.failed, {}) := by
        intro at' hle hlater
        rcases Nat.eq_or_lt_of_le hle with rfl | hlt
        · exact hfirst
        · exact hlater hlt
      rcases ih h with ⟨hr, hall⟩ | ⟨at', hle, hlt, hr, hat, hearlier⟩
      · exact .inl ⟨hr, fun at' h h' => hfrom at' h fun h => hall at' h (by omega)⟩
      · exact .inr ⟨at', by omega, by omega, hr, hat,
          fun earlier h h' => hfrom earlier h fun h => hearlier earlier h h'⟩
    · rw [if_neg hfailed] at h
      obtain rfl := Option.some.inj h
      exact .inr ⟨pos, Nat.le_refl _, by omega, hfailed, hfirst, fun earlier h h' => by omega⟩

theorem verdict_of_attempt {pos : Nat} {v : Verdict} {m m' : Machine}
    (h : s.attempt fuel pos m = some (v, m')) : v ≠ .exhausted := by
  obtain ⟨phase, m₁, -, hover⟩ := reaches_of_run fuel h
  rintro rfl
  cases phase with
  | settle success =>
    simp only [turn, Machine.settle] at hover
    split at hover
    · have hv := (Turn.over.inj hover).1
      cases success <;> simp at hv
    · simp at hover
  | walk c =>
    by_cases hc : c.chain = .nil
    · simp only [turn, hc] at hover
      simp at hover
    · rw [turn_visit hlimit m₁ hc] at hover
      simp at hover

/-- A fresh search at one offset that ends fails without captures, or it finds a match. -/
theorem outcome_one (hnumbered : s.pattern.Numbered) {pos : Nat} {r : Verdict × Captures}
    (h : s.outcome prefilter fuel 1 pos {} = some r) :
    r = (.failed, {}) ∨ ∃ hit, r.1 = .matched ∧ Match.ofCaptures? r.2 = some hit := by
  rw [outcome_step] at h
  split at h
  · cases hattempt : s.attempt fuel pos {} with
    | none => simp [hattempt] at h
    | some r' =>
      obtain ⟨v, m'⟩ := r'
      rw [hattempt] at h
      cases v with
      | failed => exact .inl (Option.some.inj h).symm
      | matched =>
        obtain rfl := (Option.some.inj h).symm
        obtain ⟨hit, hhit⟩ := (whole_of_attempt hnumbered hattempt).ofCaptures
        exact .inr ⟨hit, rfl, hhit⟩
      | exhausted => exact absurd rfl (verdict_of_attempt hlimit fuel hattempt)
  · exact .inl (Option.some.inj h).symm

end Setting

/-! ## What a matcher answers -/

def Query.anchoredAt (q : Query) (pos : Nat) : Query := { q with start := pos, mode := .anchored }

def Matcher.fresh (m : Matcher) : Matcher := { m with captures := {} }

/-- What the matcher answers after a search that has ended in this way, and the matcher afterwards. -/
def Matcher.answer (m : Matcher) (r : Verdict × Captures) : Option Match × Matcher :=
  (if r.1 = .matched then Match.ofCaptures? r.2 else none, { m with captures := r.2 })

theorem Matcher.exec_outcome (m : Matcher) (fuel : Nat) {q : Query} (h : q.start ≤ q.bound) :
    m.exec fuel q =
      ((m.setting q).outcome m.pattern.prefilter fuel q.offsets q.start {}).map m.answer := by
  unfold exec search Setting.outcome
  rw [if_neg (Nat.not_lt_of_le h)]
  cases (m.setting q).search m.pattern.prefilter fuel q.offsets q.start {} with
  | none => rfl
  | some r =>
    obtain ⟨v, machine⟩ := r
    cases v <;> rfl

/-- A search at the offset on a fresh matcher finds a match. -/
def Matcher.FindsAt (m : Matcher) (q : Query) (pos : Nat) : Prop :=
  ∃ hit m', m.fresh.Answers (q.anchoredAt pos) (some hit) m'

/-- The answers of the fresh searches at the offsets of a search that all end. -/
theorem exists_answers {m : Matcher} {q : Query}
    (hends : ∀ pos, q.start ≤ pos → pos ≤ q.bound →
      ∃ found m', m.fresh.Answers (q.anchoredAt pos) found m') :
    ∃ R : Nat → Option Match × Matcher, ∀ pos, q.start ≤ pos → pos ≤ q.bound →
      m.fresh.Answers (q.anchoredAt pos) (R pos).1 (R pos).2 := by
  have hends' : ∀ pos, ∃ r : Option Match × Matcher, q.start ≤ pos → pos ≤ q.bound →
      m.fresh.Answers (q.anchoredAt pos) r.1 r.2 := by
    intro pos
    by_cases hpos : q.start ≤ pos ∧ pos ≤ q.bound
    · obtain ⟨found, m', h⟩ := hends pos hpos.1 hpos.2
      exact ⟨(found, m'), fun _ _ => h⟩
    · exact ⟨(none, m), fun h h' => absurd ⟨h, h'⟩ hpos⟩
  choose R hR using hends'
  exact ⟨R, hR⟩

section

variable {m : Matcher} (hnumbered : m.pattern.Numbered) (hlimit : m.limit = none) {q : Query}

include hnumbered hlimit

theorem outcome_of_answers {pos : Nat} (hpos : pos ≤ q.bound) {found : Option Match} {m' : Matcher}
    (h : m.fresh.Answers (q.anchoredAt pos) found m') :
    (∃ n, ∀ fuel, n ≤ fuel → (m.setting q).outcome m.pattern.prefilter fuel 1 pos {} =
      some (if found = none then (.failed, {}) else (.matched, m'.captures))) ∧
    (found ≠ none → Match.ofCaptures? m'.captures = found) := by
  obtain ⟨n, hn⟩ := h
  have houtcome : ∀ fuel, n ≤ fuel → (m.setting q).outcome m.pattern.prefilter fuel 1 pos {} =
      some (if found = none then (.failed, {}) else (.matched, m'.captures)) ∧
      (found ≠ none → Match.ofCaptures? m'.captures = found) := by
    intro fuel hf
    have hexec := hn fuel hf
    rw [m.fresh.exec_outcome fuel (q := q.anchoredAt pos) hpos] at hexec
    obtain ⟨r, hr, hanswer⟩ := Option.map_eq_some_iff.1 hexec
    obtain ⟨rfl, rfl⟩ := Prod.mk.inj hanswer
    rcases Setting.outcome_one (s := m.setting q) hlimit _ fuel hnumbered hr with
      rfl | ⟨hit, hmatched, hhit⟩
    · exact ⟨hr, fun h => absurd rfl h⟩
    · obtain ⟨v, captures⟩ := r
      obtain rfl : v = .matched := hmatched
      refine ⟨Eq.trans hr (congrArg some ?_), fun _ => rfl⟩
      simp [hhit]
  exact ⟨⟨n, fun fuel hf => (houtcome fuel hf).1⟩, (houtcome n (Nat.le_refl n)).2⟩

/-- A scan whose attempts all end fails if all of them fail; otherwise it ends as the first one that
succeeds. -/
theorem outcome_of_ends {R : Nat → Option Match × Matcher} (count : Nat) : ∀ pos,
    pos + count ≤ q.bound + 1 →
    (∀ at', pos ≤ at' → at' < pos + count →
      m.fresh.Answers (q.anchoredAt at') (R at').1 (R at').2) →
    ((∀ at', pos ≤ at' → at' < pos + count → (R at').1 = none) ∧
      ∃ n, ∀ fuel, n ≤ fuel →
        (m.setting q).outcome m.pattern.prefilter fuel count pos {} = some (.failed, {})) ∨
    ∃ at', pos ≤ at' ∧ at' < pos + count ∧ (R at').1 ≠ none ∧
      (∀ earlier, pos ≤ earlier → earlier < at' → (R earlier).1 = none) ∧
      ∃ n, ∀ fuel, n ≤ fuel →
        (m.setting q).outcome m.pattern.prefilter fuel count pos {} =
          some (.matched, (R at').2.captures) := by
  -- On the number of offsets left; a failed attempt leaves nothing that the next one reads.
  induction count with
  | zero => exact fun pos _ _ => .inl ⟨fun at' h h' => by omega, 0, fun _ _ => rfl⟩
  | succ count ih =>
    intro pos hlast hends
    obtain ⟨⟨n, hn⟩, -⟩ := outcome_of_answers hnumbered hlimit (by omega)
      (hends pos (Nat.le_refl _) (by omega))
    have hsucc := fun fuel => Setting.outcome_succ (s := m.setting q) hlimit m.pattern.prefilter fuel
      count pos {}
    by_cases hfirst : (R pos).1 = none
    · have hrest : ∀ fuel, n ≤ fuel →
          (m.setting q).outcome m.pattern.prefilter fuel (count + 1) pos {} =
            (m.setting q).outcome m.pattern.prefilter fuel count (pos + 1) {} := by
        intro fuel hf
        rw [hsucc, hn fuel hf]
        simp [hfirst]
      have hnone : ∀ at', pos ≤ at' → (pos + 1 ≤ at' → (R at').1 = none) → (R at').1 = none := by
        intro at' hle h
        by_cases heq : at' = pos
        · exact heq ▸ hfirst
        · exact h (by omega)
      rcases ih (pos + 1) (by omega) fun at' h h' => hends at' (by omega) (by omega) with
        ⟨hall, n', hn'⟩ | ⟨at', hle, hlt, hsome, hearlier, n', hn'⟩
      · refine .inl ⟨fun at' h h' => hnone at' h fun h => hall at' h (by omega), max n n',
          fun fuel hf => ?_⟩
        rw [hrest fuel (by omega), hn' fuel (by omega)]
      · refine .inr ⟨at', by omega, by omega, hsome,
          fun earlier h h' => hnone earlier h fun h => hearlier earlier h h', max n n',
          fun fuel hf => ?_⟩
        rw [hrest fuel (by omega), hn' fuel (by omega)]
    · refine .inr ⟨pos, Nat.le_refl _, by omega, hfirst, fun earlier h h' => by omega, n,
        fun fuel hf => ?_⟩
      rw [hsucc, hn fuel hf]
      simp [hfirst]

/-- A scan whose attempts all end finds nothing if none of them does; otherwise it answers what the
first one that succeeds answers. -/
theorem answers_scan (hmode : q.mode = .scan) (hstart : q.start ≤ q.bound)
    {R : Nat → Option Match × Matcher}
    (hR : ∀ pos, q.start ≤ pos → pos ≤ q.bound → m.fresh.Answers (q.anchoredAt pos) (R pos).1 (R pos).2) :
    ((∀ pos, q.start ≤ pos → pos ≤ q.bound → (R pos).1 = none) ∧ ∃ m', m.Answers q none m') ∨
    ∃ pos, q.start ≤ pos ∧ pos ≤ q.bound ∧ (R pos).1 ≠ none ∧
      (∀ earlier, q.start ≤ earlier → earlier < pos → (R earlier).1 = none) ∧
      m.Answers q (R pos).1 { m with captures := (R pos).2.captures } := by
  have hoffsets : q.offsets = q.bound + 1 - q.start := by simp [Query.offsets, hmode]
  -- The answer of the scan, once its outcome is known.
  have hanswers : ∀ r : Verdict × Captures, (∃ n, ∀ fuel, n ≤ fuel →
      (m.setting q).outcome m.pattern.prefilter fuel (q.bound + 1 - q.start) q.start {} = some r) →
      m.Answers q (m.answer r).1 (m.answer r).2 := by
    rintro r ⟨n, hn⟩
    refine ⟨n, fun fuel hf => ?_⟩
    rw [m.exec_outcome fuel hstart, hoffsets, hn fuel hf]
    rfl
  rcases outcome_of_ends hnumbered hlimit (q.bound + 1 - q.start) q.start (by omega)
      (fun pos h h' => hR pos h (by omega)) with ⟨hall, hscan⟩ | ⟨pos, hle, hlt, hsome, hearlier, hscan⟩
  · exact .inl ⟨fun pos h h' => hall pos h (by omega), _, hanswers _ hscan⟩
  · have hpos : pos ≤ q.bound := by omega
    have hwhole := (outcome_of_answers hnumbered hlimit hpos (hR pos hle hpos)).2 hsome
    refine .inr ⟨pos, hle, hpos, hsome, hearlier, ?_⟩
    have h := hanswers _ hscan
    rwa [show (m.answer (.matched, (R pos).2.captures)).1 = (R pos).1 from hwhole] at h

theorem answers_of_ends (hmode : q.mode = .scan) (hstart : q.start ≤ q.bound)
    (hends : ∀ pos, q.start ≤ pos → pos ≤ q.bound →
      ∃ found m', m.fresh.Answers (q.anchoredAt pos) found m') :
    ∃ found m', m.Answers q found m' := by
  obtain ⟨R, hR⟩ := exists_answers hends
  rcases answers_scan hnumbered hlimit hmode hstart hR with ⟨-, m', h⟩ | ⟨pos, -, -, -, -, h⟩
  · exact ⟨none, m', h⟩
  · exact ⟨_, _, h⟩

end

/-- A scan whose attempts all end finds a match exactly if a fresh search at one of its offsets does,
and it answers and captures what the fresh search at the least such offset does. -/
theorem exec_scan {o : Pattern.Options} {cs : List Char} {p : Pattern}
    (hp : Pattern.compile o cs = .ok p) {m : Matcher} (hm : m.pattern = p) (hlimit : m.limit = none)
    {q : Query} (hmode : q.mode = .scan)
    (hends : ∀ pos, q.start ≤ pos → pos ≤ q.bound →
      ∃ found m', m.fresh.Answers (q.anchoredAt pos) found m') :
    ∃ found m', m.Answers q found m' ∧
      (found ≠ none ↔ ∃ pos, q.start ≤ pos ∧ pos ≤ q.bound ∧ m.FindsAt q pos) ∧
      ∀ pos hit m₁, q.start ≤ pos → pos ≤ q.bound →
        m.fresh.Answers (q.anchoredAt pos) (some hit) m₁ →
        (∀ earlier, q.start ≤ earlier → earlier < pos → ¬ m.FindsAt q earlier) →
        found = some hit ∧ m'.captures = m₁.captures := by
  subst hm
  have hnumbered := Pattern.numbered_of_compile hp
  by_cases hstart : q.start ≤ q.bound
  case neg =>
    exact ⟨none, m, m.answers_behind (Nat.lt_of_not_le hstart),
      ⟨fun h => absurd rfl h, fun ⟨pos, h, h', _⟩ => by omega⟩, fun pos hit m₁ h h' => by omega⟩
  obtain ⟨R, hR⟩ := exists_answers hends
  have hfinds : ∀ pos, q.start ≤ pos → pos ≤ q.bound → (m.FindsAt q pos ↔ (R pos).1 ≠ none) := by
    intro pos h h'
    constructor
    · rintro ⟨hit, m₁, hanswers⟩
      rw [← (hanswers.unique (hR pos h h')).1]
      simp
    · intro hsome
      obtain ⟨hit, hhit⟩ := Option.ne_none_iff_exists'.1 hsome
      exact ⟨hit, (R pos).2, hhit ▸ hR pos h h'⟩
  rcases answers_scan hnumbered hlimit hmode hstart hR with
    ⟨hall, m', hanswers⟩ | ⟨pos, hle, hpos, hsome, hearlier, hanswers⟩
  · have hnone : ∀ pos, q.start ≤ pos → pos ≤ q.bound → ¬ m.FindsAt q pos := fun pos h h' hfind =>
      (hfinds pos h h').1 hfind (hall pos h h')
    refine ⟨none, m', hanswers, ⟨fun h => absurd rfl h, ?_⟩, ?_⟩
    · rintro ⟨pos, h, h', hfind⟩
      exact absurd hfind (hnone pos h h')
    · intro pos hit m₁ h h' hfresh
      exact absurd ⟨hit, m₁, hfresh⟩ (hnone pos h h')
  · have hfind : m.FindsAt q pos := (hfinds pos hle hpos).2 hsome
    refine ⟨(R pos).1, _, hanswers, ⟨fun _ => ⟨pos, hle, hpos, hfind⟩, fun _ => hsome⟩, ?_⟩
    intro pos' hit m₁ h h' hfresh hleast
    obtain rfl : pos' = pos := by
      refine Nat.le_antisymm (Nat.le_of_not_lt fun hlt => hleast pos hle hlt hfind)
        (Nat.le_of_not_lt fun hlt => ?_)
      exact (hfinds pos' h h').1 ⟨hit, m₁, hfresh⟩ (hearlier pos' h hlt)
    obtain ⟨hfound, hafter⟩ := hfresh.unique (hR pos' hle hpos)
    exact ⟨hfound.symm, by rw [hafter]⟩

/-- The pattern `(?:ab|a)\x7b2\x7dc`. -/
def twoForks : Pattern where
  options := {}
  names := .empty
  body :=
    .box 6 (.loop ⟨2, some 2, false⟩)
      (.box 4 (.group none)
        (.box 3 .alternative (.leaf 0 (.unit (.literal 97)) (.leaf 1 (.unit (.literal 98)) .nil))
          (.leaf 2 (.unit (.literal 97)) .nil)) .nil)
      (.leaf 5 (.unit (.literal 99)) .nil)
  rootId := 7

/-- In `abxaac` the attempts before the one that succeeds leave the loop with other counts. -/
theorem exec_twoForks : Pattern.compile {} "(?:ab|a)\x7b2\x7dc".toList = .ok twoForks ∧
    ∃ found m', ({ pattern := twoForks } : Matcher).Answers
      { text := #[97, 98, 120, 97, 97, 99] } found m' ∧ found ≠ none := by
  let m : Matcher := { pattern := twoForks }
  let q : Query := { text := #[97, 98, 120, 97, 97, 99] }
  have hp : Pattern.compile {} "(?:ab|a)\x7b2\x7dc".toList = .ok twoForks := by decide +kernel
  have hdone : ∀ pos, pos ≤ 6 → (m.fresh.exec 100 (q.anchoredAt pos)).isSome := by decide +kernel
  have hends : ∀ pos, q.start ≤ pos → pos ≤ q.bound →
      ∃ found m', m.fresh.Answers (q.anchoredAt pos) found m' := by
    intro pos _ hpos
    obtain ⟨⟨found, m'⟩, h⟩ := Option.isSome_iff_exists.1 (hdone pos hpos)
    exact ⟨found, m', Matcher.answers_of_exec h⟩
  obtain ⟨found, m', hanswers, hfound, -⟩ := exec_scan (m := m) hp rfl rfl rfl hends
  refine ⟨hp, found, m', hanswers, hfound.2 ⟨3, by decide, by decide, ?_⟩⟩
  have hhit : ((m.fresh.exec 100 (q.anchoredAt 3)).bind (·.1)).isSome := by decide +kernel
  obtain ⟨hit, h⟩ := Option.isSome_iff_exists.1 hhit
  obtain ⟨⟨_, m₁⟩, hexec, rfl⟩ := Option.bind_eq_some_iff.1 h
  exact ⟨hit, m₁, Matcher.answers_of_exec hexec⟩

end SpanRegex
