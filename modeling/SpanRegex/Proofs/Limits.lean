import SpanRegex.Proofs.Budget

/-! # Limits compared

A limit is looked at only where a visit is counted. Two settings that differ in nothing but the limit
make the same turns as long as both limits allow the visits that are made, so a search ends in the same
way under both if both allow all its visits.

* `Setting.run_agree`, `Setting.search_agree`: two settings that agree on the visits that are made.
* `Matcher.search_setLimit`: the same for two limits of one matcher.
* `exec_limits`: a limit only turns matches into none, and there is a least limit that does not;
  `leastLimit_threshold`: this limit can be told from one search.
-/

namespace SpanRegex
set_option autoImplicit false

/-! ## Turns under two limits -/

namespace Setting

/-- The settings differ in nothing but the limit. -/
structure Alike (s s' : Setting) : Prop where
  pattern : s'.pattern = s.pattern
  input : s'.input = s.input
  attached : s'.attached = s.attached

/-- Both limits allow the same numbers of visits up to `n`. -/
def Agree (s s' : Setting) (n : Nat) : Prop := ∀ visits, visits ≤ n → s.exceeds visits = s'.exceeds visits

theorem Agree.mono {s s' : Setting} {n n' : Nat} (h : s.Agree s' n) (hle : n' ≤ n) : s.Agree s' n' :=
  fun visits hvisits => h visits (Nat.le_trans hvisits hle)

variable {s s' : Setting} {m m' : Machine} {phase phase' : Phase}

theorem Alike.visit (h : s.Alike s') (m : Machine) (c : Cursor) : s'.visit m c = s.visit m c := by
  obtain ⟨pattern, input, attached, limit⟩ := s
  obtain ⟨pattern', input', attached', limit'⟩ := s'
  obtain ⟨rfl, rfl, rfl⟩ := h
  rfl

/-- A turn looks at the limit where it counts a visit. -/
theorem turn_agree (h : s.Alike s') (hagree : s.Agree s' (m.visits + phase.visited.length)) :
    s'.turn m phase = s.turn m phase := by
  cases phase with
  | settle success => rfl
  | walk c =>
    by_cases hc : c.chain = .nil
    · simp only [turn, hc]
    · have hallowed : s.exceeds m.visited.visits = s'.exceeds m.visited.visits :=
        hagree _ (by simp [Phase.visited, hc, Machine.visited])
      rw [turn_walk hc, turn_walk hc, h.visit, hallowed]

theorem run_agree (h : s.Alike s') (fuel : Nat) : ∀ {phase : Phase} {m m' : Machine} {v : Verdict},
    s.run fuel phase m = some (v, m') → s.Agree s' m'.visits → s'.run fuel phase m = some (v, m') := by
  induction fuel with
  | zero => intro phase m m' v hrun; simp [run] at hrun
  | succ fuel ih =>
    intro phase m m' v hrun hagree
    cases hturn : s.turn m phase with
    | going phase₁ m₁ =>
      simp only [run, hturn] at hrun
      have hfirst := turn_visits hturn
      have hrest := run_visits fuel hrun
      have hturn' : s'.turn m phase = s.turn m phase := turn_agree h (hagree.mono (by omega))
      simp only [run, hturn', hturn]
      exact ih hrun hagree
    | «over» v₁ m₁ =>
      simp only [run, hturn] at hrun
      obtain ⟨rfl, rfl⟩ := Prod.mk.inj (Option.some.inj hrun)
      -- A turn that is over has counted a visit only if that was one too many.
      have hcounted : m.visits + phase.visited.length ≤ m₁.visits := by
        rcases over_of_turn hturn with ⟨-, rfl, -, rfl⟩ | ⟨-, rfl, -, rfl⟩ | ⟨rfl, -⟩
        · exact Nat.le_refl _
        · exact Nat.le_refl _
        · have hlast : m₁.visits = m.visits + 1 := over_visits hturn
          have hone := phase.visited_length_le
          omega
      have hturn' : s'.turn m phase = s.turn m phase := turn_agree h (hagree.mono hcounted)
      simp only [run, hturn', hturn]

theorem search_agree (h : s.Alike s') {prefilter : Pattern.Prefilter} {fuel : Nat} (count : Nat) :
    ∀ {pos : Nat} {m m' : Machine} {v : Verdict}, s.search prefilter fuel count pos m = some (v, m') →
      s.Agree s' m'.visits → s'.search prefilter fuel count pos m = some (v, m') := by
  induction count with
  | zero => exact fun hsearch _ => hsearch
  | succ count ih =>
    intro pos m m' v hsearch hagree
    rw [search] at hsearch ⊢
    rw [h.input]
    split
    · rename_i haccepts
      rw [if_pos haccepts] at hsearch
      cases hattempt : s.attempt fuel pos m with
      | none => simp [hattempt] at hsearch
      | some r =>
        obtain ⟨v₁, m₁⟩ := r
        have hsame : s.Agree s' m₁.visits → s'.attempt fuel pos m = some (v₁, m₁) := by
          intro hagree₁
          unfold attempt
          rw [h.pattern]
          exact run_agree h fuel hattempt hagree₁
        rw [hattempt] at hsearch
        cases v₁ with
        | failed =>
          have hlater := search_visits count hsearch
          rw [hsame (hagree.mono (by omega))]
          exact ih hsearch hagree
        | matched =>
          obtain ⟨rfl, rfl⟩ := Prod.mk.inj (Option.some.inj hsearch)
          rw [hsame hagree]
        | exhausted =>
          obtain ⟨rfl, rfl⟩ := Prod.mk.inj (Option.some.inj hsearch)
          rw [hsame hagree]
    · rename_i haccepts
      rw [if_neg haccepts] at hsearch
      exact ih hsearch hagree

end Setting

/-! ## Searches under two limits -/

namespace Matcher

variable {m m' : Matcher} {q : Query} {fuel fuel' : Nat} {o : Outcome} {found : Option Match}

theorem search_setLimit {limit limit' : Option Nat} (h : (m.setLimit limit).search fuel q = some o)
    (hlimit : ∀ n, limit = some n → o.visits ≤ n) (hlimit' : ∀ n, limit' = some n → o.visits ≤ n) :
    (m.setLimit limit').search fuel q = some o := by
  have hallows : ∀ limit : Option Nat, (∀ n, limit = some n → o.visits ≤ n) →
      ∀ visits, visits ≤ o.visits → limit.any (· < visits) = false := by
    intro limit hlimit visits hvisits
    cases limit with
    | none => rfl
    | some n =>
      have hle := hlimit n rfl
      simp only [Option.any_some, decide_eq_false_iff_not]
      omega
  have hagree : ((m.setLimit limit).setting q).Agree ((m.setLimit limit').setting q) o.visits :=
    fun visits hvisits =>
      (hallows limit hlimit visits hvisits).trans (hallows limit' hlimit' visits hvisits).symm
  by_cases hbehind : q.bound < q.start
  · simp only [search, if_pos hbehind] at h ⊢
    exact h
  · simp only [search, if_neg hbehind] at h ⊢
    cases hsearch : ((m.setLimit limit).setting q).search (m.setLimit limit).pattern.prefilter fuel
        q.offsets q.start {} with
    | none => simp [hsearch] at h
    | some r =>
      obtain ⟨v, machine⟩ := r
      have hvisits : o.visits = machine.visits := by
        rw [hsearch] at h
        cases v <;> exact (Option.some.inj h) ▸ rfl
      have halike : ((m.setLimit limit).setting q).Alike ((m.setLimit limit').setting q) := ⟨rfl, rfl, rfl⟩
      have hsame : ((m.setLimit limit').setting q).search (m.setLimit limit').pattern.prefilter fuel
          q.offsets q.start {} = some (v, machine) :=
        Setting.search_agree halike q.offsets hsearch (hvisits ▸ hagree)
      rw [hsame]
      rwa [hsearch] at h

theorem visits_eq_of_found (h : m.search fuel q = some o) (hfound : o.found.isSome) :
    o.visits = (m.visited fuel q).length := by
  unfold search at h
  unfold visited
  split at h
  · obtain rfl := Option.some.inj h
    simp at hfound
  · rename_i hbehind
    rw [if_neg hbehind]
    split at h
    · simp at h
    · rename_i machine hsearch
      obtain rfl := Option.some.inj h
      simpa using Setting.search_visits _ hsearch
    · obtain rfl := Option.some.inj h
      simp at hfound

theorem visits_of_found {limit : Option Nat} (h : (m.setLimit limit).search fuel q = some o)
    (hfound : o.found.isSome) (n : Nat) (hlimit : limit = some n) : o.visits ≤ n := by
  rw [visits_eq_of_found h hfound]
  exact visited_within hlimit fuel q

theorem exec_eq_some (h : m.exec fuel q = some (found, m')) :
    ∃ o, m.search fuel q = some o ∧ o.found = found ∧ m'.captures = o.captures := by
  unfold exec at h
  split at h
  · rename_i o hsearch
    obtain ⟨rfl, rfl⟩ := Prod.mk.inj (Option.some.inj h)
    exact ⟨o, hsearch, rfl, rfl⟩
  · simp at h

theorem answers_of_outcome (h : m.search fuel q = some o) :
    m.Answers q o.found { m with captures := o.captures } :=
  answers_of_exec (show m.exec fuel q = some (o.found, { m with captures := o.captures }) by
    simp only [exec, h])

theorem search_of_le (hle : fuel ≤ fuel') (h : m.search fuel q = some o) : m.search fuel' q = some o := by
  by_cases hbehind : q.bound < q.start
  · simpa only [search, if_pos hbehind] using h
  · simp only [search, if_neg hbehind] at h ⊢
    cases hsearch : (m.setting q).search m.pattern.prefilter fuel q.offsets q.start {} with
    | none => simp [hsearch] at h
    | some r =>
      rw [Setting.search_of_le hle _ hsearch]
      rwa [hsearch] at h

theorem search_unique {o' : Outcome} (h : m.search fuel q = some o) (h' : m.search fuel' q = some o') : o = o' :=
  Option.some.inj
    ((search_of_le (Nat.le_max_left fuel fuel') h).symm.trans (search_of_le (Nat.le_max_right fuel fuel') h'))

/-- What is found under a limit is found under every larger one. -/
theorem answers_larger {limit limit' : Option Nat} {hit : Match}
    (hle : ∀ n', limit' = some n' → ∃ n, limit = some n ∧ n ≤ n')
    (h : (m.setLimit limit).Answers q (some hit) m') :
    ∃ m₂, (m.setLimit limit').Answers q (some hit) m₂ ∧ m₂.captures = m'.captures := by
  obtain ⟨fuel, hfuel⟩ := h
  obtain ⟨o, hsearch, hfound, hcaptures⟩ := exec_eq_some (hfuel fuel (Nat.le_refl fuel))
  have hwithin := visits_of_found hsearch (by simp [hfound])
  have hlarger : (m.setLimit limit').search fuel q = some o := by
    apply search_setLimit hsearch hwithin
    intro n' hn'
    obtain ⟨n, hn, hle⟩ := hle n' hn'
    exact Nat.le_trans (hwithin n hn) hle
  exact ⟨_, hfound ▸ answers_of_outcome hlarger, hcaptures.symm⟩

/-- Under a limit nothing is found, or what is found without. -/
theorem answers_limited (m : Matcher) (q : Query) (L : Nat) :
    (∃ m₁, (m.setLimit (some L)).Answers q none m₁) ∨
    ∃ hit m₁ m₂, (m.setLimit (some L)).Answers q (some hit) m₁ ∧
      (m.setLimit none).Answers q (some hit) m₂ ∧ m₁.captures = m₂.captures := by
  obtain ⟨found, m₁, hends⟩ := exec_ends (m := m.setLimit (some L)) rfl q
  have hanswers := answers_of_exec (hends _ (Nat.le_refl _))
  cases found with
  | none => exact .inl ⟨m₁, hanswers⟩
  | some hit =>
    have hall : ∀ n', (none : Option Nat) = some n' → ∃ n, some L = some n ∧ n ≤ n' := by simp
    obtain ⟨m₂, hunlimited, hcaptures⟩ := answers_larger hall hanswers
    exact .inr ⟨hit, m₁, m₂, hanswers, hunlimited, hcaptures.symm⟩

/-- Below the visits that an unlimited search makes, nothing is found. -/
theorem answers_below (h : (m.setLimit none).search fuel q = some o) {L : Nat} (hless : L < o.visits) :
    ∃ m₁, (m.setLimit (some L)).Answers q none m₁ := by
  obtain ⟨found, m₁, hends⟩ := exec_ends (m := m.setLimit (some L)) rfl q
  have hanswers := answers_of_exec (hends _ (Nat.le_refl _))
  cases found with
  | none => exact ⟨m₁, hanswers⟩
  | some hit =>
    -- The limited search would be the unlimited one, and make more visits than it is allowed.
    obtain ⟨o', hsearch, hfound, -⟩ := exec_eq_some (hends _ (Nat.le_refl _))
    have hwithin := visits_of_found hsearch (by simp [hfound])
    have hunlimited : (m.setLimit none).search _ q = some o' := search_setLimit hsearch hwithin (by simp)
    obtain rfl := search_unique h hunlimited
    exact absurd (hwithin L rfl) (Nat.not_le_of_lt hless)

/-- From the visits that an unlimited search makes on, a limit changes nothing. -/
theorem answers_from (h : (m.setLimit none).search fuel q = some o) {L : Nat} (hle : o.visits ≤ L) :
    (m.setLimit (some L)).Answers q o.found { m.setLimit (some L) with captures := o.captures } := by
  apply answers_of_outcome (search_setLimit h (by simp) _)
  intro n hn
  obtain rfl := Option.some.inj hn
  exact hle

/-- The visits that an unlimited search makes are the least limit under which it finds what it finds. -/
theorem answers_threshold {hit : Match} {m₂ : Matcher} (h : (m.setLimit none).Answers q (some hit) m₂) :
    ∃ T, (∀ L, L < T → ∃ m₁, (m.setLimit (some L)).Answers q none m₁) ∧
      ∀ L, T ≤ L → ∃ m₁, (m.setLimit (some L)).Answers q (some hit) m₁ ∧ m₁.captures = m₂.captures := by
  obtain ⟨fuel, hfuel⟩ := h
  obtain ⟨o, hsearch, hfound, hcaptures⟩ := exec_eq_some (hfuel fuel (Nat.le_refl fuel))
  refine ⟨o.visits, fun L hless => answers_below hsearch hless, fun L hle => ?_⟩
  exact ⟨_, hfound ▸ answers_from hsearch hle, hcaptures.symm⟩

end Matcher

/-- A limit only turns matches into none. What a search finds under a limit it also finds, with the same
captures, under every larger limit and without one. So a search under a limit finds nothing, or what it
finds without; and if it finds something without, then from some limit on it finds that, and below
nothing. -/
theorem exec_limits (m : Matcher) (q : Query) :
    (∀ (L : Nat) (L' : Option Nat) hit m₁, (∀ n, L' = some n → L ≤ n) →
      (m.setLimit (some L)).Answers q (some hit) m₁ →
      ∃ m₂, (m.setLimit L').Answers q (some hit) m₂ ∧ m₂.captures = m₁.captures) ∧
    (∀ L : Nat, (∃ m₁, (m.setLimit (some L)).Answers q none m₁) ∨
      ∃ hit m₁ m₂, (m.setLimit (some L)).Answers q (some hit) m₁ ∧
        (m.setLimit none).Answers q (some hit) m₂ ∧ m₁.captures = m₂.captures) ∧
    ∀ hit m₂, (m.setLimit none).Answers q (some hit) m₂ →
      ∃ T, (∀ L, L < T → ∃ m₁, (m.setLimit (some L)).Answers q none m₁) ∧
        ∀ L, T ≤ L → ∃ m₁, (m.setLimit (some L)).Answers q (some hit) m₁ ∧ m₁.captures = m₂.captures :=
  ⟨fun L _ _ _ hle h => Matcher.answers_larger (fun n hn => ⟨L, rfl, hle n hn⟩) h,
    fun L => m.answers_limited q L, fun _ _ h => Matcher.answers_threshold h⟩

/-- The pattern `(?:(?:a|)?)*b|a` is found in `b`, from some limit on, though not under a limit of 3. -/
theorem exec_limits_emptyTurns :
    Pattern.compile {} "(?:(?:a|)?)*b|a".toList = .ok emptyTurns ∧
    ∃ hit T, 3 < T ∧ ∀ L, T ≤ L →
      ∃ m₁, (({ pattern := emptyTurns } : Matcher).setLimit (some L)).Answers { text := #[98] } (some hit) m₁ := by
  let m : Matcher := { pattern := emptyTurns }
  let q : Query := { text := #[98] }
  have hfinds : ((m.setLimit none).exec 100 q).map (fun r => r.1.isSome) = some true := by decide +kernel
  have hlacks : ((m.setLimit (some 3)).exec 100 q).map (fun r => r.1.isSome) = some false := by
    decide +kernel
  obtain ⟨⟨found, m₂⟩, hexec, hfound⟩ := Option.map_eq_some_iff.1 hfinds
  obtain ⟨⟨found', m₃⟩, hexec', hfound'⟩ := Option.map_eq_some_iff.1 hlacks
  obtain ⟨hit, rfl⟩ := Option.isSome_iff_exists.1 hfound
  obtain ⟨T, -, hfrom⟩ := (exec_limits m q).2.2 hit m₂ (Matcher.answers_of_exec hexec)
  refine ⟨by decide +kernel, hit, T, ?_, fun L hL => ?_⟩
  · by_contra hless
    obtain ⟨m₁, hanswers, -⟩ := hfrom 3 (by omega)
    obtain ⟨rfl, -⟩ := hanswers.unique (Matcher.answers_of_exec hexec')
    simp at hfound'
  · obtain ⟨m₁, hanswers, -⟩ := hfrom L hL
    exact ⟨m₁, hanswers⟩

/-- One search under a limit tells the threshold, unless it lies above that limit. -/
theorem leastLimit_threshold (m : Matcher) (q : Query) (limit : Nat) :
    ∃ least, (∀ fuel, 4 * limit + 2 ≤ fuel → m.leastLimit? fuel limit q = some least) ∧
      (∀ T, least = some T → T ≤ limit ∧ ∃ hit m₂, (m.setLimit none).Answers q (some hit) m₂ ∧
        (∀ L, L < T → ∃ m₁, (m.setLimit (some L)).Answers q none m₁) ∧
        ∀ L, T ≤ L → ∃ m₁, (m.setLimit (some L)).Answers q (some hit) m₁ ∧ m₁.captures = m₂.captures) ∧
      (least = none → ∀ L, L ≤ limit → ∃ m₁, (m.setLimit (some L)).Answers q none m₁) := by
  obtain ⟨found, m₁, hends⟩ := Matcher.exec_ends (m := m.setLimit (some limit)) rfl q
  obtain ⟨o, hsearch, rfl, -⟩ := Matcher.exec_eq_some (hends _ (Nat.le_refl _))
  refine ⟨if o.found.isSome then some o.visits else none, fun fuel hle => ?_, ?_, ?_⟩
  · simp only [Matcher.leastLimit?, Matcher.search_of_le hle hsearch]
  · intro T hT
    split at hT
    · rename_i hfound
      obtain rfl := Option.some.inj hT
      have hwithin := Matcher.visits_of_found hsearch hfound
      have hunlimited : (m.setLimit none).search _ q = some o := Matcher.search_setLimit hsearch hwithin (by simp)
      obtain ⟨hit, hhit⟩ := Option.isSome_iff_exists.1 hfound
      refine ⟨hwithin limit rfl, hit, _, hhit ▸ Matcher.answers_of_outcome hunlimited,
        fun L => Matcher.answers_below hunlimited, fun L hle => ?_⟩
      have hfrom := Matcher.answers_from hunlimited hle
      rw [hhit] at hfrom
      exact ⟨_, hfrom, rfl⟩
    · cases hT
  · intro hnone L hle
    rcases m.answers_limited q L with h | ⟨hit, m₂, -, hanswers, -, -⟩
    · exact h
    · have hall : ∀ n, some limit = some n → ∃ k, some L = some k ∧ k ≤ n :=
        fun n hn => ⟨L, rfl, Option.some.inj hn ▸ hle⟩
      obtain ⟨m₃, hlarger, -⟩ := Matcher.answers_larger hall hanswers
      have hfound := (hlarger.unique (Matcher.answers_of_outcome hsearch)).1
      simp [← hfound] at hnone

end SpanRegex
