import SpanRegex.Matching.Matcher

/-! # Runs

* `Setting.Reaches`: turns that go on lead from one state to another.
* `Setting.Ends`: every run with fuel enough ends in the same way; `Setting.Reaches.ends`.
* `Setting.reaches_of_run`: from a run with fuel to the turns that it takes.
* `Setting.search_of_ends`: a search whose attempts all end has an answer.
* `Matcher.Answers`: every search with fuel enough has the same answer; `Matcher.answers_of_search`,
  `Matcher.answers_of_exec`.
-/

namespace SpanRegex
set_option autoImplicit false

/-! ## Turns in a row -/

/-- Going turns lead from one state to another. -/
inductive Setting.Reaches (s : Setting) : Phase → Machine → Phase → Machine → Prop
  | refl (phase : Phase) (m : Machine) : s.Reaches phase m phase m
  | turn {phase phase' phase'' : Phase} {m m' m'' : Machine}
      (first : s.turn m phase = .going phase' m') (rest : s.Reaches phase' m' phase'' m'') :
      s.Reaches phase m phase'' m''

/-- All long enough runs end in the same way. -/
def Setting.Ends (s : Setting) (phase : Phase) (m : Machine) (v : Verdict) (m' : Machine) : Prop :=
  ∃ n, ∀ fuel, n ≤ fuel → s.run fuel phase m = some (v, m')

namespace Setting.Reaches

variable {s : Setting} {phase phase' phase'' : Phase} {m m' m'' : Machine}

theorem trans (h : s.Reaches phase m phase' m') (h' : s.Reaches phase' m' phase'' m'') :
    s.Reaches phase m phase'' m'' := by
  induction h with
  | refl => exact h'
  | turn first _ ih => exact .turn first (ih h')

theorem snoc (h : s.Reaches phase m phase' m') (last : s.turn m' phase' = .going phase'' m'') :
    s.Reaches phase m phase'' m'' :=
  h.trans (.turn last (.refl _ _))

theorem ends {v : Verdict} (h : s.Reaches phase m phase' m')
    (last : s.turn m' phase' = .over v m'') : s.Ends phase m v m'' := by
  induction h with
  | refl phase m =>
    refine ⟨1, fun fuel hf => ?_⟩
    obtain ⟨n, rfl⟩ : ∃ n, fuel = n + 1 := ⟨fuel - 1, by omega⟩
    simp only [Setting.run, last]
  | turn first _ ih =>
    obtain ⟨n, hn⟩ := ih last
    refine ⟨n + 1, fun fuel hf => ?_⟩
    obtain ⟨k, rfl⟩ : ∃ k, fuel = k + 1 := ⟨fuel - 1, by omega⟩
    simp only [Setting.run, first]
    exact hn k (by omega)

end Setting.Reaches

theorem Setting.reaches_of_run {s : Setting} {v : Verdict} {m' : Machine} (fuel : Nat) :
    ∀ {phase : Phase} {m : Machine}, s.run fuel phase m = some (v, m') →
      ∃ phase₁ m₁, s.Reaches phase m phase₁ m₁ ∧ s.turn m₁ phase₁ = .over v m' := by
  induction fuel with
  | zero => intro phase m h; simp [run] at h
  | succ fuel ih =>
    intro phase m h
    cases hturn : s.turn m phase with
    | going phase₁ m₁ =>
      simp only [run, hturn] at h
      obtain ⟨phase₂, m₂, hruns, hover⟩ := ih h
      exact ⟨phase₂, m₂, .turn hturn hruns, hover⟩
    | «over» v' m₁ =>
      simp only [run, hturn] at h
      obtain ⟨rfl, rfl⟩ := Prod.mk.inj (Option.some.inj h)
      exact ⟨phase, m, .refl _ _, hturn⟩

/-! ## More fuel -/

theorem Setting.run_of_le {s : Setting} {r : Verdict × Machine} (fuel : Nat) :
    ∀ {fuel' : Nat} {phase : Phase} {m : Machine}, fuel ≤ fuel' → s.run fuel phase m = some r →
      s.run fuel' phase m = some r := by
  induction fuel with
  | zero => intro fuel' phase m _ h; simp [run] at h
  | succ fuel ih =>
    intro fuel' phase m hle h
    obtain ⟨k, rfl⟩ : ∃ k, fuel' = k + 1 := ⟨fuel' - 1, by omega⟩
    rw [run] at h ⊢
    cases hturn : s.turn m phase with
    | going phase' m' =>
      rw [hturn] at h
      exact ih (Nat.le_of_succ_le_succ hle) h
    | «over» v m' =>
      rw [hturn] at h
      exact h

theorem Setting.search_of_le {s : Setting} {prefilter : Pattern.Prefilter} {fuel fuel' : Nat}
    (hle : fuel ≤ fuel') {r : Verdict × Machine} (count : Nat) : ∀ {pos : Nat} {m : Machine},
      s.search prefilter fuel count pos m = some r → s.search prefilter fuel' count pos m = some r := by
  induction count with
  | zero => exact fun h => h
  | succ count ih =>
    intro pos m h
    rw [search] at h ⊢
    split
    · rename_i haccepts
      rw [if_pos haccepts] at h
      cases hattempt : s.attempt fuel pos m with
      | none => simp [hattempt] at h
      | some r' =>
        have hattempt' : s.attempt fuel' pos m = some r' := run_of_le fuel hle hattempt
        obtain ⟨v, m'⟩ := r'
        rw [hattempt] at h
        rw [hattempt']
        cases v with
        | failed => exact ih h
        | matched => exact h
        | exhausted => exact h
    · rename_i haccepts
      rw [if_neg haccepts] at h
      exact ih h

/-! ## Searches -/

/-- All searches with fuel enough answer `found` and leave the matcher `m'`. -/
def Matcher.Answers (m : Matcher) (q : Query) (found : Option Match) (m' : Matcher) : Prop :=
  ∃ n, ∀ fuel, n ≤ fuel → m.exec fuel q = some (found, m')

theorem Matcher.answers_behind (m : Matcher) {q : Query} (h : q.bound < q.start) :
    m.Answers q none m :=
  ⟨0, fun fuel _ => by simp [exec, search, h]⟩

/-- What a search answers that is decided by the same attempt whatever the fuel. -/
theorem Matcher.answers_of_search {m : Matcher} {q : Query} (hstart : q.start ≤ q.bound) {v : Verdict}
    {machine : Machine} (h : ∃ n, ∀ fuel, n ≤ fuel →
      (m.setting q).search m.pattern.prefilter fuel q.offsets q.start {} = some (v, machine)) :
    m.Answers q (if v = .matched then Match.ofCaptures? machine.captures else none)
      { m with captures := if v = .matched then machine.captures else {} } := by
  obtain ⟨n, hn⟩ := h
  refine ⟨n, fun fuel hf => ?_⟩
  simp only [exec, search, if_neg (Nat.not_lt_of_le hstart), hn fuel hf]
  cases v <;> rfl

theorem Matcher.answers_of_exec {m m' : Matcher} {q : Query} {fuel : Nat} {found : Option Match}
    (h : m.exec fuel q = some (found, m')) : m.Answers q found m' := by
  refine ⟨fuel, fun fuel' hle => ?_⟩
  rw [← h]
  by_cases hbehind : q.bound < q.start
  · simp only [exec, search, if_pos hbehind]
  · simp only [exec, search, if_neg hbehind] at h ⊢
    cases hsearch : (m.setting q).search m.pattern.prefilter fuel q.offsets q.start {} with
    | none => simp [hsearch] at h
    | some r => rw [Setting.search_of_le hle _ hsearch]

theorem Matcher.Answers.unique {m m₁ m₂ : Matcher} {q : Query} {found₁ found₂ : Option Match}
    (h₁ : m.Answers q found₁ m₁) (h₂ : m.Answers q found₂ m₂) : found₁ = found₂ ∧ m₁ = m₂ := by
  obtain ⟨n₁, h₁⟩ := h₁
  obtain ⟨n₂, h₂⟩ := h₂
  have heq := (h₁ (max n₁ n₂) (by omega)).symm.trans (h₂ (max n₁ n₂) (by omega))
  exact Prod.mk.inj (Option.some.inj heq)

namespace Setting

variable {s : Setting}

/-- If every attempt up to `last` ends, then a search up to there ends, whatever it has tried
before. -/
theorem search_of_ends {last : Nat} (h : ∀ pos, pos ≤ last → ∀ m : Machine,
      ∃ v m', s.Ends (.walk (.start s.pattern.tree pos)) m.ready v m')
    (prefilter : Pattern.Prefilter) (count : Nat) : ∀ (pos : Nat) (m : Machine),
      pos + count ≤ last + 1 →
      ∃ r n, ∀ fuel, n ≤ fuel → s.search prefilter fuel count pos m = some r := by
  induction count with
  | zero => exact fun pos m _ => ⟨(.failed, m), 0, fun _ _ => rfl⟩
  | succ count ih =>
    intro pos m hlast
    by_cases haccepts : prefilter.accepts s.input pos = true
    · obtain ⟨v, m', n, hn⟩ := h pos (by omega) m
      have hattempt : ∀ fuel, n ≤ fuel → s.attempt fuel pos m = some (v, m') := hn
      by_cases hfailed : v = .failed
      · subst hfailed
        obtain ⟨r, n', hn'⟩ := ih (pos + 1) m' (by omega)
        refine ⟨r, max n n', fun fuel hf => ?_⟩
        rw [search, if_pos haccepts, hattempt fuel (by omega)]
        exact hn' fuel (by omega)
      · refine ⟨(v, m'), n, fun fuel hf => ?_⟩
        rw [search, if_pos haccepts, hattempt fuel hf]
        cases v with
        | failed => exact absurd rfl hfailed
        | matched => rfl
        | exhausted => rfl
    · obtain ⟨r, n, hn⟩ := ih (pos + 1) m (by omega)
      refine ⟨r, n, fun fuel hf => ?_⟩
      rw [search, if_neg haccepts]
      exact hn fuel hf

end Setting
end SpanRegex
