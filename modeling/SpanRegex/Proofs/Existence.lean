import SpanRegex.Proofs.Repetition

/-! # Whether there is a match

On tame patterns a search at one offset succeeds exactly if the pattern matches from there up to some
offset, with any number of repetitions that the bounds of each loop allow, those that do not move
forward included. Which of them are tried first makes no difference.

* `Chain.eager`: the chain with every loop greedy; `Setting.matches_eager`.
* `Setting.matches_congr`: what a tame chain matches depends on the input and the options alone.
* `exec_finds_iff`: a search finds a match if there is one, and then so does a search for the same
  pattern with other loops lazy.
-/

namespace SpanRegex
set_option autoImplicit false

open Pattern (Chain Container Quantifier)

/-! ## Greedy loops for lazy ones -/

namespace Pattern

def Quantifier.eager (q : Quantifier) : Quantifier := { q with lazy := false }

def Container.eager : Container → Container
  | .loop q => .loop q.eager
  | op => op

/-- Every loop tries many repetitions first. -/
def Chain.eager : Chain → Chain
  | .nil => .nil
  | .leaf id op next => .leaf id op next.eager
  | .box id op body next => .box id op.eager body.eager next.eager

theorem Chain.literals_eager (c : Chain) : single.literals c.eager = single.literals c := by
  fun_induction single.literals c with
  | case1 => rfl
  | case2 id u next ih => exact ih
  -- Some node is no literal, and its counterpart is none either.
  | case3 c hnil hliteral =>
    cases c with
    | nil => exact absurd rfl hnil
    | leaf id op next =>
      unfold eager single.literals
      split
      · rename_i h
        simp at h
      · rename_i u next' h
        obtain ⟨rfl, rfl, -⟩ := Chain.leaf.inj h
        exact absurd rfl (hliteral _ _ _)
      · rfl
    | box id op body next => rfl

theorem Chain.single_eager (c : Chain) : c.eager.single = c.single := by
  cases c with
  | nil => rfl
  | leaf id op next => cases next <;> rfl
  | box id op body next =>
    cases op with
    | group capture =>
      cases capture with
      | none => cases next <;> simp [eager, Container.eager, single, literals_eager]
      | some slot => rfl
    | look look => rfl
    | alternative => rfl
    | loop q => rfl

theorem Chain.tame_eager (c : Chain) : ∀ nested, c.eager.tame nested = c.tame nested := by
  induction c with
  | nil => exact fun _ => rfl
  | leaf id op next ih => exact fun nested => by simp only [eager, tame, ih]
  | box id op body next ihbody ihnext =>
    intro nested
    cases op with
    | group capture => simp only [eager, Container.eager, tame, ihbody, ihnext]
    | look look => simp only [eager, Container.eager, tame, ihbody, ihnext]
    | alternative => simp only [eager, Container.eager, tame, ihbody, ihnext]
    | loop q =>
      simp only [eager, Container.eager, Quantifier.eager, tame, ihbody, ihnext, single_eager]

end Pattern

/-- What a chain matches does not depend on the order in which repetitions are tried. -/
theorem Setting.matches_eager (s : Setting) (c : Chain) : s.Matches c.eager = s.Matches c := by
  induction c with
  | nil => rfl
  | leaf id op next ih =>
    funext pos e
    simp only [Chain.eager, Matches, ih]
  | box id op body next ihbody ihnext =>
    funext pos e
    cases op with
    | group capture => simp only [Chain.eager, Container.eager, Matches, ihbody, ihnext]
    | look look => simp only [Chain.eager, Container.eager, Matches, ihbody, ihnext]
    | alternative => simp only [Chain.eager, Container.eager, Matches, ihbody, ihnext]
    | loop q =>
      have hallows : ∀ n, q.eager.allows n ↔ q.allows n := fun _ => Iff.rfl
      simp only [Chain.eager, Container.eager, Matches, ihbody, ihnext, hallows]

/-- What a tame chain matches depends on the input and the options alone. -/
theorem Setting.matches_congr {s s' : Setting} (hinput : s'.input = s.input)
    (hoptions : s'.pattern.options = s.pattern.options) (c : Chain) :
    ∀ nested, c.tame nested = true → s'.Matches c = s.Matches c := by
  induction c with
  | nil => exact fun _ _ => rfl
  | leaf id op next ih =>
    intro nested h
    simp only [Chain.tame, Bool.and_eq_true] at h
    have hread : ∀ pos, s'.read? {} pos op = s.read? {} pos op := by
      intro pos
      cases op with
      | empty => rfl
      | unit test => simp only [read?, hinput, hoptions]
      | assertion condition => simp only [read?, hinput, hoptions]
      | pin edge => rfl
      | reference slot => simp [Pattern.Leaf.plain] at h
      | cross target ignoreCase => simp [Pattern.Leaf.plain] at h
    funext pos e
    simp only [Matches, hread, ih nested h.2]
  | box id op body next ihbody ihnext =>
    intro nested h
    simp only [Chain.tame, Bool.and_eq_true] at h
    have hnext := ihnext nested h.1
    funext pos e
    cases op with
    | group capture => simp only [Matches, ihbody nested h.2, hnext]
    | look look => simp only [Matches, ihbody nested h.2, hnext]
    | alternative => simp only [Matches, ihbody nested h.2, hnext]
    | loop q =>
      simp only [Bool.and_eq_true] at h
      simp only [Matches, ihbody true h.2.1, hnext]

/-! ## One search -/

theorem Pattern.options_of_compile {o : Pattern.Options} {cs : List Char} {p : Pattern}
    (hp : Pattern.compile o cs = .ok p) : p.options = o := by
  obtain ⟨l, -, rfl, -⟩ := Pattern.layout_of_compile hp
  rfl

/-- A search at one offset for a tame pattern ends, and it succeeds exactly if the pattern matches
from there up to some offset. -/
theorem answers_iff_matches {o : Pattern.Options} {cs : List Char} {p : Pattern}
    (hp : Pattern.compile o cs = .ok p) (htame : p.body.tame false = true) {m : Matcher}
    (hm : m.pattern = p) (hlimit : m.limit = none) {q : Query} (hmode : q.mode = .anchored) :
    ∃ found m', m.Answers q found m' ∧
      (found ≠ none ↔ q.start ≤ q.bound ∧ ∃ e, (m.setting q).Matches p.body q.start e) := by
  by_cases hstart : q.start ≤ q.bound
  case neg => exact ⟨none, m, m.answers_behind (Nat.lt_of_not_le hstart), by simp [hstart]⟩
  have hplaced := (Pattern.numbered_of_compile hp).placed.ofBody
  have hpins : True ∨ p.body.unpinned = true := .inl trivial
  have hbody := chainYields_steady (s := m.setting q) hlimit p.body (fun _ => True) false hplaced
    (Chain.steady_of_tame false htame) hpins (fun _ _ _ => trivial) q.start hstart
  obtain ⟨found, m', hexec, hfound, -⟩ := exec_ends hp hm hlimit hmode hstart hbody
  refine ⟨found, m', hexec, hfound.trans ?_⟩
  simp only [hstart, true_and, (m.setting q).mem_ends p.body q.start hstart]

/-- On a tame pattern, a search at one offset ends and succeeds exactly if the pattern matches from
there up to some offset. A pattern that differs in which loops are lazy is found at the same
offsets. -/
theorem exec_finds_iff {o : Pattern.Options} {cs : List Char} {p : Pattern}
    (hp : Pattern.compile o cs = .ok p) (htame : p.body.tame false = true) {m : Matcher}
    (hm : m.pattern = p) (hlimit : m.limit = none) {q : Query} (hmode : q.mode = .anchored) :
    ∃ found m', m.Answers q found m' ∧
      (found ≠ none ↔ q.start ≤ q.bound ∧ ∃ e, (m.setting q).Matches p.body q.start e) ∧
      ∀ (cs₁ : List Char) (p₁ : Pattern) (m₁ : Matcher), Pattern.compile o cs₁ = .ok p₁ →
        p₁.body.eager = p.body.eager → m₁.pattern = p₁ → m₁.limit = none →
        ∃ found₁ m₁', m₁.Answers q found₁ m₁' ∧ (found₁ ≠ none ↔ found ≠ none) := by
  obtain ⟨found, m', hanswers, hfound⟩ := answers_iff_matches hp htame hm hlimit hmode
  refine ⟨found, m', hanswers, hfound, fun cs₁ p₁ m₁ hp₁ heager hm₁ hlimit₁ => ?_⟩
  have htame₁ : p₁.body.tame false = true := by
    rw [← Chain.tame_eager, heager, Chain.tame_eager, htame]
  obtain ⟨found₁, m₁', hanswers₁, hfound₁⟩ := answers_iff_matches hp₁ htame₁ hm₁ hlimit₁ hmode
  refine ⟨found₁, m₁', hanswers₁, hfound₁.trans (Iff.trans ?_ hfound.symm)⟩
  have hinput : (m₁.setting q).input = (m.setting q).input := rfl
  have hoptions : (m₁.setting q).pattern.options = (m.setting q).pattern.options := by
    have h₁ := Pattern.options_of_compile hp₁
    have h := Pattern.options_of_compile hp
    simp only [Matcher.setting, hm₁, hm, h₁, h]
  have hmatches : (m₁.setting q).Matches p₁.body = (m.setting q).Matches p.body := by
    rw [← (m₁.setting q).matches_eager, heager, (m₁.setting q).matches_eager,
      Setting.matches_congr hinput hoptions p.body false htame]
  rw [hmatches]

/-- The pattern `(?:a|\m)*?b` if lazy, else `(?:a|\m)*b`. -/
def marks (lazy : Bool) : Pattern where
  options := {}
  names := .empty
  body :=
    .box 5 (.loop ⟨0, none, lazy⟩)
      (.box 3 (.group none)
        (.box 2 .alternative (.leaf 0 (.unit (.literal 97)) .nil) (.leaf 1 (.pin .start) .nil)) .nil)
      (.leaf 4 (.unit (.literal 98)) .nil)
  rootId := 6

/-- On `aab` both orders find a match, though every repetition can also be empty. -/
theorem exec_marks :
    Pattern.compile {} "(?:a|\\m)*?b".toList = .ok (marks true) ∧
    Pattern.compile {} "(?:a|\\m)*b".toList = .ok (marks false) ∧
    ∀ lazy, ∃ found m', ({ pattern := marks lazy } : Matcher).Answers
      { text := #[97, 97, 98], mode := .anchored } found m' ∧ found ≠ none := by
  let m : Matcher := { pattern := marks true }
  let q : Query := { text := #[97, 97, 98], mode := .anchored }
  have hlazy : Pattern.compile {} "(?:a|\\m)*?b".toList = .ok (marks true) := by decide +kernel
  have heager : Pattern.compile {} "(?:a|\\m)*b".toList = .ok (marks false) := by decide +kernel
  obtain ⟨found, m', hanswers, hfound, hother⟩ :=
    exec_finds_iff (m := m) (q := q) hlazy (by decide) rfl rfl rfl
  have hmatches : (m.setting q).Matches (marks true).body 0 3 := by
    rw [← (m.setting q).mem_ends (marks true).body 0 (Nat.zero_le _) 3]
    decide +kernel
  have hsome : found ≠ none := hfound.2 ⟨by decide, 3, hmatches⟩
  refine ⟨hlazy, heager, fun lazy => ?_⟩
  cases lazy with
  | true => exact ⟨found, m', hanswers, hsome⟩
  | false =>
    obtain ⟨found₁, m₁', hanswers₁, hfound₁⟩ :=
      hother _ _ { pattern := marks false } heager (by decide) rfl rfl
    exact ⟨found₁, m₁', hanswers₁, hfound₁.2 hsome⟩

end SpanRegex
