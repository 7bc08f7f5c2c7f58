import SpanRegex.Proofs.Attempts
import SpanRegex.Proofs.Drafts
import SpanRegex.Proofs.Exactness
import SpanRegex.Proofs.Prefilter

/-! # The machine and the priority semantics

On the patterns whose loops cannot be spoilt by backtracking, the machine finds what the recursion
with continuations finds.

* `Chain.tame`: every loop is unbounded and owes one repetition at most, or it is outermost and owes
  one at most or repeats a single node.
* `prefilter_sound`: offsets that the prefilter rejects have no match.
* `exec_eq_seek`: a search at one offset answers the first success of the recursion.
-/

namespace SpanRegex
set_option autoImplicit false

open Pattern (Chain Leaf Quantifier)

namespace Pattern

/-! ## Tame patterns -/

/-- The node is a leaf, or a group of literal units, which is how a character above U+FFFF is
stored. -/
def Chain.single : Chain → Bool
  | .leaf _ _ .nil => true
  | .box _ (.group none) body .nil => literals body
  | _ => false
where
  /-- Every node is a literal unit. -/
  literals : Chain → Bool
    | .nil => true
    | .leaf _ (.unit (.literal _)) next => literals next
    | _ => false

/-- No leaf is a reference. A loop is unbounded and owes one repetition at most, or it is
not in another loop and owes one repetition at most or repeats a single node. -/
def Chain.tame (nested : Bool) : Chain → Bool
  | .nil => true
  | .leaf _ op next => op.plain && next.tame nested
  | .box _ op body next =>
    next.tame nested && match op with
      | .group _ | .alternative | .look _ => body.tame nested
      | .loop q => body.tame true &&
        ((q.max == none && q.min ≤ 1) || (!nested && (q.min ≤ 1 || body.single)))

theorem Chain.rigid_of_literals {c : Chain} (h : single.literals c = true) : c.rigid = true := by
  fun_induction single.literals c with
  | case1 => rfl
  | case2 id u next ih => exact ih h
  | case3 => simp at h

theorem Chain.rigid_of_single {c : Chain} (h : c.single = true) : c.rigid = true := by
  unfold single at h
  split at h
  · rfl
  · simpa [rigid] using rigid_of_literals h
  · simp at h

theorem Chain.tame_of_nested {c : Chain} (h : c.tame true = true) : c.tame false = true := by
  induction c with
  | nil => rfl
  | leaf id op next ih =>
    simp only [tame, Bool.and_eq_true] at h ⊢
    exact ⟨h.1, ih h.2⟩
  | box id op body next ihbody ihnext =>
    simp only [tame, Bool.and_eq_true] at h ⊢
    refine ⟨ihnext h.1, ?_⟩
    cases op with
    | group capture => exact ihbody h.2
    | alternative => exact ihbody h.2
    | look look => exact ihbody h.2
    | loop q =>
      simp only [Bool.and_eq_true] at h ⊢
      refine ⟨h.2.1, ?_⟩
      simpa using Or.inl h.2.2

theorem Chain.steady_of_tame {c : Chain} : ∀ nested, c.tame nested = true → c.steady nested = true := by
  induction c with
  | nil => exact fun _ _ => rfl
  | leaf id op next ih =>
    intro nested h
    simp only [tame, steady, Bool.and_eq_true] at h ⊢
    exact ⟨h.1, ih nested h.2⟩
  | box id op body next ihbody ihnext =>
    intro nested h
    simp only [tame, steady, Bool.and_eq_true] at h ⊢
    refine ⟨ihnext nested h.1, ?_⟩
    cases op with
    | group capture => exact ihbody nested h.2
    | alternative => exact ihbody nested h.2
    | look look =>
      cases nested with
      | false => exact ihbody false h.2
      | true => exact ihbody false (tame_of_nested h.2)
    | loop q =>
      simp only [Bool.and_eq_true] at h ⊢
      refine ⟨ihbody true h.2.1, ?_⟩
      have hor := h.2.2
      simp only [Bool.or_eq_true, Bool.and_eq_true, Bool.not_eq_true'] at hor
      simp only [Quantifier.steady, Quantifier.countless, Bool.or_eq_true, Bool.and_eq_true,
        Bool.not_eq_true']
      rcases hor with ⟨hmax, hmin⟩ | ⟨hn, hmin | hsingle⟩
      · exact .inl (.inl ⟨hmin, .inl hmax⟩)
      · exact .inl (.inr ⟨hn, hmin⟩)
      · exact .inr ⟨rigid_of_single hsingle, .inl (.inl hn)⟩

end Pattern

/-! ## The prefilter -/

/-- Where the prefilter rejects an offset, the children of the root cannot be left. -/
theorem prefilter_sound {s : Setting} {pos : Nat}
    (h : s.pattern.prefilter.accepts s.input pos = false) : s.ends s.pattern.body pos = [] := by
  obtain ⟨id, op, next, hbody, hread⟩ := rejected_leaf h
  simp [hbody, Setting.ends, hread]

/-! ## One search -/

/-- A source that yields the ends of the children of the root decides a search at one offset. -/
theorem exec_ends {o : Pattern.Options} {cs : List Char} {p : Pattern}
    (hp : Pattern.compile o cs = .ok p) {m : Matcher} (hm : m.pattern = p) (hlimit : m.limit = none)
    {q : Query} (hmode : q.mode = .anchored) (hstart : q.start ≤ q.bound) {low asks : Nat → Prop}
    {pins : Prop} (hbody : (m.setting q).ChainYields low pins asks p.body q.start
      fun l => l = (m.setting q).ends p.body q.start) :
    ∃ found m', m.Answers q found m' ∧
      (found ≠ none ↔ ∃ e, e ∈ (m.setting q).ends p.body q.start) ∧
      (¬ pins → found.map Match.span =
        ((m.setting q).ends p.body q.start).head?.map fun e => ⟨q.start, e⟩) := by
  subst hm
  have hnumbered : (m.setting q).pattern.Numbered := Pattern.numbered_of_compile hp
  have hdecides := decides_of_yields (m := Machine.ready {}) hlimit hnumbered hbody rfl rfl rfl
  obtain ⟨found, m', hexec, hor⟩ := Matcher.exec_anchored hnumbered hmode hstart hdecides fun h =>
    (prefilter_sound (s := m.setting q) h).symm
  refine ⟨found, m', hexec, ?_⟩
  rcases hor with ⟨hnil, rfl⟩ | ⟨e, ⟨l, hl⟩, hfound, hspan⟩
  · rw [← hnil]
    exact ⟨by simp, fun _ => rfl⟩
  · have hmem : e ∈ (m.setting q).ends m.pattern.body q.start := by simp [← hl]
    have hle := ((m.setting q).ends_bounds m.pattern.body q.start e hmem).1
    refine ⟨iff_of_true hfound ⟨e, hmem⟩, fun hpins => ?_⟩
    rw [hspan hpins hle, ← hl]
    rfl

/-- On a tame pattern that pins no edge, a search at one offset ends and answers the first success of
the recursion with continuations. -/
theorem exec_eq_seek {o : Pattern.Options} {cs : List Char} {p : Pattern}
    (hp : Pattern.compile o cs = .ok p) (htame : p.body.tame false = true)
    (hpins : p.body.unpinned = true) {m : Matcher} (hm : m.pattern = p) (hlimit : m.limit = none)
    {q : Query} (hmode : q.mode = .anchored) :
    ∃ found m', m.Answers q found m' ∧
      found.map Match.span = if q.start ≤ q.bound then
        ((m.setting q).seek p.tree q.start some).map fun e => ⟨q.start, e⟩ else none := by
  by_cases hstart : q.start ≤ q.bound
  case neg => exact ⟨none, m, m.answers_behind (Nat.lt_of_not_le hstart), by simp [hstart]⟩
  rw [if_pos hstart]
  have hplaced := (Pattern.numbered_of_compile hp).placed.ofBody
  have hpins' : False ∨ p.body.unpinned = true := .inr hpins
  have hbody := chainYields_steady (s := m.setting q) hlimit p.body (fun _ => True) false hplaced
    (Chain.steady_of_tame false htame) hpins' (fun _ _ _ => trivial) q.start hstart
  obtain ⟨found, m', hexec, -, hspan⟩ := exec_ends hp hm hlimit hmode hstart hbody
  have hseek : (m.setting q).seek p.tree q.start some =
      ((m.setting q).ends p.body q.start).findSome? some :=
    (m.setting q).seek_eq_findSome p.body q.start some
  rw [hseek]
  refine ⟨found, m', hexec, (hspan not_false).trans (congrArg _ ?_)⟩
  cases (m.setting q).ends p.body q.start <;> rfl

/-- The pattern `(a|ab)*?c`. -/
def lazyPairs : Pattern where
  options := {}
  names := .empty
  body :=
    .box 6 (.loop ⟨0, none, true⟩)
      (.box 4 (.group (some (.numbered 1)))
        (.box 3 .alternative (.leaf 0 (.unit (.literal 97)) .nil)
          (.leaf 1 (.unit (.literal 97)) (.leaf 2 (.unit (.literal 98)) .nil))) .nil)
      (.leaf 5 (.unit (.literal 99)) .nil)
  rootId := 7

/-- On `abc` the shorter alternative is tried first and given up. -/
theorem exec_lazyPairs : Pattern.compile {} "(a|ab)*?c".toList = .ok lazyPairs ∧
    ∃ found m', ({ pattern := lazyPairs } : Matcher).Answers
        { text := #[97, 98, 99], mode := .anchored } found m' ∧
      found.map Match.span = some ⟨0, 3⟩ := by
  let m : Matcher := { pattern := lazyPairs }
  let q : Query := { text := #[97, 98, 99], mode := .anchored }
  have hp : Pattern.compile {} "(a|ab)*?c".toList = .ok lazyPairs := by decide +kernel
  have hseek : (m.setting q).seek lazyPairs.tree q.start some = some 3 := by decide +kernel
  have hexec := exec_eq_seek (m := m) (q := q) hp (by decide) (by decide) rfl rfl rfl
  rw [hseek, if_pos (by decide)] at hexec
  exact ⟨hp, hexec⟩

end SpanRegex
