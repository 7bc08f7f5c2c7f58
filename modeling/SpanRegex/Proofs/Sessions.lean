import SpanRegex.Regex
import SpanRegex.Proofs.Drafts
import SpanRegex.Proofs.Groups
import SpanRegex.Proofs.Whole

/-! # Sessions

A matcher lives through searches, attachments and changes of its limit. What it shows as captures is what
the last of the searches left that did not start behind the end of its text.

* `Call`, `Session`: the calls made on a new matcher, latest first, and the matcher after them.
* `shown`: the captures that go with what a search answered; `lastShown`: those of the last search.
* `shown_of_exec`: a search leaves the captures of what it answers.
* `captures_after_search`: the captures after every search of a session.
-/

namespace SpanRegex
set_option autoImplicit false

/-- A call to a matcher, with the answer if it is a search. -/
inductive Call
  | exec (query : Query) (found : Option Match)
  | attach (text : Text) (captures : Captures) (names : Pattern.GroupNames)
  | detach
  | setLimit (limit : Option Nat)

/-- Calls made in a row on a new matcher for the pattern, latest first, and the matcher after them. -/
inductive Session (p : Pattern) : List Call → Matcher → Prop
  | new : Session p [] { pattern := p }
  | exec {log : List Call} {m m' : Matcher} {q : Query} {found : Option Match} (before : Session p log m)
      (answers : m.Answers q found m') : Session p (.exec q found :: log) m'
  | attach {log : List Call} {m : Matcher} (before : Session p log m) (text : Text) (captures : Captures)
      (names : Pattern.GroupNames) :
      Session p (.attach text captures names :: log) (m.attach text captures names)
  | detach {log : List Call} {m : Matcher} (before : Session p log m) :
      Session p (.detach :: log) m.detach
  | setLimit {log : List Call} {m : Matcher} (before : Session p log m) (limit : Option Nat) :
      Session p (.setLimit limit :: log) (m.setLimit limit)

/-- The captures of a match; none are set where nothing was found. -/
def shown : Option Match → Captures
  | some hit => hit.captures
  | none => {}

/-- The captures of what the last search found that did not start behind the end of its text. -/
def lastShown : List Call → Captures
  | [] => {}
  | .exec q found :: log => if q.start ≤ q.bound then shown found else lastShown log
  | .attach _ _ _ :: log | .detach :: log | .setLimit _ :: log => lastShown log

/-! ## One search -/

section

variable {m m' : Matcher} {q : Query} {found : Option Match} {fuel : Nat}

theorem Matcher.pattern_of_exec (h : m.exec fuel q = some (found, m')) : m'.pattern = m.pattern := by
  unfold exec at h
  split at h
  · obtain ⟨-, rfl⟩ := Prod.mk.inj (Option.some.inj h)
    rfl
  · simp at h

theorem Matcher.exec_behind (hbehind : q.bound < q.start) (h : m.exec fuel q = some (found, m')) :
    found = none ∧ m'.captures = m.captures := by
  have hnone : m.exec fuel q = some (none, m) := by
    simp only [exec, search, if_pos hbehind]
  obtain ⟨rfl, rfl⟩ := Prod.mk.inj (Option.some.inj (h.symm.trans hnone))
  exact ⟨rfl, rfl⟩

/-- Each way in which a search ends leaves the captures of what it answers: a success has set the slot of
the whole match, and any other end clears what the attempts have captured. -/
theorem shown_of_exec (hnumbered : m.pattern.Numbered) (hstart : q.start ≤ q.bound)
    (h : m.exec fuel q = some (found, m')) : m'.captures = shown found := by
  unfold Matcher.exec at h
  cases hsearch : m.search fuel q with
  | none => simp [hsearch] at h
  | some outcome =>
    rw [hsearch] at h
    obtain ⟨rfl, rfl⟩ := Prod.mk.inj (Option.some.inj h)
    unfold Matcher.search at hsearch
    rw [if_neg (Nat.not_lt_of_le hstart)] at hsearch
    split at hsearch
    · simp at hsearch
    · rename_i machine hmatched
      obtain rfl := Option.some.inj hsearch
      obtain ⟨pos, before, -, -, hattempt⟩ := Setting.attempt_of_search _ hmatched
      obtain ⟨hit, hhit⟩ :=
        (Setting.whole_of_attempt (s := m.setting q) hnumbered hattempt).ofCaptures
      rw [hhit]
      exact (Match.captures_ofCaptures hhit).symm
    · obtain rfl := Option.some.inj hsearch
      rfl

end

/-! ## All calls of a session -/

namespace Session

variable {p : Pattern} {log : List Call} {m m' : Matcher} {q : Query} {found : Option Match}

theorem pattern_eq (h : Session p log m) : m.pattern = p := by
  induction h with
  | new => rfl
  | exec before answers ih =>
    obtain ⟨n, hn⟩ := answers
    exact (Matcher.pattern_of_exec (hn n (Nat.le_refl n))).trans ih
  | attach before text captures names ih => exact ih
  | detach before ih => exact ih
  | setLimit before limit ih => exact ih

theorem shown_of_answers (h : Session p log m) (hnumbered : p.Numbered) (hstart : q.start ≤ q.bound)
    (answers : m.Answers q found m') : m'.captures = shown found := by
  obtain ⟨n, hn⟩ := answers
  apply shown_of_exec _ hstart (hn n (Nat.le_refl n))
  rw [h.pattern_eq]
  exact hnumbered

theorem captures_eq (h : Session p log m) (hnumbered : p.Numbered) : m.captures = lastShown log := by
  induction h with
  | new => rfl
  | @exec log m m' q found before answers ih =>
    by_cases hstart : q.start ≤ q.bound
    · rw [before.shown_of_answers hnumbered hstart answers, lastShown, if_pos hstart]
    · obtain ⟨n, hn⟩ := answers
      have hkept := (Matcher.exec_behind (Nat.lt_of_not_le hstart) (hn n (Nat.le_refl n))).2
      rw [hkept, ih, lastShown, if_neg hstart]
  | attach before text captures names ih => exact ih
  | detach before ih => exact ih
  | setLimit before limit ih => exact ih

end Session

/-- After a search that has found a match the captures of the matcher are those of the match. After one
that has found nothing no slot is set, whatever was found before, and attaching the last match attaches
none; only a search whose start is behind the end of the text, which finds nothing, leaves the captures
as they were. -/
theorem captures_after_search {o : Pattern.Options} {cs : List Char} {p : Pattern}
    (hp : Pattern.compile o cs = .ok p) {log : List Call} {q : Query} {found : Option Match} {m : Matcher}
    (h : Session p (.exec q found :: log) m) :
    (∀ hit, found = some hit → m.captures = hit.captures) ∧
    (found = none → q.start ≤ min q.stop q.text.size → m.captures = {} ∧
      ∀ (r : Regex) (source : Text),
        (r.attachFrom ⟨m⟩ source).matcher.attached = some ⟨source, {}, p.names⟩) ∧
    (min q.stop q.text.size < q.start → found = none ∧ m.captures = lastShown log) := by
  have hnumbered := Pattern.numbered_of_compile hp
  have hlast : m.captures = if q.start ≤ q.bound then shown found else lastShown log :=
    h.captures_eq hnumbered
  have hpattern := h.pattern_eq
  have hbehind : q.bound < q.start → found = none := by
    intro hlt
    cases h with
    | exec before answers =>
      obtain ⟨n, hn⟩ := answers
      exact (Matcher.exec_behind hlt (hn n (Nat.le_refl n))).1
  refine ⟨fun hit hfound => ?_, fun hfound hstart => ?_, fun hlt => ⟨hbehind hlt, ?_⟩⟩
  · have hstart : q.start ≤ q.bound := by
      apply Nat.le_of_not_lt
      intro hlt
      simp [hbehind hlt] at hfound
    rw [hlast, if_pos hstart, hfound, shown]
  · have hinside : q.start ≤ q.bound := hstart
    have hempty : m.captures = {} := by
      rw [hlast, if_pos hinside, hfound, shown]
    refine ⟨hempty, fun r source => ?_⟩
    simp only [Regex.attachFrom, Matcher.attach, Regex.pattern, hempty, hpattern]
  · have hpast : ¬ q.start ≤ q.bound := Nat.not_le_of_lt hlt
    rw [hlast, if_neg hpast]

/-- The pattern `(a)b`. -/
def groupedA : Pattern where
  options := {}
  names := .empty
  body :=
    .box 1 (.group (some firstGroup)) (.leaf 0 (.unit (.literal 97)) .nil)
      (.leaf 2 (.unit (.literal 98)) .nil)
  rootId := 3

/-- In `ab` a match is found, and none when one visit is allowed: then no slot is set. -/
theorem captures_groupedA : Pattern.compile {} "(a)b".toList = .ok groupedA ∧
    ∃ hit m, Session groupedA [.exec { text := #[97, 98] } none, .setLimit (some 1),
        .exec { text := #[97, 98] } (some hit)] m ∧
      hit.captures ≠ {} ∧ m.captures = {} := by
  let q : Query := { text := #[97, 98] }
  have hp : Pattern.compile {} "(a)b".toList = .ok groupedA := by decide +kernel
  have hsearches : ((({ pattern := groupedA } : Matcher).exec 100 q).bind fun first =>
      ((first.2.setLimit (some 1)).exec 100 q).map fun second =>
        (first.1.map fun hit => decide (hit.captures = {}), second.1.isSome)) =
      some (some false, false) := by decide +kernel
  obtain ⟨⟨found, m₁⟩, hfirst, hrest⟩ := Option.bind_eq_some_iff.1 hsearches
  obtain ⟨⟨again, m₂⟩, hsecond, hanswers⟩ := Option.map_eq_some_iff.1 hrest
  obtain ⟨hfound, hagain⟩ := Prod.mk.inj hanswers
  obtain ⟨hit, rfl, hset⟩ := Option.map_eq_some_iff.1 hfound
  obtain rfl : again = none := by simpa using hagain
  have hsession : Session groupedA [.exec q none, .setLimit (some 1), .exec q (some hit)] m₂ :=
    ((Session.new.exec (Matcher.answers_of_exec hfirst)).setLimit (some 1)).exec
      (Matcher.answers_of_exec hsecond)
  exact ⟨hp, hit, m₂, hsession, of_decide_eq_false hset,
    ((captures_after_search hp hsession).2.1 rfl (by decide)).1⟩

/-- A search of `ab` that starts behind its end finds nothing and leaves the captures of the match that
was found before. -/
theorem session_startBehind : Pattern.compile {} "(a)b".toList = .ok groupedA ∧
    ∃ hit m, Session groupedA [.exec { text := #[97, 98], start := 3 } none,
        .exec { text := #[97, 98] } (some hit)] m ∧ m.captures ≠ {} := by
  have hsearches : ((({ pattern := groupedA } : Matcher).exec 100 { text := #[97, 98] }).bind
      fun first => (first.2.exec 100 { text := #[97, 98], start := 3 }).map fun second =>
        (first.1.isSome, second.1.isSome, decide (second.2.captures = {}))) =
      some (true, false, false) := by decide +kernel
  obtain ⟨⟨found, m₁⟩, hfirst, hrest⟩ := Option.bind_eq_some_iff.1 hsearches
  obtain ⟨⟨again, m₂⟩, hsecond, hanswers⟩ := Option.map_eq_some_iff.1 hrest
  obtain ⟨hfound, hagain⟩ := Prod.mk.inj hanswers
  obtain ⟨hit, rfl⟩ := Option.isSome_iff_exists.1 hfound
  obtain rfl : again = none := by simpa using (Prod.mk.inj hagain).1
  exact ⟨by decide +kernel, hit, m₂,
    (Session.new.exec (Matcher.answers_of_exec hfirst)).exec (Matcher.answers_of_exec hsecond),
    of_decide_eq_false (Prod.mk.inj hagain).2⟩

end SpanRegex
