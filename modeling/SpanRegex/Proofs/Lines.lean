import SpanRegex.CommandLine.Search
import SpanRegex.Proofs.Sweeps

/-! # Lines are searched apart

The same regexes search one line after another, and one of them keeps the last match of the other
attached. Still each line is printed as if it were the only one: what a line leaves behind is written
again before the next one reads it.

* `exec_again`, `collect_again`: captures of earlier searches have no influence on a search.
* `Job.Alike`: two jobs that differ only in what earlier lines have left; `line_alike`, `alike_of_line`.
* `linesOutput_alone`: the lines in a row, each by the job as it was before the first.
* `report_alone`: a search prints for every line what a new job prints for that line alone.
-/

namespace SpanRegex
set_option autoImplicit false

/-! ## Searches after other searches -/

section

variable {m m' : Matcher} {q : Query} {fuel fuel' : Nat}

/-- A search that starts within the text writes the captures anew. -/
theorem Matcher.exec_again (hfresh : m'.fresh = m.fresh) (hstart : q.start ≤ q.bound) :
    m'.exec fuel q = m.exec fuel q := by
  obtain ⟨pattern, captures, attached, limit⟩ := m
  obtain ⟨pattern', captures', attached', limit'⟩ := m'
  obtain ⟨rfl, -, rfl, rfl⟩ := Matcher.mk.inj hfresh
  simp only [exec, search, if_neg (Nat.not_lt_of_le hstart)]
  rfl

theorem Matcher.exec_of_le (hle : fuel ≤ fuel') {r : Option Match × Matcher}
    (h : m.exec fuel q = some r) : m.exec fuel' q = some r := by
  by_cases hbehind : q.bound < q.start
  · simp only [exec, search, if_pos hbehind] at h ⊢
    exact h
  · simp only [exec, search, if_neg hbehind] at h ⊢
    cases hsearch : (m.setting q).search m.pattern.prefilter fuel q.offsets q.start {} with
    | none => simp [hsearch] at h
    | some decided =>
      rw [hsearch] at h
      rw [Setting.search_of_le hle _ hsearch]
      exact h

end

namespace Regex

variable {r r' : Regex} {query : Nat → Query} {fuel fuel' : Nat}

theorem exec_of_le (hle : fuel ≤ fuel') {q : Query} {answer : Option Match × Regex}
    (h : r.exec fuel q = some answer) : r.exec fuel' q = some answer := by
  obtain ⟨x, hx, rfl⟩ := Option.map_eq_some_iff.1 h
  simp only [exec, Matcher.exec_of_le hle hx, Option.map_some]

theorem exec_again (hfresh : r'.matcher.fresh = r.matcher.fresh) {q : Query} (hstart : q.start ≤ q.bound) :
    r'.exec fuel q = r.exec fuel q := by
  simp only [exec, Matcher.exec_again hfresh hstart]

theorem collect_again (hfresh : r'.matcher.fresh = r.matcher.fresh) (hstart : (query 0).start = 0)
    (count : Nat) : collect query fuel (count + 1) 0 r' = collect query fuel (count + 1) 0 r := by
  have hinside : (query 0).start ≤ (query 0).bound := by omega
  simp only [collect, exec_again hfresh hinside]
  rw [if_neg (Nat.not_lt_zero _), if_neg (Nat.not_lt_zero _)]

theorem collect_of_le (hle : fuel ≤ fuel') (count : Nat) : ∀ {start : Nat} {r : Regex}
    {answer : List Match × Regex}, collect query fuel count start r = some answer →
      collect query fuel' count start r = some answer := by
  induction count with
  | zero => exact fun h => h
  | succ count ih =>
    intro start r answer h
    rw [collect] at h ⊢
    by_cases hbehind : (query start).bound < start
    · rwa [if_pos hbehind] at h ⊢
    · rw [if_neg hbehind] at h ⊢
      cases hexec : r.exec fuel (query start) with
      | none => simp [hexec] at h
      | some x =>
        obtain ⟨found, r₁⟩ := x
        rw [hexec] at h
        rw [exec_of_le hle hexec]
        cases found with
        | none => exact h
        | some hit =>
          cases hrest : collect query fuel count (resume start hit) r₁ with
          | none => simp [hrest] at h
          | some more =>
            simp only [hrest] at h
            simp only [ih hrest]
            exact h

/-- A sweep leaves a regex that differs in its captures alone. -/
theorem fresh_of_collect (count : Nat) : ∀ {start : Nat} {r r' : Regex} {hits : List Match},
    collect query fuel count start r = some (hits, r') → r'.matcher.fresh = r.matcher.fresh := by
  induction count with
  | zero =>
    intro start r r' hits h
    obtain ⟨-, rfl⟩ := Prod.mk.inj (Option.some.inj h)
    rfl
  | succ count ih =>
    intro start r r' hits h
    rw [collect] at h
    split at h
    · obtain ⟨-, rfl⟩ := Prod.mk.inj (Option.some.inj h)
      rfl
    · split at h
      · simp at h
      · rename_i r₁ hexec
        obtain ⟨-, rfl⟩ := Prod.mk.inj (Option.some.inj h)
        exact (exec_fresh hexec).2
      · rename_i hit r₁ hexec
        split at h
        · simp at h
        · rename_i more r₂ hrest
          obtain ⟨-, rfl⟩ := Prod.mk.inj (Option.some.inj h)
          exact (ih hrest).trans (exec_fresh hexec).2

end Regex

namespace CommandLine.Job

variable {j j' j₀ : Job} {fuel fuel' : Nat} {marking : Marking}

/-! ## What a line leaves -/

/-- The jobs have the same patterns and limits, and the same match is attached if no back pattern decides
which. -/
structure Alike (j j' : Job) : Prop where
  arguments : j'.arguments = j.arguments
  pattern : j'.regex.pattern = j.regex.pattern
  limit : j'.regex.matcher.limit = j.regex.matcher.limit
  back : j'.back.map (fun r => r.matcher.fresh) = j.back.map fun r => r.matcher.fresh
  attached : j.back = none → j'.regex.matcher.attached = j.regex.matcher.attached

theorem Alike.refl (j : Job) : j.Alike j := ⟨rfl, rfl, rfl, rfl, fun _ => rfl⟩

theorem Alike.back_none (h : j.Alike j') : j'.back = none ↔ j.back = none := by
  have hback := h.back
  constructor
  · intro hnone
    rw [hnone] at hback
    exact Option.map_eq_none_iff.1 hback.symm
  · intro hnone
    rw [hnone] at hback
    exact Option.map_eq_none_iff.1 hback

theorem Alike.trans (h : j₀.Alike j) (h' : j.Alike j') : j₀.Alike j' where
  arguments := h'.arguments.trans h.arguments
  pattern := h'.pattern.trans h.pattern
  limit := h'.limit.trans h.limit
  back := h'.back.trans h.back
  attached hnone := (h'.attached (h.back_none.2 hnone)).trans (h.attached hnone)

def unsearched (j : Job) : Job := { j with regex := ⟨j.regex.matcher.fresh⟩ }

theorem unsearched_of_same (harguments : j'.arguments = j.arguments)
    (hpattern : j'.regex.pattern = j.regex.pattern)
    (hlimit : j'.regex.matcher.limit = j.regex.matcher.limit)
    (hattached : j'.regex.matcher.attached = j.regex.matcher.attached) (hback : j'.back = j.back) :
    j'.unsearched = j.unsearched := by
  obtain ⟨arguments, ⟨pattern, captures, attached, limit⟩, back⟩ := j
  obtain ⟨arguments', ⟨pattern', captures', attached', limit'⟩, back'⟩ := j'
  obtain rfl : arguments' = arguments := harguments
  obtain rfl : pattern' = pattern := hpattern
  obtain rfl : limit' = limit := hlimit
  obtain rfl : attached' = attached := hattached
  obtain rfl : back' = back := hback
  rfl

theorem attachBack_alike (h : j.Alike j') (line : Text) :
    (j'.attachBack fuel line).map unsearched = (j.attachBack fuel line).map unsearched := by
  unfold attachBack
  cases hj : j.back with
  | none =>
    have hj' := h.back_none.2 hj
    simp only [hj', Option.map_some]
    exact congrArg some
      (unsearched_of_same h.arguments h.pattern h.limit (h.attached hj) (hj'.trans hj.symm))
  | some back =>
    have hback := h.back
    rw [hj] at hback
    obtain ⟨back', hj', hfresh⟩ := Option.map_eq_some_iff.1 hback
    have hfind : back'.find fuel line 0 = back.find fuel line 0 :=
      Regex.exec_again hfresh (Nat.zero_le _)
    simp only [hj', hfind]
    cases back.find fuel line 0 with
    | none => rfl
    | some answer =>
      obtain ⟨found, searched⟩ := answer
      cases found with
      | none => exact congrArg some (unsearched_of_same h.arguments h.pattern h.limit rfl rfl)
      | some hit => exact congrArg some (unsearched_of_same h.arguments h.pattern h.limit rfl rfl)

theorem alike_of_attachBack {line : Text} (h : j.attachBack fuel line = some j') : j.Alike j' := by
  unfold attachBack at h
  cases hj : j.back with
  | none =>
    simp only [hj] at h
    obtain rfl := Option.some.inj h
    exact .refl j
  | some back =>
    simp only [hj] at h
    split at h
    · simp at h
    · rename_i hit searched hfind
      obtain rfl := Option.some.inj h
      exact ⟨rfl, rfl, rfl, by rw [hj]; exact congrArg some (Regex.exec_fresh hfind).2, by simp [hj]⟩
    · rename_i searched hfind
      obtain rfl := Option.some.inj h
      exact ⟨rfl, rfl, rfl, by rw [hj]; exact congrArg some (Regex.exec_fresh hfind).2, by simp [hj]⟩

theorem most_pos (a : Arguments) (line : Text) : ∃ count, most a line = count + 1 := by
  unfold most
  split
  · exact ⟨0, rfl⟩
  · exact ⟨line.size, rfl⟩

/-- A line is printed the same, and leaves the same job, whatever earlier lines have left. -/
theorem line_alike (h : j.Alike j') (number : Nat) (line : Text) :
    j'.line fuel marking number line = j.line fuel marking number line := by
  have hattach : (j'.attachBack fuel line).map unsearched = (j.attachBack fuel line).map unsearched :=
    attachBack_alike h line
  unfold Job.line
  cases hj : j.attachBack fuel line with
  | none =>
    rw [hj] at hattach
    rw [Option.map_eq_none_iff.1 hattach]
  | some j₁ =>
    rw [hj] at hattach
    obtain ⟨j₁', hj', hsame⟩ := Option.map_eq_some_iff.1 hattach
    obtain ⟨harguments, hregex, hback⟩ := Job.mk.inj hsame
    have hfresh : j₁'.regex.matcher.fresh = j₁.regex.matcher.fresh := (Regex.mk.inj hregex)
    obtain ⟨count, hcount⟩ := most_pos j₁.arguments line
    have harguments : j₁'.arguments = j₁.arguments := harguments
    have hback : j₁'.back = j₁.back := hback
    have hcollect : Regex.collect (query j₁.arguments line) fuel (count + 1) 0 j₁'.regex =
        Regex.collect (query j₁.arguments line) fuel (count + 1) 0 j₁.regex :=
      Regex.collect_again hfresh rfl count
    simp only [hj', harguments, hback, hcount, hcollect]

theorem alike_of_line {number : Nat} {line : Text} {printed : String}
    (h : j.line fuel marking number line = some (printed, j')) : j.Alike j' := by
  unfold Job.line at h
  split at h
  · simp at h
  · rename_i j₁ hattach
    split at h
    · simp at h
    · rename_i found regex hcollect
      obtain ⟨-, rfl⟩ := Prod.mk.inj (Option.some.inj h)
      obtain ⟨hpattern, hlimit⟩ := Matcher.same_of_fresh (Regex.fresh_of_collect _ hcollect)
      have hattached := congrArg Matcher.attached (Regex.fresh_of_collect _ hcollect)
      exact (alike_of_attachBack hattach).trans ⟨rfl, hpattern, hlimit, rfl, fun _ => hattached⟩

/-! ## Lines in a row -/

theorem exists_mapM {α β : Type} {f : α → Option β} {l : List α} :
    (∃ bs, l.mapM f = some bs) ↔ ∀ a ∈ l, ∃ b, f a = some b := by
  induction l with
  | nil => simp
  | cons a l ih =>
    rw [List.forall_mem_cons, ← ih, List.mapM_cons]
    cases f a <;> cases l.mapM f <;> simp

/-- The lines in a row are printed as each of them is by a job that is like the first. -/
theorem linesOutput_alone (lines : List (List Char)) : ∀ (j : Job) (number : Nat), j₀.Alike j →
    j.linesOutput fuel marking number lines = (lines.zipIdx number).mapM fun line =>
      (j₀.line fuel marking line.2 (Text.encode line.1).toArray).map Prod.fst := by
  induction lines with
  | nil => exact fun _ _ _ => rfl
  | cons cs rest ih =>
    intro j number halike
    rw [linesOutput, line_alike halike, List.zipIdx_cons, List.mapM_cons]
    cases hline : j₀.line fuel marking number (Text.encode cs).toArray with
    | none => rfl
    | some answer =>
      obtain ⟨printed, j₁⟩ := answer
      simp only [ih j₁ (number + 1) (alike_of_line hline)]
      cases (rest.zipIdx (number + 1)).mapM fun line =>
        (j₀.line fuel marking line.2 (Text.encode line.1).toArray).map Prod.fst <;> rfl

theorem line_of_le (hle : fuel ≤ fuel') {number : Nat} {line : Text} {answer : String × Job}
    (h : j.line fuel marking number line = some answer) :
    j.line fuel' marking number line = some answer := by
  have hattach : ∀ {j₁}, j.attachBack fuel line = some j₁ → j.attachBack fuel' line = some j₁ := by
    intro j₁ hj₁
    unfold attachBack at hj₁ ⊢
    split at hj₁
    · exact hj₁
    · rename_i back hback
      cases hfind : back.find fuel line 0 with
      | none => simp [hfind] at hj₁
      | some x =>
        have hfind' : back.find fuel' line 0 = some x := Regex.exec_of_le hle hfind
        rw [hfind] at hj₁
        simp only [hfind']
        exact hj₁
  unfold Job.line at h ⊢
  cases hj₁ : j.attachBack fuel line with
  | none => simp [hj₁] at h
  | some j₁ =>
    simp only [hj₁] at h
    simp only [hattach hj₁]
    cases hcollect : Regex.collect (query j₁.arguments line) fuel (most j₁.arguments line) 0 j₁.regex with
    | none => simp [hcollect] at h
    | some x =>
      simp only [hcollect] at h
      simp only [Regex.collect_of_le hle _ hcollect]
      exact h

/-- What a job that has just been prepared prints for one line, which has this number. -/
def printAlone (a : Arguments) (fuel : Nat) (marking : Marking) (number : Nat) (cs : List Char) :
    Option String :=
  match prepare a with
  | .inl _ => none
  | .inr j => (j.line fuel marking number (Text.encode cs).toArray).map Prod.fst

theorem printAlone_of_le {a : Arguments} (hle : fuel ≤ fuel') {number : Nat} {cs : List Char}
    {printed : String} (h : printAlone a fuel marking number cs = some printed) :
    printAlone a fuel' marking number cs = some printed := by
  unfold printAlone at h ⊢
  split at h
  · simp at h
  · obtain ⟨answer, hline, rfl⟩ := Option.map_eq_some_iff.1 h
    rw [line_of_le hle hline, Option.map_some]

theorem exists_fuel {a : Arguments} (lines : List (List Char × Nat))
    (h : ∀ line ∈ lines, ∃ fuel printed, printAlone a fuel marking line.2 line.1 = some printed) :
    ∃ fuel, ∀ line ∈ lines, ∃ printed, printAlone a fuel marking line.2 line.1 = some printed := by
  induction lines with
  | nil => exact ⟨0, fun _ hmem => absurd hmem List.not_mem_nil⟩
  | cons line rest ih =>
    obtain ⟨first, printed, hprinted⟩ := h line List.mem_cons_self
    obtain ⟨others, hothers⟩ := ih fun line hmem => h line (List.mem_cons_of_mem _ hmem)
    refine ⟨max first others, fun line' hmem => ?_⟩
    rcases List.mem_cons.1 hmem with rfl | hrest
    · exact ⟨printed, printAlone_of_le (Nat.le_max_left ..) hprinted⟩
    · obtain ⟨printed', hprinted'⟩ := hothers line' hrest
      exact ⟨printed', printAlone_of_le (Nat.le_max_right ..) hprinted'⟩

/-- The output of a search is what new jobs print for its lines, one job for each line; it ends if each of
these jobs ends. -/
theorem report_alone {a : Arguments} {j : Job} (hprepare : prepare a = .inr j) (marking : Marking)
    (text : String) :
    (∀ fuel, j.report fuel marking text =
      (((linesOf text).zipIdx 1).mapM fun line => printAlone a fuel marking line.2 line.1).map
        fun printed => { code := 0, out := String.join printed }) ∧
    ((∃ fuel outcome, j.report fuel marking text = some outcome) ↔
      ∀ line ∈ (linesOf text).zipIdx 1, ∃ fuel printed,
        printAlone a fuel marking line.2 line.1 = some printed) := by
  have hreport : ∀ fuel, j.report fuel marking text =
      (((linesOf text).zipIdx 1).mapM fun line => printAlone a fuel marking line.2 line.1).map
        fun printed => { code := 0, out := String.join printed } := by
    intro fuel
    rw [report, linesOutput_alone (linesOf text) j 1 (.refl j)]
    simp only [printAlone, hprepare]
  refine ⟨hreport, ?_, ?_⟩
  · rintro ⟨fuel, outcome, houtcome⟩ line hmem
    rw [hreport] at houtcome
    obtain ⟨printed, hprinted, -⟩ := Option.map_eq_some_iff.1 houtcome
    exact ⟨fuel, exists_mapM.1 ⟨printed, hprinted⟩ line hmem⟩
  · intro h
    obtain ⟨fuel, hfuel⟩ := exists_fuel _ h
    obtain ⟨printed, hprinted⟩ := exists_mapM.2 hfuel
    exact ⟨fuel, _, (hreport fuel).trans (congrArg (Option.map _) hprinted)⟩

/-- A pattern that refers to the group of a back pattern. -/
def crossed : Arguments where
  pattern := "b\\y1"
  back := some "(a+)"
  file := none
  options := {}
  anchored := false
  spans := false
  dump := false
  noColor := true
  schemeStart := 0
  stepLimit := some 40

theorem prepare_crossed : ∃ j, prepare crossed = .inr j := by
  cases h : prepare crossed with
  | inr j => exact ⟨j, rfl⟩
  | inl outcome =>
    have hcode : (match prepare crossed with | .inl _ => false | .inr _ => true) = true := by decide +kernel
    simp [h] at hcode

/-- On each line the group is that of the same line, and it is unset on a line where the back pattern is
not found. -/
theorem report_alone_crossed :
    ∃ j, prepare crossed = .inr j ∧
      j.report 40 .brackets "aabaa\nbbaa\nbb\nba" =
        some { code := 0, out := "aa[baa]\nb[baa]\n[ba]\n" } := by
  obtain ⟨j, hj⟩ := prepare_crossed
  refine ⟨j, hj, ?_⟩
  rw [(report_alone hj .brackets _).1]
  decide +kernel

end CommandLine.Job

end SpanRegex
