import Mathlib.Data.List.Basic
import SpanRegex.Matching.Turn

/-! # The priority semantics

What a pattern matches, by recursion on its tree and without a machine. The leaves are those that
read the input alone.

* `Repeat.times`, `Repeat.upTo`, `Repeat.many`: repetitions of a step, with a continuation.
* `Setting.seek`: the first success of a chain and what follows it.
* `Setting.ends`: every offset at which a chain can be left, those tried first coming first.
* `Setting.seek_eq_findSome`: the first success is the first of the ends that can go on.
* `Setting.ends_bounds`: ends lie between the offset of entry and the end of the input.
-/

namespace SpanRegex
set_option autoImplicit false

open Pattern (Chain Leaf Look Quantifier)

/-! ## Repetitions -/

/-- A step of a match: from an offset, with what is to be done after it. -/
abbrev Step : Type := Nat → (Nat → Option Nat) → Option Nat

namespace Repeat

/-- Steps in a row, as many as are due. -/
def times (step : Step) : Nat → Step
  | 0, pos, k => k pos
  | n + 1, pos, k => step pos fun e => times step n e k

/-- At most `n` steps in a row. -/
def upTo (lazy : Bool) (step : Step) : Nat → Step
  | 0, pos, k => k pos
  | n + 1, pos, k =>
    if lazy then k pos <|> step pos fun e => upTo lazy step n e k
    else (step pos fun e => upTo lazy step n e k) <|> k pos

/-- Any number of steps in a row; a step that does not move forward is the last one. -/
def many (lazy : Bool) (step : Step) (stop pos : Nat) (k : Nat → Option Nat) : Option Nat :=
  let onward := fun e => if _h : pos < e ∧ e ≤ stop then many lazy step stop e k else k e
  if lazy then k pos <|> step pos onward else step pos onward <|> k pos
termination_by stop - pos
decreasing_by omega

/-- The offsets after as many steps as are due. -/
def timesEnds (step : Nat → List Nat) : Nat → Nat → List Nat
  | 0, pos => [pos]
  | n + 1, pos => (step pos).flatMap (timesEnds step n)

/-- The offsets after at most `n` steps. -/
def upToEnds (lazy : Bool) (step : Nat → List Nat) : Nat → Nat → List Nat
  | 0, pos => [pos]
  | n + 1, pos =>
    if lazy then pos :: (step pos).flatMap (upToEnds lazy step n)
    else (step pos).flatMap (upToEnds lazy step n) ++ [pos]

/-- The offsets after any number of steps. -/
def manyEnds (lazy : Bool) (step : Nat → List Nat) (stop pos : Nat) : List Nat :=
  let onward := fun e => if _h : pos < e ∧ e ≤ stop then manyEnds lazy step stop e else [e]
  if lazy then pos :: (step pos).flatMap onward else (step pos).flatMap onward ++ [pos]
termination_by stop - pos
decreasing_by omega

end Repeat

/-- How many repetitions may follow those that are due. -/
def Pattern.Quantifier.spare? (q : Quantifier) : Option Nat :=
  q.max.map fun max => max.toNat - q.min.toNat

/-- The repetitions that follow those that are due. -/
def Repeat.rest (q : Quantifier) (step : Step) (stop : Nat) : Step :=
  match q.spare? with
  | none => many q.lazy step stop
  | some n => upTo q.lazy step n

/-- The offsets after the repetitions that follow those that are due. -/
def Repeat.restEnds (q : Quantifier) (step : Nat → List Nat) (stop pos : Nat) : List Nat :=
  match q.spare? with
  | none => manyEnds q.lazy step stop pos
  | some n => upToEnds q.lazy step n pos

/-! ## Chains -/

/-- A look passes if its children are found from the shifted offset on, or are not. -/
def Pattern.Look.passes (look : Look) (pos : Nat) (found : Nat → Bool) : Bool :=
  (look.behind.getD 0 ≤ pos && found (pos - look.behind.getD 0)) != look.negated

namespace Setting

/-- The first success of a chain from an offset on, `k` being what is to be done after it. -/
def seek (s : Setting) : Chain → Step
  | .nil, pos, k => k pos
  | .leaf _ op next, pos, k => (s.read? {} pos op).bind fun e => s.seek next e k
  | .box _ op body next, pos, k =>
    match op with
    | .group _ => s.seek body pos fun e => s.seek next e k
    | .look look =>
      if look.passes pos fun p => (s.seek body p some).isSome then s.seek next pos k else none
    | .alternative => s.seek body pos k <|> s.seek next pos k
    | .loop q =>
      Repeat.times (s.seek body) q.min.toNat pos fun e =>
        Repeat.rest q (s.seek body) s.input.stop e fun e' => s.seek next e' k

/-- The offsets at which a chain can be left, those tried first coming first. -/
def ends (s : Setting) : Chain → Nat → List Nat
  | .nil, pos => [pos]
  | .leaf _ op next, pos => (s.read? {} pos op).toList.flatMap (s.ends next)
  | .box _ op body next, pos =>
    match op with
    | .group _ => (s.ends body pos).flatMap (s.ends next)
    | .look look =>
      if look.passes pos fun p => !(s.ends body p).isEmpty then s.ends next pos else []
    | .alternative => s.ends body pos ++ s.ends next pos
    | .loop q =>
      ((Repeat.timesEnds (s.ends body) q.min.toNat pos).flatMap
        (Repeat.restEnds q (s.ends body) s.input.stop)).flatMap (s.ends next)

end Setting

/-! ## The first success is the first of the ends -/

theorem findSome_cons {α β : Type} (x : α) (xs : List α) (k : α → Option β) :
    (x :: xs).findSome? k = (k x).or (xs.findSome? k) := by
  cases h : k x <;> simp [h]

theorem findSome_flatMap {α β γ : Type} (xs : List α) (f : α → List β) (k : β → Option γ) :
    (xs.flatMap f).findSome? k = xs.findSome? fun x => (f x).findSome? k := by
  induction xs with
  | nil => rfl
  | cons x xs ih => simp [List.findSome?_append, findSome_cons, ih]

namespace Repeat

variable {step : Step} {steps : Nat → List Nat}

theorem times_eq_findSome (h : ∀ pos k, step pos k = (steps pos).findSome? k) (n : Nat) :
    ∀ pos k, times step n pos k = (timesEnds steps n pos).findSome? k := by
  induction n with
  | zero => intro pos k; simp [times, timesEnds]
  | succ n ih =>
    intro pos k
    simp only [times, timesEnds, h, ih, findSome_flatMap]

theorem upTo_eq_findSome (h : ∀ pos k, step pos k = (steps pos).findSome? k) (lazy : Bool)
    (n : Nat) : ∀ pos k, upTo lazy step n pos k = (upToEnds lazy steps n pos).findSome? k := by
  induction n with
  | zero => intro pos k; simp [upTo, upToEnds]
  | succ n ih =>
    intro pos k
    cases lazy <;>
      simp [upTo, upToEnds, h, ih, findSome_flatMap, findSome_cons, List.findSome?_append]

theorem many_eq_findSome (h : ∀ pos k, step pos k = (steps pos).findSome? k) (lazy : Bool)
    (stop pos : Nat) (k : Nat → Option Nat) :
    many lazy step stop pos k = (manyEnds lazy steps stop pos).findSome? k := by
  induction hn : stop - pos using Nat.strongRecOn generalizing pos with
  | ind n ih =>
    have honward : ∀ e, (if _h : pos < e ∧ e ≤ stop then many lazy step stop e k else k e) =
        (if _h : pos < e ∧ e ≤ stop then manyEnds lazy steps stop e else [e]).findSome? k := by
      intro e
      split
      · exact ih (stop - e) (by omega) e rfl
      · simp
    rw [many, manyEnds]
    simp only [honward, h]
    cases lazy <;> simp [findSome_flatMap, findSome_cons, List.findSome?_append]

theorem rest_eq_findSome (h : ∀ pos k, step pos k = (steps pos).findSome? k) (q : Quantifier)
    (stop pos : Nat) (k : Nat → Option Nat) :
    rest q step stop pos k = (restEnds q steps stop pos).findSome? k := by
  unfold rest restEnds
  cases q.spare? with
  | none => exact many_eq_findSome h q.lazy stop pos k
  | some n => exact upTo_eq_findSome h q.lazy n pos k

end Repeat

namespace Setting

variable (s : Setting)

/-- The first success is the first of the ends from which the continuation succeeds. -/
theorem seek_eq_findSome (c : Chain) : ∀ (pos : Nat) (k : Nat → Option Nat),
    s.seek c pos k = (s.ends c pos).findSome? k := by
  induction c with
  | nil => intro pos k; simp [seek, ends]
  | leaf id op next ih =>
    intro pos k
    cases h : s.read? {} pos op <;> simp [seek, ends, h, ih]
  | box id op body next ihbody ihnext =>
    intro pos k
    cases op with
    | group capture => simp only [seek, ends, ihbody, ihnext, findSome_flatMap]
    | look look =>
      have hfound : (fun p => (s.seek body p some).isSome) = fun p => !(s.ends body p).isEmpty := by
        funext p
        cases h : s.ends body p <;> simp [ihbody, h]
      simp only [seek, ends, hfound]
      split
      · exact ihnext pos k
      · rfl
    | alternative => simp [seek, ends, ihbody, ihnext, List.findSome?_append]
    | loop q =>
      simp only [seek, ends, Repeat.times_eq_findSome ihbody, Repeat.rest_eq_findSome ihbody, ihnext,
        findSome_flatMap]

/-! ## Bounds -/

end Setting

/-- The offsets that a step can lead to are not before its own, nor beyond the end. -/
def Bounded (stop : Nat) (step : Nat → List Nat) : Prop :=
  ∀ pos e, e ∈ step pos → pos ≤ e ∧ (pos ≤ stop → e ≤ stop)

namespace Bounded

variable {stop : Nat} {step step' : Nat → List Nat}

theorem flatMap (h : Bounded stop step) (h' : Bounded stop step') :
    Bounded stop fun pos => (step pos).flatMap step' := by
  intro pos e he
  obtain ⟨mid, hmid, he⟩ := List.mem_flatMap.1 he
  obtain ⟨hle, hstop⟩ := h pos mid hmid
  obtain ⟨hle', hstop'⟩ := h' mid e he
  exact ⟨Nat.le_trans hle hle', fun hpos => hstop' (hstop hpos)⟩

theorem timesEnds (h : Bounded stop step) (n : Nat) : Bounded stop (Repeat.timesEnds step n) := by
  induction n with
  | zero =>
    intro pos e he
    obtain rfl := List.mem_singleton.1 he
    exact ⟨Nat.le_refl _, id⟩
  | succ n ih => exact h.flatMap ih

theorem upToEnds (h : Bounded stop step) (lazy : Bool) (n : Nat) :
    Bounded stop (Repeat.upToEnds lazy step n) := by
  induction n with
  | zero =>
    intro pos e he
    obtain rfl := List.mem_singleton.1 he
    exact ⟨Nat.le_refl _, id⟩
  | succ n ih =>
    intro pos e he
    have hor : e = pos ∨ e ∈ (step pos).flatMap (Repeat.upToEnds lazy step n) := by
      cases lazy <;> simpa [Repeat.upToEnds, or_comm] using he
    rcases hor with rfl | he
    · exact ⟨Nat.le_refl _, id⟩
    · exact h.flatMap ih pos e he

theorem manyEnds (h : Bounded stop step) (lazy : Bool) :
    Bounded stop (Repeat.manyEnds lazy step stop) := by
  intro pos
  induction hn : stop - pos using Nat.strongRecOn generalizing pos with
  | ind n ih =>
    intro e he
    have hor : e = pos ∨ ∃ mid ∈ step pos,
        e ∈ if pos < mid ∧ mid ≤ stop then Repeat.manyEnds lazy step stop mid else [mid] := by
      rw [Repeat.manyEnds] at he
      cases lazy <;> simpa [List.mem_flatMap, or_comm] using he
    rcases hor with rfl | ⟨mid, hmid, he⟩
    · exact ⟨Nat.le_refl _, id⟩
    · obtain ⟨hle, hstop⟩ := h pos mid hmid
      split at he
      · obtain ⟨hle', hstop'⟩ := ih (stop - mid) (by omega) mid rfl e he
        exact ⟨Nat.le_trans hle hle', fun hpos => hstop' (hstop hpos)⟩
      · obtain rfl := List.mem_singleton.1 he
        exact ⟨hle, hstop⟩

theorem restEnds (h : Bounded stop step) (q : Quantifier) :
    Bounded stop (Repeat.restEnds q step stop) := by
  unfold Repeat.restEnds
  cases q.spare? with
  | none => exact h.manyEnds q.lazy
  | some n => exact h.upToEnds q.lazy n

end Bounded

namespace Setting

variable (s : Setting)

/-- A leaf does not read backwards, nor beyond the end of the input. -/
theorem read_bounds {captures : Captures} {pos e : Nat} {op : Leaf}
    (h : s.read? captures pos op = some e) : pos ≤ e ∧ (pos ≤ s.input.stop → e ≤ s.input.stop) := by
  have hafter : ∀ {ignoreCase : Bool} {expected : Option Text},
      s.input.after? pos ignoreCase expected = some e → pos ≤ e ∧ e ≤ s.input.stop := by
    intro ignoreCase expected h
    unfold Input.after? at h
    split at h
    · split at h
      · rename_i t hholds
        obtain rfl := Option.some.inj h
        simp only [Input.holdsAt, Bool.and_eq_true, decide_eq_true_eq] at hholds
        exact ⟨Nat.le_add_right _ _, hholds.1⟩
      · simp at h
    · simp at h
  cases op with
  | empty =>
    obtain rfl := Option.some.inj h
    exact ⟨Nat.le_refl _, id⟩
  | unit test =>
    simp only [read?, Input.at?] at h
    split at h
    · rename_i u hu
      split at hu
      · split at h
        · obtain rfl := Option.some.inj h
          omega
        · simp at h
      · simp at hu
    · simp at h
  | assertion condition =>
    simp only [read?] at h
    split at h
    · obtain rfl := Option.some.inj h
      exact ⟨Nat.le_refl _, id⟩
    · simp at h
  | pin edge =>
    obtain rfl := Option.some.inj h
    exact ⟨Nat.le_refl _, id⟩
  | reference slot =>
    obtain ⟨hle, hstop⟩ := hafter h
    exact ⟨hle, fun _ => hstop⟩
  | cross target ignoreCase =>
    obtain ⟨hle, hstop⟩ := hafter h
    exact ⟨hle, fun _ => hstop⟩

theorem read_unit {captures : Captures} {pos e : Nat} {test : Pattern.UnitTest}
    (h : s.read? captures pos (.unit test) = some e) : e = pos + 1 := by
  simp only [read?] at h
  split at h
  · split at h
    · exact (Option.some.inj h).symm
    · simp at h
  · simp at h

theorem ends_bounds (c : Chain) : Bounded s.input.stop (s.ends c) := by
  induction c with
  | nil =>
    intro pos e he
    obtain rfl := List.mem_singleton.1 he
    exact ⟨Nat.le_refl _, id⟩
  | leaf id op next ih =>
    have hread : Bounded s.input.stop fun pos => (s.read? {} pos op).toList := fun pos e he =>
      s.read_bounds (by simpa using he)
    exact hread.flatMap ih
  | box id op body next ihbody ihnext =>
    cases op with
    | group capture => exact ihbody.flatMap ihnext
    | look look =>
      intro pos e he
      simp only [ends] at he
      split at he
      · exact ihnext pos e he
      · simp at he
    | alternative =>
      intro pos e he
      rcases List.mem_append.1 he with he | he
      · exact ihbody pos e he
      · exact ihnext pos e he
    | loop q => exact ((ihbody.timesEnds _).flatMap (ihbody.restEnds q)).flatMap ihnext

end Setting

/-! ## Repetitions that do not move forward -/

/-- Greedy or lazy, another repetition goes on only if it has moved forward. -/
theorem Repeat.manyEnds_eq {stop : Nat} {step : Nat → List Nat} (h : Bounded stop step) (lazy : Bool)
    {pos : Nat} (hpos : pos ≤ stop) :
    manyEnds lazy step stop pos =
      if lazy then
        pos :: (step pos).flatMap fun e => if e = pos then [e] else manyEnds lazy step stop e
      else
        ((step pos).flatMap fun e => if e = pos then [e] else manyEnds lazy step stop e) ++ [pos] := by
  have honward : ((step pos).flatMap fun e =>
      if _h : pos < e ∧ e ≤ stop then manyEnds lazy step stop e else [e]) =
        (step pos).flatMap fun e => if e = pos then [e] else manyEnds lazy step stop e := by
    refine List.flatMap_congr fun e he => ?_
    obtain ⟨hle, hstop⟩ := h pos e he
    have hstop := hstop hpos
    by_cases heq : e = pos
    · simp [heq]
    · rw [dif_pos ⟨by omega, hstop⟩, if_neg heq]
  rw [manyEnds]
  simp only [honward]

end SpanRegex
