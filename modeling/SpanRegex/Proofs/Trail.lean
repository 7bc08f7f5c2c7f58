import Mathlib.Data.List.Induction
import SpanRegex.Matching.Machine

/-! # The trail of guards

Going back to a frame takes back the writes of guards made since it was pushed.

* `undo`: the guards before a list of writes.
* `Machine.Covers`: the trail of one machine extends that of another and leads back to its guards.
* `Machine.Covers.unwind_self`: unwinding restores the guards of a machine that is covered.
-/

namespace SpanRegex
set_option autoImplicit false

/-! ## Taking back writes -/

/-- The guards before the writes of a trail, the last of which is taken back first. -/
def undo : List (Nat × Option Nat) → (Nat → Option Nat) → Nat → Option Nat
  | [], guards => guards
  | (id, old) :: writes, guards => fun i => if id = i then old else undo writes guards i

theorem undo_append (xs ys : List (Nat × Option Nat)) (guards : Nat → Option Nat) :
    undo (xs ++ ys) guards = undo xs (undo ys guards) := by
  induction xs with
  | nil => rfl
  | cons x xs ih => simp only [List.cons_append, undo, ih]

namespace Machine

theorem takeBack_append (ys : List (Nat × Option Nat)) :
    ∀ (xs : List (Nat × Option Nat)) (guards : Store (Option Nat)),
      (takeBack (xs ++ ys).toArray guards ys.length).1 = xs.toArray ∧
      (takeBack (xs ++ ys).toArray guards ys.length).2.get = undo ys guards.get := by
  induction ys using List.reverseRecOn with
  | nil => intro xs guards; simp [takeBack, undo]
  | append_singleton ys y ih =>
    intro xs guards
    obtain ⟨id, old⟩ := y
    have hback : (xs ++ (ys ++ [(id, old)])).toArray.back? = some (id, old) := by
      simp [← List.append_assoc]
    have hpop : (xs ++ (ys ++ [(id, old)])).toArray.pop = (xs ++ ys).toArray := by
      simp [← List.append_assoc]
    have hstep : takeBack (xs ++ (ys ++ [(id, old)])).toArray guards (ys.length + 1) =
        takeBack (xs ++ ys).toArray (guards.set id old) ys.length := by
      rw [takeBack, hback, hpop]
    rw [List.length_append, List.length_singleton, hstep, (ih xs _).1, (ih xs _).2, undo_append]
    refine ⟨rfl, congrArg _ ?_⟩
    funext i
    simp [undo]

/-! ## Machines that lead back -/

/-- `m` has the trail of `base` and more, and taking back what was added gives the guards of
`base`. -/
def Covers (m base : Machine) : Prop :=
  ∃ writes, m.trail.toList = base.trail.toList ++ writes ∧
    undo writes m.guards.get = base.guards.get

namespace Covers

variable {m m' base : Machine}

theorem of_eq (ht : m.trail = base.trail) (hg : m.guards.get = base.guards.get) : m.Covers base :=
  ⟨[], by simp [ht], hg⟩

theorem trans (h' : m'.Covers m) (h : m.Covers base) : m'.Covers base := by
  obtain ⟨ys, ht', hg'⟩ := h'
  obtain ⟨xs, ht, hg⟩ := h
  refine ⟨xs ++ ys, by rw [ht', ht, List.append_assoc], ?_⟩
  rw [undo_append, hg', hg]

theorem size_le (h : m.Covers base) : base.trail.size ≤ m.trail.size := by
  obtain ⟨xs, ht, -⟩ := h
  have := congrArg List.length ht
  simp at this
  omega

end Covers

theorem unwind_eq (m : Machine) (n : Nat) :
    (m.unwind n).trail.toList = m.trail.toList.take n ∧
      (m.unwind n).guards.get = undo (m.trail.toList.drop n) m.guards.get := by
  unfold unwind
  split
  · rename_i h
    have hlen : m.trail.toList.length ≤ n := by simpa using h
    rw [List.take_of_length_le hlen, List.drop_of_length_le hlen]
    exact ⟨rfl, rfl⟩
  · rename_i h
    have hsplit : (m.trail.toList.take n ++ m.trail.toList.drop n).toArray = m.trail := by
      simp
    have hlen : (m.trail.toList.drop n).length = m.trail.size - n := by simp
    have hback := takeBack_append (m.trail.toList.drop n) (m.trail.toList.take n) m.guards
    rw [hsplit, hlen] at hback
    exact ⟨by simp [hback.1], hback.2⟩

section
variable (m : Machine) (n : Nat)

@[simp] theorem unwind_frames : (m.unwind n).frames = m.frames := by unfold unwind; split <;> rfl
@[simp] theorem unwind_starts : (m.unwind n).starts = m.starts := by unfold unwind; split <;> rfl
@[simp] theorem unwind_counts : (m.unwind n).counts = m.counts := by unfold unwind; split <;> rfl
@[simp] theorem unwind_captures : (m.unwind n).captures = m.captures := by
  unfold unwind; split <;> rfl
@[simp] theorem unwind_startPinned : (m.unwind n).startPinned = m.startPinned := by
  unfold unwind; split <;> rfl
@[simp] theorem unwind_stopPinned : (m.unwind n).stopPinned = m.stopPinned := by
  unfold unwind; split <;> rfl

end

/-- Going back to a longer trail than that of `base` still covers `base`. -/
theorem Covers.unwind {m base : Machine} (h : m.Covers base) {n : Nat} (hn : base.trail.size ≤ n) :
    (m.unwind n).Covers base := by
  obtain ⟨writes, ht, hg⟩ := h
  obtain ⟨htrail, hguards⟩ := m.unwind_eq n
  have hlen : base.trail.toList.length ≤ n := by simpa using hn
  refine ⟨writes.take (n - base.trail.toList.length), ?_, ?_⟩
  · rw [htrail, ht, List.take_append, List.take_of_length_le hlen]
  · rw [hguards, ht, List.drop_append, List.drop_of_length_le hlen, List.nil_append, ← undo_append,
      List.take_append_drop, hg]

/-- Going back to the trail of `base` restores its trail and its guards. -/
theorem Covers.unwind_self {m base : Machine} (h : m.Covers base) :
    (m.unwind base.trail.size).trail = base.trail ∧
      (m.unwind base.trail.size).guards.get = base.guards.get := by
  obtain ⟨writes, ht, hg⟩ := h
  obtain ⟨htrail, hguards⟩ := m.unwind_eq base.trail.size
  constructor
  · rw [← Array.toList_inj, htrail, ht]
    simp
  · rw [hguards, ht, ← hg]
    simp

/-! ## Writing guards -/

section
variable (m : Machine) (id : Nat) (value : Option Nat)

theorem setGuard_guards (i : Nat) :
    (m.setGuard id value).guards.get i = if id = i then value else m.guards.get i := by
  unfold setGuard
  by_cases h : m.guards.get id = value
  · simp only [h, beq_self_eq_true, if_true]
    split
    · subst id; exact h
    · rfl
  · simp [h]

theorem setGuard_covers : (m.setGuard id value).Covers m := by
  unfold setGuard
  by_cases h : m.guards.get id = value
  · simpa [h] using Covers.of_eq rfl rfl
  · simp only [beq_iff_eq, h, if_false]
    refine ⟨[(id, m.guards.get id)], by simp, ?_⟩
    funext i
    by_cases hi : id = i <;> simp [undo, hi]

@[simp] theorem setGuard_frames : (m.setGuard id value).frames = m.frames := by
  unfold setGuard; simp only; split <;> rfl
@[simp] theorem setGuard_starts : (m.setGuard id value).starts = m.starts := by
  unfold setGuard; simp only; split <;> rfl
@[simp] theorem setGuard_counts : (m.setGuard id value).counts = m.counts := by
  unfold setGuard; simp only; split <;> rfl
@[simp] theorem setGuard_captures : (m.setGuard id value).captures = m.captures := by
  unfold setGuard; simp only; split <;> rfl
@[simp] theorem setGuard_startPinned : (m.setGuard id value).startPinned = m.startPinned := by
  unfold setGuard; simp only; split <;> rfl
@[simp] theorem setGuard_stopPinned : (m.setGuard id value).stopPinned = m.stopPinned := by
  unfold setGuard; simp only; split <;> rfl

end

end Machine
end SpanRegex
