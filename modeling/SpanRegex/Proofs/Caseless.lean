import SpanRegex.Proofs.Classes

/-! # Units that differ in case only

Where case is ignored, a class holds the units written in it and their images under the two case mappings,
and a literal reads every unit with the same image under one of them. The images are among the units that
the literal reads, since mapping a unit twice is mapping it once.

* `Run.apart`, `CaseShift.settles`: a table of shifts never moves a unit that has been moved.
* `CodeUnit.toLower_toLower`, `CodeUnit.toUpper_toUpper`: mapping a unit twice.
* `oneMember`: the set of the class with one unit in it; `contains_oneMember`.
* `passes_oneMember`: a unit that equals the literal up to case, if at all, as one of its images passes both
  tests or neither.
-/

namespace SpanRegex
set_option autoImplicit false

/-! ## Tables of shifts -/

namespace Run

/-- The runs have no unit in common, as their bounds or the parity of their units show. -/
def apart (r t : Run) : Bool :=
  r.last.blt t.first || t.last.blt r.first ||
    (r.step == 2 || r.first == r.last) && t.step == 2 && (r.first + t.first) % 2 == 1

theorem not_holds_of_apart {r t : Run} {n : Nat} (h : r.apart t = true) (hr : r.holds n = true) :
    t.holds n = false := by
  obtain ⟨first, last, step⟩ := r
  obtain ⟨first', last', step'⟩ := t
  simp only [apart, Bool.or_eq_true, Bool.and_eq_true, Nat.blt_eq, beq_iff_eq] at h
  simp only [holds, Bool.and_eq_true, decide_eq_true_eq, beq_iff_eq] at hr
  obtain ⟨⟨hfirst, hlast⟩, hstep⟩ := hr
  rw [Bool.eq_false_iff]
  intro ht
  simp only [holds, Bool.and_eq_true, decide_eq_true_eq, beq_iff_eq] at ht
  obtain ⟨⟨hfirst', hlast'⟩, hstep'⟩ := ht
  -- The run of `t` takes every second unit in the last two cases; that of `r` does too, or has one unit only.
  rcases h with (hbelow | habove) | ⟨⟨heven | hsingle, rfl⟩, hparity⟩
  · omega
  · omega
  · subst heven
    omega
  · omega

end Run

namespace CaseShift

def target (s : CaseShift) : Run :=
  ⟨(s.run.first + s.amount).toNat, (s.run.last + s.amount).toNat, s.run.step⟩

/-- The shifts lead to code units, and from none of these further on. -/
def settles (shifts : List CaseShift) : Bool :=
  shifts.all fun s =>
    0 ≤ s.run.first + s.amount && s.target.last < 65536 && shifts.all fun t => s.target.apart t.run

variable {shifts : List CaseShift} {s : CaseShift} {u : CodeUnit}

theorem image_cases (shifts : List CaseShift) (u : CodeUnit) : image shifts u = u ∨
    ∃ s ∈ shifts, s.run.holds u.toNat = true ∧ image shifts u = (u.toNat + s.amount).toNat.toUInt16 := by
  induction shifts with
  | nil => exact .inl rfl
  | cons s rest ih =>
    rw [image]
    split
    · split
      · exact .inr ⟨s, List.mem_cons_self, ‹_›, rfl⟩
      · exact .inl rfl
    · rcases ih with hsame | ⟨t, ht, hholds, himage⟩
      · exact .inl hsame
      · exact .inr ⟨t, List.mem_cons_of_mem s ht, hholds, himage⟩

theorem target_holds (hs : 0 ≤ s.run.first + s.amount) {n : Nat} (h : s.run.holds n = true) :
    s.target.holds (n + s.amount).toNat = true := by
  simp only [Run.holds, Bool.and_eq_true, decide_eq_true_eq, beq_iff_eq] at h
  obtain ⟨⟨hfirst, hlast⟩, hstep⟩ := h
  have hdistance : (n + s.amount).toNat - (s.run.first + s.amount).toNat = n - s.run.first := by omega
  have hbounds : (s.run.first + s.amount).toNat ≤ (n + s.amount).toNat ∧
      (n + s.amount).toNat ≤ (s.run.last + s.amount).toNat := by omega
  simp only [target, Run.holds, hdistance, hstep, hbounds, decide_true, Bool.and_self, beq_self_eq_true]

theorem image_image (h : settles shifts = true) (u : CodeUnit) :
    image shifts (image shifts u) = image shifts u := by
  rcases image_cases shifts u with hsame | ⟨s, hs, hholds, himage⟩
  · rw [hsame, hsame]
  · simp only [settles, List.all_eq_true, Bool.and_eq_true, decide_eq_true_eq] at h
    obtain ⟨⟨hfirst, hlast⟩, hapart⟩ := h s hs
    have htarget := target_holds hfirst hholds
    have hsize : (image shifts u).toNat = (u.toNat + s.amount).toNat := by
      rw [himage]
      apply UInt16.toNat_ofNat_of_lt'
      simp only [Run.holds, Bool.and_eq_true, decide_eq_true_eq] at htarget
      exact Nat.lt_of_le_of_lt htarget.1.2 hlast
    rcases image_cases shifts (image shifts u) with hsame | ⟨t, ht, hagain, -⟩
    · exact hsame
    · have hnot := Run.not_holds_of_apart (hapart t ht) htarget
      rw [← hsize, hagain] at hnot
      cases hnot

end CaseShift

/-! ## The two mappings -/

namespace CodeUnit

theorem settles_lowerShifts : CaseShift.settles lowerShifts = true := by decide +kernel

theorem settles_upperShifts : CaseShift.settles upperShifts = true := by decide +kernel

@[simp] theorem toLower_toLower (u : CodeUnit) : u.toLower.toLower = u.toLower :=
  CaseShift.image_image settles_lowerShifts u

@[simp] theorem toUpper_toUpper (u : CodeUnit) : u.toUpper.toUpper = u.toUpper :=
  CaseShift.image_image settles_upperShifts u

/-- The unit is the other one or its image under one of the mappings. -/
def IsImage (v u : CodeUnit) : Prop := v = u ∨ v = u.toLower ∨ v = u.toUpper

instance (v u : CodeUnit) : Decidable (v.IsImage u) := by
  unfold IsImage
  infer_instance

theorem toLower_eqIgnoreCase (u : CodeUnit) : u.toLower.eqIgnoreCase u = true := by simp [eqIgnoreCase]

theorem toUpper_eqIgnoreCase (u : CodeUnit) : u.toUpper.eqIgnoreCase u = true := by simp [eqIgnoreCase]

end CodeUnit

/-! ## Classes of one unit -/

namespace Pattern

/-- The set of the class in which only this unit is written. -/
def oneMember (ignoreCase : Bool) (u : CodeUnit) : UnitSet :=
  (ClassMembers.unit u .none).collect ignoreCase .empty

theorem contains_oneMember (ignoreCase : Bool) (u v : CodeUnit) :
    (oneMember ignoreCase u).contains v = true ↔ v = u ∨ ignoreCase = true ∧ v.IsImage u := by
  unfold oneMember
  rw [contains_collect, ClassMembers.denotes, ClassMembers.denotes, withImages]
  cases ignoreCase with
  | false => simp
  | true => simp [CodeUnit.IsImage, or_comm, or_assoc]

/-- The literal reads what the class of its unit reads, and nothing else if only the images of the unit
equal it up to case. -/
theorem passes_oneMember {o : Options} {u v : CodeUnit}
    (h : o.ignoreCase = true → v.eqIgnoreCase u = true → v.IsImage u) :
    UnitTest.passes o v (.set (oneMember o.ignoreCase u) false) = UnitTest.passes o v (.literal u) := by
  have hset : UnitTest.passes o v (.set (oneMember o.ignoreCase u) false) = true ↔
      v = u ∨ o.ignoreCase = true ∧ v.IsImage u := by
    rw [← contains_oneMember]
    simp [UnitTest.passes]
  have hliteral : UnitTest.passes o v (.literal u) = true ↔
      v = u ∨ o.ignoreCase = true ∧ v.eqIgnoreCase u = true := by
    simp [UnitTest.passes, sameUnit]
  rw [Bool.eq_iff_iff, hset, hliteral]
  apply or_congr_right
  constructor
  · rintro ⟨hcase, rfl | rfl | rfl⟩
    · exact ⟨hcase, by simp [CodeUnit.eqIgnoreCase]⟩
    · exact ⟨hcase, u.toLower_eqIgnoreCase⟩
    · exact ⟨hcase, u.toUpper_eqIgnoreCase⟩
  · rintro ⟨hcase, hsame⟩
    exact ⟨hcase, h hcase hsame⟩

end Pattern

end SpanRegex
