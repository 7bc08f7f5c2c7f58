import SpanRegex.Text

/-! # Sets of code units

A set is one bit for each of the 65536 code units.

* `UnitSet`: the set, with `contains`, `insert`, `insertRange`, `union`, `inter`, `diff`, `compl`.
* `UnitSet.ofPred`: the units that satisfy a predicate.
* `UnitSet.toList`, `UnitSet.size`, `UnitSet.isEmpty`: the members, ascending, and their number.
* `UnitSet.runsBetween`: the maximal runs of members in a window.

The set operations are pinned by what they do to `contains` (`contains_union`, `contains_compl`,
`contains_insertRange`, `contains_ofPred`, …); `ext_contains` says that `contains` determines the
set, and `mem_toList` and `pairwise_toList` say that the listing is the members in ascending order.
-/

namespace SpanRegex
set_option autoImplicit false

/-- A set of code units; bit `n` tells whether unit `n` is a member. -/
structure UnitSet where
  bits : BitVec 65536
  deriving DecidableEq

namespace UnitSet

/-! ## Members -/

/-- The unit is a member. -/
def contains (s : UnitSet) (u : CodeUnit) : Bool := s.bits.getLsbD u.toNat

/-- The set without members. -/
def empty : UnitSet := ⟨0⟩

instance : Inhabited UnitSet := ⟨empty⟩

/-- Adds the units from `first` to `last`; nothing if `last < first`. -/
def insertRange (s : UnitSet) (first last : CodeUnit) : UnitSet :=
  ⟨s.bits ||| BitVec.ofNat 65536 ((1 <<< (last.toNat + 1 - first.toNat) - 1) <<< first.toNat)⟩

/-- Adds one unit. -/
def insert (s : UnitSet) (u : CodeUnit) : UnitSet := s.insertRange u u

/-- The members of either set. -/
def union (s t : UnitSet) : UnitSet := ⟨s.bits ||| t.bits⟩

/-- The members of both sets. -/
def inter (s t : UnitSet) : UnitSet := ⟨s.bits &&& t.bits⟩

/-- The units that are no members. -/
def compl (s : UnitSet) : UnitSet := ⟨~~~s.bits⟩

/-- The members of `s` that are no members of `t`. -/
def diff (s t : UnitSet) : UnitSet := s.inter t.compl

/-- The `2 ^ k` bits whose bit `i` is `p (base + i)`. -/
def bitsOf (p : Nat → Bool) : Nat → Nat → Nat
  | 0, base => (p base).toNat
  | k + 1, base => bitsOf p k base ||| bitsOf p k (base + 1 <<< k) <<< (1 <<< k)

/-- The units that satisfy the predicate. -/
def ofPred (p : CodeUnit → Bool) : UnitSet :=
  ⟨BitVec.ofNat 65536 (bitsOf (fun n => p n.toUInt16) 16 0)⟩

/-! ## Counting and listing -/

/-- The places, from `base` on, of the bits set among the lowest `2 ^ k` bits of `n`. -/
def places : Nat → Nat → Nat → List Nat
  | 0, base, n => if n % 2 = 1 then [base] else []
  | k + 1, base, n =>
    if n = 0 then []
    else places k base (n % 1 <<< (1 <<< k)) ++ places k (base + 1 <<< k) (n >>> (1 <<< k))

/-- The numbers of the members, ascending. -/
def toList (s : UnitSet) : List Nat := places 16 0 s.bits.toNat

/-- How many members there are. -/
def size (s : UnitSet) : Nat := s.toList.length

/-- There are no members. -/
def isEmpty (s : UnitSet) : Bool := s.bits == 0

/-- Extends the leading run by the number below it, or starts a new one. -/
def joinRun (n : Nat) : List (Nat × Nat) → List (Nat × Nat)
  | (first, last) :: rest =>
    if n + 1 = first then (n, last) :: rest else (n, n) :: (first, last) :: rest
  | [] => [(n, n)]

/-- The maximal runs, first and last member, of the members from `lo` to `hi`. -/
def runsBetween (s : UnitSet) (lo hi : Nat) : List (Nat × Nat) :=
  (s.toList.filter fun n => lo ≤ n && n ≤ hi).foldr joinRun []

/-! ## Membership after each operation -/

/-- Two sets with the same members are equal. -/
theorem ext_contains {s t : UnitSet} (h : ∀ u, s.contains u = t.contains u) : s = t := by
  obtain ⟨s⟩ := s
  obtain ⟨t⟩ := t
  congr 1
  apply BitVec.eq_of_getLsbD_eq
  intro i hi
  simpa [contains, Nat.mod_eq_of_lt hi] using h (UInt16.ofNat i)

@[simp] theorem contains_empty (u : CodeUnit) : empty.contains u = false := by
  simp [contains, empty]

@[simp] theorem contains_union (s t : UnitSet) (u : CodeUnit) :
    (s.union t).contains u = (s.contains u || t.contains u) := by
  simp [contains, union]

@[simp] theorem contains_inter (s t : UnitSet) (u : CodeUnit) :
    (s.inter t).contains u = (s.contains u && t.contains u) := by
  simp [contains, inter]

@[simp] theorem contains_compl (s : UnitSet) (u : CodeUnit) :
    s.compl.contains u = !s.contains u := by
  have h := u.toNat_lt
  simp [contains, compl, h]

@[simp] theorem contains_diff (s t : UnitSet) (u : CodeUnit) :
    (s.diff t).contains u = (s.contains u && !t.contains u) := by
  simp [diff]

@[simp] theorem contains_insertRange (s : UnitSet) (first last u : CodeUnit) :
    (s.insertRange first last).contains u =
      (s.contains u || (decide (first ≤ u) && decide (u ≤ last))) := by
  have h := u.toNat_lt
  simp only [contains, insertRange, Nat.one_shiftLeft, BitVec.getLsbD_or, BitVec.getLsbD_ofNat,
    Nat.testBit_shiftLeft, Nat.testBit_two_pow_sub_one, UInt16.le_iff_toNat_le, h]
  congr 1
  by_cases h1 : first.toNat ≤ u.toNat <;> by_cases h2 : u.toNat ≤ last.toNat <;>
    simp [h1, h2] <;> omega

@[simp] theorem contains_insert (s : UnitSet) (u v : CodeUnit) :
    (s.insert u).contains v = (s.contains v || u == v) := by
  simp only [insert, contains_insertRange]
  congr 1
  rw [Bool.eq_iff_iff]
  simp [UInt16.le_iff_toNat_le, ← UInt16.toNat_inj]
  omega

/-- Each bit is the answer of the predicate. -/
theorem testBit_bitsOf (p : Nat → Bool) (k base i : Nat) :
    (bitsOf p k base).testBit i = (decide (i < 1 <<< k) && p (base + i)) := by
  simp only [Nat.one_shiftLeft]
  induction k generalizing base i with
  | zero =>
    cases i with
    | zero => cases h : p base <;> simp [bitsOf, h]
    | succ i => cases h : p base <;> simp [bitsOf, h, Nat.testBit_succ]
  | succ k ih =>
    rw [bitsOf, Nat.one_shiftLeft, Nat.testBit_or, Nat.testBit_shiftLeft, ih, ih, Nat.pow_succ]
    by_cases h : i < 2 ^ k
    · simp [h, show ¬2 ^ k ≤ i by omega, show i < 2 ^ k * 2 by omega]
    · simp [h, show 2 ^ k ≤ i by omega, show base + 2 ^ k + (i - 2 ^ k) = base + i by omega,
        show (i - 2 ^ k < 2 ^ k) ↔ i < 2 ^ k * 2 by omega]

@[simp] theorem contains_ofPred (p : CodeUnit → Bool) (u : CodeUnit) :
    (ofPred p).contains u = p u := by
  have h := u.toNat_lt
  simp [contains, ofPred, BitVec.getLsbD_ofNat, testBit_bitsOf, Nat.one_shiftLeft, h,
    -BitVec.getLsbD_eq_getElem]

/-! ## The listing of the members -/

/-- The listed places are those of the bits that are set. -/
theorem mem_places (k base n i : Nat) :
    i ∈ places k base n ↔ base ≤ i ∧ i < base + 1 <<< k ∧ n.testBit (i - base) = true := by
  simp only [Nat.one_shiftLeft]
  induction k generalizing base n with
  | zero =>
    rw [places]
    split
    · rename_i h
      simp only [List.mem_singleton]
      constructor
      · rintro rfl; simp [Nat.testBit_zero, h]
      · intro h; omega
    · rename_i h
      simp only [List.not_mem_nil, false_iff, not_and]
      intro h1 h2
      have : i = base := by omega
      subst this
      simp [Nat.testBit_zero]; omega
  | succ k ih =>
    rw [places, Nat.pow_succ]
    simp only [Nat.one_shiftLeft]
    split
    · rename_i h
      simp [h]
    · rw [List.mem_append, ih, ih, Nat.testBit_mod_two_pow, Nat.testBit_shiftRight]
      by_cases h : i < base + 2 ^ k
      · constructor
        · rintro (h1 | h1)
          · simp at h1; exact ⟨h1.1, by omega, h1.2.2.2⟩
          · omega
        · rintro ⟨h1, h2, h3⟩
          left
          simp [h1, h, h3]; omega
      · constructor
        · rintro (h1 | h1)
          · omega
          · obtain ⟨h1, h2, h3⟩ := h1
            refine ⟨by omega, by omega, ?_⟩
            rwa [show 2 ^ k + (i - (base + 2 ^ k)) = i - base by omega] at h3
        · rintro ⟨h1, h2, h3⟩
          right
          refine ⟨by omega, by omega, ?_⟩
          rwa [show 2 ^ k + (i - (base + 2 ^ k)) = i - base by omega]

/-- The listing holds the members. -/
theorem mem_toList (s : UnitSet) (u : CodeUnit) : u.toNat ∈ s.toList ↔ s.contains u = true := by
  have h := u.toNat_lt
  simp [toList, mem_places, contains, BitVec.getLsbD, Nat.one_shiftLeft, h]

theorem pairwise_places (k base n : Nat) : (places k base n).Pairwise (· < ·) := by
  induction k generalizing base n with
  | zero => rw [places]; split <;> simp
  | succ k ih =>
    rw [places]
    split
    · simp
    · rw [List.pairwise_append]
      refine ⟨ih _ _, ih _ _, fun a ha b hb => ?_⟩
      rw [mem_places] at ha hb
      omega

/-- The listing is ascending. -/
theorem pairwise_toList (s : UnitSet) : s.toList.Pairwise (· < ·) := pairwise_places _ _ _

end UnitSet

end SpanRegex
