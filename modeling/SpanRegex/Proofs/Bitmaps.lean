import Mathlib.Data.Set.Card
import SpanRegex.Proofs.Classes

/-! # Bitmaps of words

A set of code units is one row of 65536 bits. The same row may be kept in 1024 words of 64 bits: joining two sets
and complementing one then go word by word, while a unit or a range is set bit by bit.

* `Bitmap`: the words, with `contains`, `insert`, `insertRange`, `combine`, `compl`, `ofPred`.
* `Bitmap.size`, `Bitmap.isEmpty`: counted word by word.
* `UnitSet.bitmap`: the words of a set; each operation on the words is the one on the set (`bitmap_union`,
  `bitmap_insertRange`, …), and so are the count and the comparison (`size_bitmap`, `bitmap_inj`).
* `UnitSet.size_eq_ncard`, `UnitSet.isEmpty_iff`, `UnitSet.members_inj`: count, emptiness and equality of sets.
-/

namespace SpanRegex
set_option autoImplicit false

/-- A set of code units in words of 64 bits; the lowest bit of the first word is that of unit 0. -/
structure Bitmap where
  words : Vector (BitVec 64) 1024
  deriving DecidableEq

namespace Bitmap

open UnitSet (unitsFrom)

/-! ## Operations -/

/-- The word in which the bit of a unit is. -/
def wordOf (u : CodeUnit) : Fin 1024 := ⟨u.toNat / 64, Nat.div_lt_of_lt_mul u.toNat_lt⟩

def bitOf (u : CodeUnit) : Nat := u.toNat % 64

def contains (b : Bitmap) (u : CodeUnit) : Bool := b.words[wordOf u].getLsbD (bitOf u)

def empty : Bitmap := ⟨Vector.replicate 1024 0⟩

def setBit (words : Vector (BitVec 64) 1024) (u : CodeUnit) : Vector (BitVec 64) 1024 :=
  words.set (wordOf u) (words[wordOf u] ||| BitVec.twoPow 64 (bitOf u))

def insert (b : Bitmap) (u : CodeUnit) : Bitmap := ⟨setBit b.words u⟩

/-- Sets the bits from the first unit to the last, however many words they are in; none if `last < first`. -/
def insertRange (b : Bitmap) (first last : CodeUnit) : Bitmap :=
  if first ≤ last then ⟨(unitsFrom first last).foldl setBit b.words⟩ else b

/-- Sets the bit of each unit that satisfies the predicate, one unit after another. -/
def ofPred (p : CodeUnit → Bool) : Bitmap :=
  ⟨(unitsFrom 0 65535).foldl (fun words u => if p u then setBit words u else words) empty.words⟩

/-- Joins the words of two bitmaps, each with the one in the same place. -/
def combine (op : BitVec 64 → BitVec 64 → BitVec 64) (a b : Bitmap) : Bitmap :=
  ⟨Vector.zipWith op a.words b.words⟩

def union : Bitmap → Bitmap → Bitmap := combine fun v w => v ||| w

def inter : Bitmap → Bitmap → Bitmap := combine fun v w => v &&& w

def diff : Bitmap → Bitmap → Bitmap := combine fun v w => v &&& ~~~w

def compl (b : Bitmap) : Bitmap := ⟨b.words.map fun w => ~~~w⟩

/-- The number of bits that are set, added up over the words. -/
def size (b : Bitmap) : Nat := (b.words.toList.map fun w => w.cpop.toNat).sum

def isEmpty (b : Bitmap) : Bool := b.words.all fun w => w == 0

/-! ## Membership after each operation -/

theorem unit_eq_iff (u v : CodeUnit) : u = v ↔ wordOf u = wordOf v ∧ bitOf u = bitOf v := by
  rw [← UInt16.toNat_inj, Fin.ext_iff]
  simp only [wordOf, bitOf]
  omega

theorem ext_contains {a b : Bitmap} (h : ∀ u, a.contains u = b.contains u) : a = b := by
  obtain ⟨a⟩ := a
  obtain ⟨b⟩ := b
  congr 1
  apply Vector.ext
  intro i hi
  apply BitVec.eq_of_getLsbD_eq
  intro j hj
  have hunit : (UInt16.ofNat (64 * i + j)).toNat = 64 * i + j :=
    UInt16.toNat_ofNat_of_lt' (by change 64 * i + j < 65536; omega)
  have hword : (64 * i + j) / 64 = i := by omega
  have hbit : (64 * i + j) % 64 = j := by omega
  simpa only [contains, wordOf, bitOf, hunit, hword, hbit, Fin.getElem_fin] using h (UInt16.ofNat (64 * i + j))

@[simp] theorem contains_empty (u : CodeUnit) : empty.contains u = false := by
  simp [contains, empty]

@[simp] theorem contains_insert (b : Bitmap) (u v : CodeUnit) :
    (b.insert u).contains v = (b.contains v || u == v) := by
  have hbit : bitOf u < 64 := Nat.mod_lt _ (by decide)
  simp only [contains, insert, setBit, Fin.getElem_fin, Vector.getElem_set]
  by_cases hword : wordOf u = wordOf v
  · have hsame : (u == v) = decide (bitOf u = bitOf v) := by
      rw [Bool.eq_iff_iff, beq_iff_eq, unit_eq_iff, decide_eq_true_eq]
      simp [hword]
    simp [hword, hbit, hsame, BitVec.getLsbD_twoPow]
  · have hother : (u == v) = false := by
      rw [beq_eq_false_iff_ne, Ne, unit_eq_iff]
      simp [hword]
    simp [hother, Fin.val_inj, hword]

theorem contains_setBits (units : List CodeUnit) (u : CodeUnit) : ∀ words,
    contains ⟨units.foldl setBit words⟩ u = true ↔ contains ⟨words⟩ u = true ∨ u ∈ units := by
  induction units with
  | nil => simp
  | cons v units ih =>
    intro words
    have hbit := contains_insert ⟨words⟩ v u
    rw [insert] at hbit
    rw [List.foldl_cons, ih, hbit]
    simp [or_assoc, @eq_comm _ u]

@[simp] theorem contains_insertRange (b : Bitmap) (first last u : CodeUnit) :
    (b.insertRange first last).contains u = (b.contains u || (decide (first ≤ u) && decide (u ≤ last))) := by
  rw [Bool.eq_iff_iff, insertRange]
  split
  · simp [contains_setBits, UnitSet.mem_unitsFrom]
  · rename_i hle
    have hnone : ¬(first ≤ u ∧ u ≤ last) := fun h => hle (UInt16.le_trans h.1 h.2)
    simpa using fun h1 h2 => absurd ⟨h1, h2⟩ hnone

@[simp] theorem contains_ofPred (p : CodeUnit → Bool) (u : CodeUnit) : (ofPred p).contains u = p u := by
  have hmem : u ∈ unitsFrom 0 65535 := by
    have h := u.toNat_lt
    rw [UnitSet.mem_unitsFrom, UInt16.le_iff_toNat_le, UInt16.le_iff_toNat_le]
    exact ⟨Nat.zero_le _, by change u.toNat ≤ 65535; omega⟩
  rw [Bool.eq_iff_iff, ofPred, ← List.foldl_filter, contains_setBits, List.mem_filter]
  simp [hmem, show contains ⟨empty.words⟩ u = false from contains_empty u]

theorem contains_combine {op : BitVec 64 → BitVec 64 → BitVec 64} {f : Bool → Bool → Bool}
    (h : ∀ v w j, j < 64 → (op v w).getLsbD j = f (v.getLsbD j) (w.getLsbD j)) (a b : Bitmap) (u : CodeUnit) :
    (combine op a b).contains u = f (a.contains u) (b.contains u) := by
  have hbit : bitOf u < 64 := Nat.mod_lt _ (by decide)
  simp only [contains, combine, Fin.getElem_fin, Vector.getElem_zipWith]
  exact h _ _ _ hbit

@[simp] theorem contains_union (a b : Bitmap) (u : CodeUnit) :
    (a.union b).contains u = (a.contains u || b.contains u) :=
  contains_combine (by simp) a b u

@[simp] theorem contains_inter (a b : Bitmap) (u : CodeUnit) :
    (a.inter b).contains u = (a.contains u && b.contains u) :=
  contains_combine (by simp) a b u

@[simp] theorem contains_diff (a b : Bitmap) (u : CodeUnit) :
    (a.diff b).contains u = (a.contains u && !b.contains u) :=
  contains_combine (f := fun x y => x && !y) (by simp +contextual) a b u

@[simp] theorem contains_compl (b : Bitmap) (u : CodeUnit) : b.compl.contains u = !b.contains u := by
  have hbit : bitOf u < 64 := Nat.mod_lt _ (by decide)
  simp [contains, compl, hbit]

end Bitmap

/-! ## The words of a set -/

namespace UnitSet

/-- The bits of the set in words of 64. -/
def bitmap (s : UnitSet) : Bitmap := ⟨Vector.ofFn fun i => s.bits.extractLsb' (64 * i) 64⟩

@[simp] theorem contains_bitmap (s : UnitSet) (u : CodeUnit) : s.bitmap.contains u = s.contains u := by
  have hbit : u.toNat % 64 < 64 := Nat.mod_lt _ (by decide)
  simp only [Bitmap.contains, bitmap, Bitmap.wordOf, Bitmap.bitOf, Fin.getElem_fin, Vector.getElem_ofFn,
    BitVec.getLsbD_extractLsb', hbit, decide_true, Bool.true_and, Nat.div_add_mod, contains]

theorem bitmap_inj {s t : UnitSet} : s.bitmap = t.bitmap ↔ s = t := by
  refine ⟨fun h => ext_contains fun u => ?_, fun h => h ▸ rfl⟩
  rw [← contains_bitmap, h, contains_bitmap]

section

variable (s t : UnitSet) (first last u : CodeUnit)

theorem bitmap_empty : empty.bitmap = .empty := Bitmap.ext_contains (by simp)

theorem bitmap_ofPred (p : CodeUnit → Bool) : (ofPred p).bitmap = .ofPred p := Bitmap.ext_contains (by simp)

theorem bitmap_insert : (s.insert u).bitmap = s.bitmap.insert u := Bitmap.ext_contains (by simp)

theorem bitmap_insertRange : (s.insertRange first last).bitmap = s.bitmap.insertRange first last :=
  Bitmap.ext_contains (by simp)

theorem bitmap_union : (s.union t).bitmap = s.bitmap.union t.bitmap := Bitmap.ext_contains (by simp)

theorem bitmap_inter : (s.inter t).bitmap = s.bitmap.inter t.bitmap := Bitmap.ext_contains (by simp)

theorem bitmap_diff : (s.diff t).bitmap = s.bitmap.diff t.bitmap := Bitmap.ext_contains (by simp)

theorem bitmap_compl : s.compl.bitmap = s.bitmap.compl := Bitmap.ext_contains (by simp)

end

/-! ## Counting -/

/-- The numbers of the members are those of the bits that are set. -/
theorem size_eq_countP (s : UnitSet) : s.size = (List.range 65536).countP s.bits.getLsbD := by
  rw [List.countP_eq_length_filter]
  refine List.Perm.length_eq ((List.perm_ext_iff_of_nodup ?_ ?_).2 fun n => ?_)
  · exact s.pairwise_toList.imp Nat.ne_of_lt
  · exact List.nodup_range.filter _
  · simp [toList, mem_places, Nat.one_shiftLeft, BitVec.getLsbD]

theorem countP_range_mul (p : Nat → Bool) (k n : Nat) :
    (List.range (k * n)).countP p =
      ((List.range n).map fun i => (List.range k).countP fun j => p (k * i + j)).sum := by
  induction n with
  | zero => simp
  | succ n ih =>
    rw [Nat.mul_succ, List.range_add, List.countP_append, ih, List.range_succ, List.map_append, List.sum_append,
      List.countP_map]
    simp [Function.comp_def]

theorem cpop_eq_countP {n : Nat} (w : BitVec n) : w.cpop.toNat = (List.range n).countP w.getLsbD := by
  have hcount : ∀ k, w.cpopNatRec k 0 = (List.range k).countP w.getLsbD := by
    intro k
    induction k with
    | zero => rfl
    | succ k ih =>
      rw [BitVec.cpopNatRec_succ, BitVec.cpopNatRec_add, ih, List.range_succ, List.countP_append]
      cases h : w.getLsbD k <;> simp [h]
  rw [BitVec.toNat_cpop, hcount]

theorem size_bitmap (s : UnitSet) : s.bitmap.size = s.size := by
  have hwords : s.bitmap.words.toList.map (fun w => w.cpop.toNat) =
      (List.range 1024).map fun i => (List.range 64).countP fun j => s.bits.getLsbD (64 * i + j) := by
    apply List.ext_getElem
    · simp
    · intro i hi hi'
      simp only [bitmap, List.getElem_map, Vector.getElem_toList, Vector.getElem_ofFn, List.getElem_range,
        cpop_eq_countP]
      apply List.countP_congr
      intro j hj
      simp [List.mem_range.1 hj]
  rw [Bitmap.size, hwords, ← countP_range_mul, size_eq_countP]

theorem size_eq_ncard (s : UnitSet) : s.size = s.members.ncard := by
  have himage : UInt16.toNat '' s.members = (s.toList.toFinset : Set Nat) := by
    ext n
    simp only [Set.mem_image, mem_members, Finset.mem_coe, List.mem_toFinset]
    constructor
    · rintro ⟨u, hu, rfl⟩
      exact (s.mem_toList u).2 hu
    · intro hn
      have hlt : n < 65536 := by
        have h := ((mem_places 16 0 s.bits.toNat n).1 hn).2.1
        rwa [Nat.zero_add] at h
      have hnat : (UInt16.ofNat n).toNat = n := UInt16.toNat_ofNat_of_lt' hlt
      exact ⟨UInt16.ofNat n, (s.mem_toList _).1 (by rwa [hnat]), hnat⟩
  have hnodup : s.toList.Nodup := s.pairwise_toList.imp Nat.ne_of_lt
  rw [← Set.ncard_image_of_injective _ fun u v h => UInt16.toNat_inj.1 h, himage, Set.ncard_coe_finset,
    List.toFinset_card_of_nodup hnodup, size]

/-! ## Emptiness and equality -/

theorem members_inj {s t : UnitSet} : s.members = t.members ↔ s = t := by
  refine ⟨fun h => ext_contains fun u => ?_, fun h => h ▸ rfl⟩
  rw [Bool.eq_iff_iff, ← mem_members, h, mem_members]

theorem isEmpty_iff (s : UnitSet) : s.isEmpty = true ↔ s.members = ∅ := by
  have hempty : s.isEmpty = true ↔ s = empty := by
    obtain ⟨bits⟩ := s
    simp [isEmpty, empty]
  rw [hempty, ← members_empty, members_inj]

theorem isEmpty_bitmap (s : UnitSet) : s.bitmap.isEmpty = s.isEmpty := by
  have hempty : s.bitmap.isEmpty = true ↔ s.bitmap = .empty := by
    obtain ⟨words⟩ := s.bitmap
    simp only [Bitmap.isEmpty, Bitmap.empty, Vector.all_eq_true, beq_iff_eq, Bitmap.mk.injEq]
    exact ⟨fun h => Vector.ext fun i hi => by simpa using h i hi, fun h i hi => by simp [h]⟩
  rw [Bool.eq_iff_iff, hempty, ← bitmap_empty, bitmap_inj, isEmpty_iff, ← members_empty, members_inj]

end UnitSet

end SpanRegex
