import Mathlib.Logic.Function.Basic
import SpanRegex.Proofs.Bitmaps

/-! # Sets in registers

Sets of units are made in numbered registers, one action after another. The registers may hold the sets
themselves, their words, or sets in the sense of mathematics; the actions mean the same for all of them.

* `SetOps`: what sets are made with; `UnitSet.ops`, `Bitmap.ops`, `SetOps.sets`.
* `SetAction`, `SetOps.run`: actions on registers.
* `SetOps.Maps`: a translation of sets that goes with every operation; `Maps.run`, by which it goes with every
  sequence of actions.
* `registers_denote`: what the registers answer is what the sets of units do.
-/

namespace SpanRegex
set_option autoImplicit false

/-! ## Operations and actions -/

/-- What sets of units are made with. -/
structure SetOps (α : Type) where
  empty : α
  ofPred : (CodeUnit → Bool) → α
  insert : α → CodeUnit → α
  insertRange : α → CodeUnit → CodeUnit → α
  union : α → α → α
  inter : α → α → α
  diff : α → α → α
  compl : α → α

def UnitSet.ops : SetOps UnitSet :=
  { empty, ofPred, insert, insertRange, union, inter, diff, compl }

def Bitmap.ops : SetOps Bitmap :=
  { empty, ofPred, insert, insertRange, union, inter, diff, compl }

def SetOps.sets : SetOps (Set CodeUnit) where
  empty := ∅
  ofPred p := {u | p u = true}
  insert s u := s ∪ {u}
  insertRange s first last := s ∪ {u | first ≤ u ∧ u ≤ last}
  union s t := s ∪ t
  inter s t := s ∩ t
  diff s t := s \ t
  compl s := sᶜ

/-- What is done to a register. -/
inductive SetAction
  | clear
  | ofPred (p : CodeUnit → Bool)
  | insert (u : CodeUnit)
  | insertRange (first last : CodeUnit)
  | union (other : Nat)
  | inter (other : Nat)
  | diff (other : Nat)
  | compl
  | copy (other : Nat)

section

variable {α β : Type}

/-- What the register holds after the action, given what all registers and this one hold before it. -/
def SetAction.result (ops : SetOps α) (registers : Nat → α) (own : α) : SetAction → α
  | .clear => ops.empty
  | .ofPred p => ops.ofPred p
  | .insert u => ops.insert own u
  | .insertRange first last => ops.insertRange own first last
  | .union other => ops.union own (registers other)
  | .inter other => ops.inter own (registers other)
  | .diff other => ops.diff own (registers other)
  | .compl => ops.compl own
  | .copy other => registers other

/-- One action on a register; the others stay. -/
def SetOps.step (ops : SetOps α) (registers : Nat → α) (step : Nat × SetAction) : Nat → α :=
  Function.update registers step.1 (step.2.result ops registers (registers step.1))

/-- The registers after all actions, none of them holding a unit at first. -/
def SetOps.run (ops : SetOps α) (steps : List (Nat × SetAction)) : Nat → α :=
  steps.foldl ops.step fun _ => ops.empty

/-! ## Translations -/

/-- The translation goes with every operation. -/
structure SetOps.Maps (f : α → β) (a : SetOps α) (b : SetOps β) : Prop where
  empty : f a.empty = b.empty
  ofPred : ∀ p, f (a.ofPred p) = b.ofPred p
  insert : ∀ s u, f (a.insert s u) = b.insert (f s) u
  insertRange : ∀ s first last, f (a.insertRange s first last) = b.insertRange (f s) first last
  union : ∀ s t, f (a.union s t) = b.union (f s) (f t)
  inter : ∀ s t, f (a.inter s t) = b.inter (f s) (f t)
  diff : ∀ s t, f (a.diff s t) = b.diff (f s) (f t)
  compl : ∀ s, f (a.compl s) = b.compl (f s)

namespace SetOps.Maps

variable {f : α → β} {a : SetOps α} {b : SetOps β}

theorem result (h : Maps f a b) (registers : Nat → α) (own : α) (action : SetAction) :
    f (action.result a registers own) = action.result b (f ∘ registers) (f own) := by
  cases action with
  | clear => exact h.empty
  | ofPred p => exact h.ofPred p
  | insert u => exact h.insert own u
  | insertRange first last => exact h.insertRange own first last
  | union other => exact h.union own (registers other)
  | inter other => exact h.inter own (registers other)
  | diff other => exact h.diff own (registers other)
  | compl => exact h.compl own
  | copy other => rfl

theorem step (h : Maps f a b) (registers : Nat → α) (step : Nat × SetAction) :
    f ∘ a.step registers step = b.step (f ∘ registers) step := by
  rw [SetOps.step, Function.comp_update, h.result]
  rfl

theorem run (h : Maps f a b) (steps : List (Nat × SetAction)) (r : Nat) :
    f (a.run steps r) = b.run steps r := by
  have hempty : (f ∘ fun _ : Nat => a.empty) = fun _ => b.empty := funext fun _ => h.empty
  have hruns : steps.foldl b.step (f ∘ fun _ => a.empty) = f ∘ steps.foldl a.step fun _ => a.empty :=
    List.foldl_hom (f ∘ ·) fun registers step => (h.step registers step).symm
  rw [hempty] at hruns
  exact (congrFun hruns r).symm

end SetOps.Maps

end

/-- The units of a set: every operation is that of set algebra. -/
theorem UnitSet.members_maps : SetOps.Maps UnitSet.members UnitSet.ops SetOps.sets where
  empty := members_empty
  ofPred p := by ext u; simp [ops, SetOps.sets]
  insert s u := by ext v; simp [ops, SetOps.sets, @eq_comm _ u, or_comm]
  insertRange s first last := by ext u; simp [ops, SetOps.sets]
  union s t := by ext u; simp [ops, SetOps.sets]
  inter s t := by ext u; simp [ops, SetOps.sets]
  diff s t := by ext u; simp [ops, SetOps.sets]
  compl := members_compl

/-- The words of a set: every operation is that on words. -/
theorem UnitSet.bitmap_maps : SetOps.Maps UnitSet.bitmap UnitSet.ops Bitmap.ops where
  empty := bitmap_empty
  ofPred := bitmap_ofPred
  insert := bitmap_insert
  insertRange := bitmap_insertRange
  union := bitmap_union
  inter := bitmap_inter
  diff := bitmap_diff
  compl := bitmap_compl

/-! ## What registers answer -/

/-- The answers about membership, number and emptiness are those of the set of units. -/
structure Answers (units : Set CodeUnit) (contains : CodeUnit → Bool) (size : Nat) (isEmpty : Bool) : Prop where
  contains : ∀ u, contains u = true ↔ u ∈ units
  size : size = units.ncard
  isEmpty : isEmpty = true ↔ units = ∅

/-- The set answers as the units do. -/
def UnitSet.Denotes (s : UnitSet) (units : Set CodeUnit) : Prop := Answers units s.contains s.size s.isEmpty

/-- The words answer as the units do. -/
def Bitmap.Denotes (b : Bitmap) (units : Set CodeUnit) : Prop := Answers units b.contains b.size b.isEmpty

theorem UnitSet.denotes_members (s : UnitSet) : s.Denotes s.members :=
  ⟨s.mem_members, s.size_eq_ncard, s.isEmpty_iff⟩

theorem UnitSet.bitmap_denotes (s : UnitSet) : s.bitmap.Denotes s.members where
  contains u := by rw [s.contains_bitmap, s.mem_members]
  size := s.size_bitmap.trans s.size_eq_ncard
  isEmpty := by rw [s.isEmpty_bitmap, s.isEmpty_iff]

/-- After any actions, a register answers about membership, number and emptiness as the set that set algebra
gives, whether it holds the set as one row of bits or in words, and the words are those of the row. Two registers
are equal if and only if their sets of units are, whatever actions have made them. -/
theorem registers_denote (steps : List (Nat × SetAction)) (r : Nat) :
    (UnitSet.ops.run steps r).Denotes (SetOps.sets.run steps r) ∧
    (Bitmap.ops.run steps r).Denotes (SetOps.sets.run steps r) ∧
    Bitmap.ops.run steps r = (UnitSet.ops.run steps r).bitmap ∧
    ∀ steps' r',
      (UnitSet.ops.run steps r = UnitSet.ops.run steps' r' ↔ SetOps.sets.run steps r = SetOps.sets.run steps' r') ∧
      (Bitmap.ops.run steps r = Bitmap.ops.run steps' r' ↔ SetOps.sets.run steps r = SetOps.sets.run steps' r') := by
  simp only [← UnitSet.members_maps.run, ← UnitSet.bitmap_maps.run]
  exact ⟨UnitSet.denotes_members _, UnitSet.bitmap_denotes _, trivial, fun steps' r' =>
    ⟨UnitSet.members_inj.symm, UnitSet.bitmap_inj.trans UnitSet.members_inj.symm⟩⟩

end SpanRegex
