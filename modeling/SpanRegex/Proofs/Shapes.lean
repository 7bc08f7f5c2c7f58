import Mathlib.Data.List.Basic
import SpanRegex.Proofs.Numbering
import SpanRegex.Proofs.Reference

/-! # Shapes of patterns

What can be read off a tree about the loops in it.

* `Quantifier.countless`: the loop has nothing to count once it has been entered.
* `Chain.lows`, `Chain.Placed`: the numbers of these loops, and how they lie in a tree.
* `Chain.rigid`: at most one way to match; `Setting.ends_rigid`.
* `Leaf.plain`, `Chain.unpinned`: no capture is read, and no edge of the match is pinned.
-/

namespace SpanRegex
set_option autoImplicit false

namespace Pattern

/-! ## Loops that count nothing -/

/-- At most one repetition is due, and then any number may follow, or none. -/
def Quantifier.countless (q : Quantifier) : Bool :=
  q.min ≤ 1 && (q.max == none || q.max == some q.min)

/-- The repetitions that may follow those that are due. -/
def Quantifier.spare (q : Quantifier) : UInt32 :=
  match q.max with
  | some bound => bound - Min.min bound q.min
  | none => 0

theorem Quantifier.spare_toNat {q : Quantifier} {bound : UInt32} (h : q.max = some bound) :
    q.spare.toNat = bound.toNat - q.min.toNat := by
  have hspare : q.spare = bound - Min.min bound q.min := by simp [spare, h]
  have hmin : Min.min bound q.min = if bound ≤ q.min then bound else q.min := rfl
  rw [hspare, hmin]
  split
  · rename_i hle
    have := UInt32.le_iff_toNat_le.1 hle
    simp
    omega
  · rename_i hle
    have hle' : q.min ≤ bound := by
      rw [UInt32.le_iff_toNat_le] at hle ⊢
      omega
    rw [UInt32.toNat_sub_of_le _ _ hle']

theorem Quantifier.countless_iff {q : Quantifier} :
    q.countless = true ↔ q.min.toNat ≤ 1 ∧ (q.max = none ∨ q.max = some q.min) := by
  simp [countless, UInt32.le_iff_toNat_le]

theorem Quantifier.spare_exact {q : Quantifier} (h : q.max = some q.min) : q.spare = 0 := by
  rw [← UInt32.toNat_inj, spare_toNat h, Nat.sub_self]
  rfl

theorem Quantifier.spare_countless {q : Quantifier} (h : q.countless = true) : q.spare = 0 := by
  rcases (countless_iff.1 h).2 with hmax | hmax
  · simp [spare, hmax]
  · exact spare_exact hmax

/-- The numbers of the loops that count nothing. -/
def Chain.lows : Chain → List Nat
  | .nil => []
  | .leaf _ _ next => next.lows
  | .box id op body next =>
    (match op with
      | .loop q => if q.countless then [id] else []
      | _ => []) ++ (body.lows ++ next.lows)

theorem Chain.mem_ids_of_lows {c : Chain} {i : Nat} (h : i ∈ c.lows) : i ∈ c.ids := by
  induction c with
  | nil => simp [lows] at h
  | leaf id op next ih => exact List.mem_cons_of_mem _ (ih h)
  | box id op body next ihbody ihnext =>
    rcases List.mem_append.1 h with h | h
    · cases op with
      | loop q =>
        have hid : i = id := by
          by_cases hq : q.countless = true <;> simp [hq] at h
          exact h
        exact hid ▸ List.mem_cons_self
      | group capture => simp at h
      | look look => simp at h
      | alternative => simp at h
    · rcases List.mem_append.1 h with h | h
      · exact mem_ids_of_body (ihbody h)
      · exact mem_ids_of_next (ihnext h)

/-! ## Places in a tree -/

/-- Part of a tree: numbers are in use once, containers are as they should be, and `low` tells apart
the loops that count nothing. -/
structure Chain.Placed (low : Nat → Prop) (c : Chain) : Prop where
  nodup : c.ids.Nodup
  full : c.Full
  low : ∀ i ∈ c.ids, (low i ↔ i ∈ c.lows)

namespace Chain.Placed

variable {low : Nat → Prop} {id : Nat} {leaf : Leaf} {op : Container} {body next : Chain}

theorem ofLeaf (h : (Chain.leaf id leaf next).Placed low) : next.Placed low :=
  ⟨(List.nodup_cons.1 h.nodup).2, h.full, fun i hi => h.low i (List.mem_cons_of_mem _ hi)⟩

theorem id_notMem (h : (Chain.box id op body next).Placed low) : id ∉ body.ids ∧ id ∉ next.ids := by
  have hid := (List.nodup_cons.1 h.nodup).1
  exact ⟨fun hmem => hid (List.mem_append_left _ hmem), fun hmem => hid (List.mem_append_right _ hmem)⟩

theorem disjoint (h : (Chain.box id op body next).Placed low) {i : Nat} (hi : i ∈ body.ids) :
    i ∉ next.ids :=
  fun hmem => (List.nodup_append.1 (List.nodup_cons.1 h.nodup).2).2.2 i hi i hmem rfl

theorem body_ne_nil (h : (Chain.box id op body next).Placed low) : body ≠ .nil := h.full.1.children

theorem loop {q : Quantifier} (h : (Chain.box id (.loop q) body next).Placed low) :
    low id ↔ q.countless = true := by
  rw [h.low id List.mem_cons_self]
  constructor
  · intro hmem
    rcases List.mem_append.1 hmem with hmem | hmem
    · by_cases hq : q.countless = true
      · exact hq
      · simp [hq] at hmem
    · rcases List.mem_append.1 hmem with hmem | hmem
      · exact absurd (mem_ids_of_lows hmem) h.id_notMem.1
      · exact absurd (mem_ids_of_lows hmem) h.id_notMem.2
  · intro hq
    refine List.mem_append_left _ ?_
    simp [hq]

theorem mem_lows (h : (Chain.box id op body next).Placed low) {i : Nat} (hne : i ≠ id) :
    i ∈ (Chain.box id op body next).lows ↔ i ∈ body.lows ∨ i ∈ next.lows := by
  cases op with
  | loop q => by_cases hq : q.countless = true <;> simp [lows, hq, hne]
  | group capture => simp [lows]
  | look look => simp [lows]
  | alternative => simp [lows]

theorem ofBody (h : (Chain.box id op body next).Placed low) : body.Placed low := by
  refine ⟨(List.nodup_append.1 (List.nodup_cons.1 h.nodup).2).1, h.full.2.1, fun i hi => ?_⟩
  have hne : i ≠ id := fun heq => h.id_notMem.1 (heq ▸ hi)
  rw [h.low i (mem_ids_of_body hi), h.mem_lows hne]
  exact ⟨fun hor => hor.resolve_right fun hmem => h.disjoint hi (mem_ids_of_lows hmem), .inl⟩

theorem ofNext (h : (Chain.box id op body next).Placed low) : next.Placed low := by
  refine ⟨(List.nodup_append.1 (List.nodup_cons.1 h.nodup).2).2.1, h.full.2.2, fun i hi => ?_⟩
  have hne : i ≠ id := fun heq => h.id_notMem.2 (heq ▸ hi)
  rw [h.low i (mem_ids_of_next hi), h.mem_lows hne]
  exact ⟨fun hor => hor.resolve_left fun hmem => h.disjoint (mem_ids_of_lows hmem) hi, .inr⟩

end Chain.Placed

theorem Numbered.placed {p : Pattern} (h : p.Numbered) : p.tree.Placed fun i => i ∈ p.tree.lows :=
  ⟨h.nodup, h.full, fun _ _ => Iff.rfl⟩

/-! ## One way to match -/

/-- There is no choice outside looks: no alternative, and every loop repeats a fixed number of
times. -/
def Chain.rigid : Chain → Bool
  | .nil => true
  | .leaf _ _ next => next.rigid
  | .box _ op body next =>
    next.rigid && match op with
      | .group _ => body.rigid
      | .look _ => true
      | .alternative => false
      | .loop q => body.rigid && q.max == some q.min

/-! ## Leaves -/

/-- The leaf is no reference: where it leads to depends on the input alone. -/
def Leaf.plain : Leaf → Bool
  | .empty | .unit _ | .assertion _ | .pin _ => true
  | .reference _ | .cross _ _ => false

/-- No edge of the match is pinned. -/
def Chain.unpinned : Chain → Bool
  | .nil => true
  | .leaf _ (.pin _) _ => false
  | .leaf _ _ next => next.unpinned
  | .box _ _ body next => body.unpinned && next.unpinned

theorem Chain.unpinned_leaf {id : Nat} {op : Leaf} {next : Chain}
    (h : (Chain.leaf id op next).unpinned = true) :
    (∀ edge, op ≠ .pin edge) ∧ next.unpinned = true := by
  cases op with
  | pin edge => simp [unpinned] at h
  | empty => exact ⟨by simp, h⟩
  | unit test => exact ⟨by simp, h⟩
  | assertion condition => exact ⟨by simp, h⟩
  | reference slot => exact ⟨by simp, h⟩
  | cross target ignoreCase => exact ⟨by simp, h⟩

theorem Chain.unpinned_box {id : Nat} {op : Container} {body next : Chain}
    (h : (Chain.box id op body next).unpinned = true) : body.unpinned = true ∧ next.unpinned = true :=
  Bool.and_eq_true_iff.1 h

end Pattern

open Pattern (Chain Leaf Quantifier)

theorem Setting.read_plain (s : Setting) {op : Leaf} (h : op.plain = true) (captures : Captures)
    (pos : Nat) : s.read? captures pos op = s.read? {} pos op := by
  cases op with
  | empty => rfl
  | unit test => rfl
  | assertion condition => rfl
  | pin edge => rfl
  | reference slot => simp [Leaf.plain] at h
  | cross target ignoreCase => simp [Leaf.plain] at h

theorem Pattern.Quantifier.spare?_of_max {q : Quantifier} {bound : UInt32} (h : q.max = some bound) :
    q.spare? = some q.spare.toNat := by
  simp [spare?, spare_toNat h, h]

/-! ## One end at most -/

theorem length_flatMap_le_one {α β : Type} {xs : List α} {f : α → List β} (h : xs.length ≤ 1)
    (hf : ∀ x, (f x).length ≤ 1) : (xs.flatMap f).length ≤ 1 := by
  match xs with
  | [] => simp
  | [x] => simpa using hf x
  | _ :: _ :: _ => simp at h

theorem Repeat.timesEnds_single {step : Nat → List Nat} (h : ∀ pos, (step pos).length ≤ 1) (n : Nat) :
    ∀ pos, (timesEnds step n pos).length ≤ 1 := by
  induction n with
  | zero => intro pos; simp [timesEnds]
  | succ n ih => exact fun pos => length_flatMap_le_one (h pos) ih

theorem Setting.ends_rigid (s : Setting) {c : Chain} (h : c.rigid = true) :
    ∀ pos, (s.ends c pos).length ≤ 1 := by
  induction c with
  | nil => intro pos; simp [ends]
  | leaf id op next ih =>
    intro pos
    refine length_flatMap_le_one ?_ (ih h)
    cases s.read? {} pos op <;> simp
  | box id op body next ihbody ihnext =>
    intro pos
    simp only [Chain.rigid, Bool.and_eq_true] at h
    obtain ⟨hnext, hop⟩ := h
    cases op with
    | group capture => exact length_flatMap_le_one (ihbody hop pos) (ihnext hnext)
    | look look =>
      simp only [ends]
      split
      · exact ihnext hnext pos
      · simp
    | alternative => simp at hop
    | loop q =>
      simp only [Bool.and_eq_true, beq_iff_eq] at hop
      obtain ⟨hbody, hmax⟩ := hop
      have hrest : ∀ pos, (Repeat.restEnds q (s.ends body) s.input.stop pos).length ≤ 1 := by
        intro pos
        simp [Repeat.restEnds, Quantifier.spare?_of_max hmax, Quantifier.spare_exact hmax,
          Repeat.upToEnds]
      exact length_flatMap_le_one (length_flatMap_le_one
        (Repeat.timesEnds_single (ihbody hbody) _ pos) hrest) (ihnext hnext)

end SpanRegex
