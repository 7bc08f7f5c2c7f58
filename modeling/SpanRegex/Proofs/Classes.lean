import Mathlib.Data.Set.Image
import SpanRegex.Matching.Turn
import SpanRegex.Proofs.Drafts
import SpanRegex.Proofs.Lexemes

/-! # Character classes

A class in writing stands for a set of units: its members, from left to right, make a set of the set before
them.

* `UnitSet.contains_insertCases`: where case is ignored, a range comes with the case images of its units.
* `ClassMembers.denotes`: the set that the members stand for.
* `contains_collect`: the bits that are collected are the units of that set.
* `class_denotes`: a class in writing compiles to its set, and a node of it reads the units that are in the
  set, or those that are not.
-/

namespace SpanRegex
set_option autoImplicit false

/-! ## Case images -/

namespace UnitSet

theorem mem_unitsFrom (first last u : CodeUnit) : u ∈ unitsFrom first last ↔ first ≤ u ∧ u ≤ last := by
  have hlast := last.toNat_lt
  simp only [unitsFrom, List.mem_map, List.mem_range'_1, UInt16.le_iff_toNat_le]
  constructor
  · rintro ⟨n, ⟨hfirst, hn⟩, rfl⟩
    have hsize : n.toUInt16.toNat = n := UInt16.toNat_ofNat_of_lt' (by change n < 65536; omega)
    omega
  · rintro ⟨hfirst, hlast⟩
    exact ⟨u.toNat, by omega, UInt16.ofNat_toNat⟩

theorem contains_insertImage (s : UnitSet) (v image u : CodeUnit) :
    (s.insertImage v image).contains u = true ↔ s.contains u = true ∨ image ≠ v ∧ u = image := by
  by_cases h : image = v
  · simp [insertImage, h]
  · simp [insertImage, h, @eq_comm _ image]

theorem contains_insertImages (units : List CodeUnit) (u : CodeUnit) : ∀ s : UnitSet,
    (units.foldl (fun s v => (s.insertImage v v.toLower).insertImage v v.toUpper) s).contains u = true ↔
      s.contains u = true ∨
        ∃ v ∈ units, v.toLower ≠ v ∧ u = v.toLower ∨ v.toUpper ≠ v ∧ u = v.toUpper := by
  induction units with
  | nil => simp
  | cons v units ih =>
    intro s
    rw [List.foldl_cons, ih, contains_insertImage, contains_insertImage]
    simp only [List.mem_cons, exists_eq_or_imp, or_assoc]

theorem contains_insertCases (s : UnitSet) (first last u : CodeUnit) :
    (s.insertCases first last).contains u = true ↔
      s.contains u = true ∨ ∃ v, (first ≤ v ∧ v ≤ last) ∧ (u = v ∨ u = v.toLower ∨ u = v.toUpper) := by
  have hrange : (s.insertRange first last).contains u = true ↔
      s.contains u = true ∨ first ≤ u ∧ u ≤ last := by simp
  rw [insertCases, contains_insertImages, hrange, or_assoc]
  simp only [mem_unitsFrom]
  apply or_congr_right
  constructor
  · rintro (hunit | ⟨v, hv, ⟨-, hlower⟩ | ⟨-, hupper⟩⟩)
    · exact ⟨u, hunit, .inl rfl⟩
    · exact ⟨v, hv, .inr (.inl hlower)⟩
    · exact ⟨v, hv, .inr (.inr hupper)⟩
  · rintro ⟨v, hv, himage⟩
    by_cases hself : u = v
    · exact .inl (hself ▸ hv)
    · refine .inr ⟨v, hv, ?_⟩
      rcases himage.resolve_left hself with rfl | rfl
      · exact .inl ⟨hself, rfl⟩
      · exact .inr ⟨hself, rfl⟩

def members (s : UnitSet) : Set CodeUnit := {u | s.contains u = true}

@[simp] theorem mem_members (s : UnitSet) (u : CodeUnit) : u ∈ s.members ↔ s.contains u = true := Iff.rfl

theorem members_empty : empty.members = ∅ := by
  ext u
  simp

theorem members_compl (s : UnitSet) : s.compl.members = s.membersᶜ := by
  ext u
  simp

end UnitSet

namespace Pattern

/-! ## The set of a class -/

/-- The units and, where case is ignored, their lower- and upper-case images. -/
def withImages (ignoreCase : Bool) (units : Set CodeUnit) : Set CodeUnit :=
  if ignoreCase then units ∪ CodeUnit.toLower '' units ∪ CodeUnit.toUpper '' units else units

/-- What an inner class makes of the set before it. -/
def ClassJoin.algebra (join : ClassJoin) (before inner : Set CodeUnit) : Set CodeUnit :=
  match join with
  | .union => before ∪ inner
  | .inter => before ∩ inner
  | .diff => before \ inner

/-- The set that the members, from left to right, make of the set before them. -/
def ClassMembers.denotes (ignoreCase : Bool) (before : Set CodeUnit) : ClassMembers → Set CodeUnit
  | .none => before
  | .unit u rest => rest.denotes ignoreCase (before ∪ withImages ignoreCase {u})
  | .range first last _ rest =>
    rest.denotes ignoreCase (before ∪ withImages ignoreCase {u | first ≤ u ∧ u ≤ last})
  | .named symbol _ rest => rest.denotes ignoreCase (before ∪ {u | symbol.passes false u = true})
  | .nested join negated inner rest =>
    let set := inner.denotes ignoreCase ∅
    rest.denotes ignoreCase (join.algebra before (if negated then setᶜ else set))

theorem members_addUnits (ignoreCase : Bool) (s : UnitSet) (first last : CodeUnit) :
    (addUnits ignoreCase s first last).members =
      s.members ∪ withImages ignoreCase {u | first ≤ u ∧ u ≤ last} := by
  ext u
  cases ignoreCase with
  | false => simp [addUnits, withImages]
  | true =>
    have himages : u ∈ withImages true {u | first ≤ u ∧ u ≤ last} ↔
        ∃ v, (first ≤ v ∧ v ≤ last) ∧ (u = v ∨ u = v.toLower ∨ u = v.toUpper) := by
      simp only [withImages, if_true, Set.mem_union, Set.mem_image, and_or_left, exists_or, or_assoc]
      simp [eq_comm]
    rw [Set.mem_union, himages]
    exact UnitSet.contains_insertCases s first last u

theorem members_named (s : UnitSet) (symbol : Symbol) :
    (s.union (.ofPred fun u => symbol.passes false u)).members =
      s.members ∪ {u | symbol.passes false u = true} := by
  ext u
  simp

theorem members_apply (join : ClassJoin) (s inner : UnitSet) :
    (join.apply s inner).members = join.algebra s.members inner.members := by
  ext u
  cases join <;> simp [ClassJoin.apply, ClassJoin.algebra]

theorem members_collect (ignoreCase : Bool) (inside : ClassMembers) : ∀ s : UnitSet,
    (inside.collect ignoreCase s).members = inside.denotes ignoreCase s.members := by
  induction inside with
  | none => exact fun _ => rfl
  | unit u rest ih =>
    intro s
    have hunit : {v : CodeUnit | u ≤ v ∧ v ≤ u} = {u} := by
      ext v
      exact ⟨fun hv => UInt16.le_antisymm hv.2 hv.1, fun hv => hv ▸ ⟨UInt16.le_refl v, UInt16.le_refl v⟩⟩
    rw [ClassMembers.collect, ih, members_addUnits, hunit, ClassMembers.denotes]
  | range first last ordered rest ih =>
    intro s
    rw [ClassMembers.collect, ih, members_addUnits, ClassMembers.denotes]
  | named symbol proper rest ih =>
    intro s
    rw [ClassMembers.collect, ih, members_named, ClassMembers.denotes]
  | nested join negated inner rest ihInner ihRest =>
    intro s
    rw [ClassMembers.collect, ihRest, members_apply, ClassMembers.denotes]
    cases negated with
    | false => rw [if_neg Bool.false_ne_true, if_neg Bool.false_ne_true, ihInner, UnitSet.members_empty]
    | true => rw [if_pos rfl, if_pos rfl, UnitSet.members_compl, ihInner, UnitSet.members_empty]

/-! ## Classes in writing and as nodes -/

theorem contains_collect (ignoreCase : Bool) (inside : ClassMembers) (u : CodeUnit) :
    (inside.collect ignoreCase .empty).contains u = true ↔ u ∈ inside.denotes ignoreCase ∅ := by
  rw [← UnitSet.members_empty, ← members_collect]
  exact Iff.rfl

/-- A class that is the whole text compiles to its node alone. -/
theorem compile_class (o : Options) (negated : Bool) (inside : ClassMembers) :
    compile o (Sign.set negated inside).text =
      .ok ⟨o, .empty, .leaf 0 (.unit (.set (inside.collect o.ignoreCase .empty) negated)) .nil, 1⟩ := by
  obtain ⟨tokens, hread, htokens⟩ := readFrom_lexemes (o := o) [.sign (.set negated inside)] 0
  obtain ⟨⟨pos, token⟩, rfl, rfl⟩ := List.map_eq_singleton_iff.1 htokens
  rw [List.flatMap_singleton] at hread
  have hread : Token.read o (Sign.set negated inside).text = _ := hread
  rw [compile_eq, build, hread]
  rfl

theorem visit_unit (s : Setting) (m : Machine) (id : Nat) (test : UnitTest) (next : Chain)
    (above : List Chain) (pos : Nat) (entering : Bool) :
    s.visit m ⟨.leaf id (.unit test) next, above, pos, entering⟩ =
      if (s.input.at? pos).any fun u => test.passes s.pattern.options u then
        (.walk (Cursor.leave ⟨.leaf id (.unit test) next, above, pos, entering⟩ next (pos + 1)), m)
      else (.settle false, m) := by
  simp only [Setting.visit, Setting.visitLeaf, Setting.read?]
  cases s.input.at? pos with
  | none => rfl
  | some u => cases htest : test.passes s.pattern.options u <;> simp [htest]

/-- A class in writing stands for the set that its members make of the empty one: alone it compiles to a node
of that set, within a text it is read as such a node, and the node reads the units whose membership is not
what the outer negation says. -/
theorem class_denotes (o : Options) (negated : Bool) (inside : ClassMembers) :
    ∃ set : UnitSet,
      (∀ u, set.contains u = true ↔ u ∈ inside.denotes o.ignoreCase ∅) ∧
      compile o (Sign.set negated inside).text =
        .ok ⟨o, .empty, .leaf 0 (.unit (.set set negated)) .nil, 1⟩ ∧
      (∀ (pos : Nat) (rest : List Char),
        Token.scan o pos '[' (negationText negated ++ (inside.text ++ ']' :: rest)) =
          .ok (.leaf (.unit (.set set negated)), (Sign.set negated inside).text.length)) ∧
      ∀ (s : Setting) (m : Machine) (id : Nat) (next : Chain) (above : List Chain) (pos : Nat)
        (entering : Bool),
        let c : Cursor := ⟨.leaf id (.unit (.set set negated)) next, above, pos, entering⟩
        (s.visit m c = (.walk (c.leave next (pos + 1)), m) ∧
          ∃ u, s.input.at? pos = some u ∧ (u ∈ inside.denotes o.ignoreCase ∅ ↔ negated = false)) ∨
        (s.visit m c = (.settle false, m) ∧
          ∀ u, s.input.at? pos = some u → (u ∈ inside.denotes o.ignoreCase ∅ ↔ negated = true)) := by
  refine ⟨inside.collect o.ignoreCase .empty, contains_collect o.ignoreCase inside,
    compile_class o negated inside, scan_set negated inside, ?_⟩
  intro s m id next above pos entering c
  have hpasses : ∀ u, UnitTest.passes s.pattern.options u
      (.set (inside.collect o.ignoreCase .empty) negated) = true ↔
        (u ∈ inside.denotes o.ignoreCase ∅ ↔ negated = false) := by
    intro u
    rw [← contains_collect]
    cases negated <;> simp [UnitTest.passes]
  rw [visit_unit]
  cases hunit : s.input.at? pos with
  | none => exact .inr ⟨rfl, by simp⟩
  | some u =>
    by_cases hread : u ∈ inside.denotes o.ignoreCase ∅ ↔ negated = false
    · have htest := (hpasses u).2 hread
      exact .inl ⟨by simp [htest, c], u, rfl, hread⟩
    · have htest := mt (hpasses u).1 hread
      refine .inr ⟨by simp [htest], fun v hv => ?_⟩
      obtain rfl := Option.some.inj hv
      cases negated with
      | false => simpa using hread
      | true => simpa using hread

end Pattern

end SpanRegex
