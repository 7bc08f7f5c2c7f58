import SpanRegex.Matching.Turn
import SpanRegex.Proofs.Slots

/-! # References to the attached match by name

A reference to a group of the attached match is compiled to a slot of the referring pattern if the name has one
when the reference is read, and to the name otherwise. Either way the name alone decides what it reads.

* `Attachment.Holds`: what the attached match holds under a name; `crossText?_eq_some`: a reference expects it.
* `Input.StandsAt`: a text stands at an offset; `holdsAt_iff`.
* `visit_crossName`: a visit of a reference by name.
-/

namespace SpanRegex
set_option autoImplicit false

open Pattern (CrossTarget GroupNames Token Written compile)

/-! ## What the attached match holds -/

/-- The names of the attached match have the name, its slot is set on both sides, and its span is a range of the
attached text, where `t` stands. -/
def Attachment.Holds (a : Attachment) (name : String) (t : Text) : Prop :=
  ∃ slot start stop, a.names.lookup name = some slot ∧
    a.captures.get (.named slot) = ⟨some start, some stop⟩ ∧ start ≤ stop ∧ stop ≤ a.text.size ∧
    t = a.text.slice start stop

theorem Bounds.heldText?_eq_some {b : Bounds} {text t : Text} :
    b.heldText? text = some t ↔
      ∃ start stop, b = ⟨some start, some stop⟩ ∧ start ≤ stop ∧ stop ≤ text.size ∧ t = text.slice start stop := by
  obtain ⟨start, stop⟩ := b
  cases start with
  | none => simp [heldText?, span?]
  | some start =>
    cases stop with
    | none => simp [heldText?, span?]
    | some stop =>
      simp only [heldText?, span?, Option.ite_none_right_eq_some, Option.some.injEq, Bounds.mk.injEq]
      constructor
      · rintro ⟨⟨horder, hinside⟩, rfl⟩
        exact ⟨start, stop, ⟨rfl, rfl⟩, horder, hinside, rfl⟩
      · rintro ⟨_, _, ⟨rfl, rfl⟩, horder, hinside, rfl⟩
        exact ⟨⟨horder, hinside⟩, rfl⟩

/-- The target is the name, or a slot that the referring pattern gives the name. -/
def Pattern.CrossTarget.Means (target : CrossTarget) (names : GroupNames) (name : String) : Prop :=
  target = .unresolved name ∨ ∃ slot, target = .slot (.named slot) ∧ names.name? slot = some name

theorem Attachment.bounds?_of_means {a : Attachment} {names : GroupNames} {target : CrossTarget} {name : String}
    (h : target.Means names name) :
    a.bounds? names target = (a.names.lookup name).map fun slot => a.captures.get (.named slot) := by
  rcases h with rfl | ⟨slot, rfl, hname⟩
  · cases hlookup : a.names.lookup name <;> simp [bounds?, hlookup]
  · cases hlookup : a.names.lookup name <;> simp [bounds?, hname, hlookup]

theorem Setting.crossText?_eq_some {s : Setting} {target : CrossTarget} {name : String} {t : Text}
    (h : target.Means s.pattern.names name) :
    s.crossText? target = some t ↔ ∃ a, s.attached = some a ∧ a.Holds name t := by
  simp only [crossText?, Option.bind_eq_bind, Option.bind_eq_some_iff, Attachment.bounds?_of_means h,
    Option.map_eq_some_iff, Bounds.heldText?_eq_some, Attachment.Holds]
  constructor
  · rintro ⟨a, ha, b, ⟨slot, hslot, rfl⟩, start, stop, hb, hrange⟩
    exact ⟨a, ha, slot, start, stop, hslot, hb, hrange⟩
  · rintro ⟨a, ha, slot, start, stop, hslot, hb, hrange⟩
    exact ⟨a, ha, _, ⟨slot, hslot, rfl⟩, start, stop, hb, hrange⟩

/-! ## What stands at an offset -/

/-- The text ends before the end of the input, and each of its units is the one that stands there, or equals it up to
case if case is ignored. -/
def Input.StandsAt (i : Input) (pos : Nat) (t : Text) (ignoreCase : Bool) : Prop :=
  pos + t.size ≤ i.stop ∧ ∀ (k : Nat) (v : CodeUnit), t[k]? = some v →
    ∃ u, i.text[pos + k]? = some u ∧ if ignoreCase then u.eqIgnoreCase v = true else u = v

theorem Input.agrees_iff {same : CodeUnit → CodeUnit → Bool} (us : List CodeUnit) : ∀ vs : List CodeUnit,
    agrees same us vs = true ↔ us.length ≤ vs.length ∧
      ∀ (k : Nat) (v : CodeUnit), vs[k]? = some v → ∃ u, us[k]? = some u ∧ same u v = true := by
  induction us with
  | nil =>
    intro vs
    cases vs with
    | nil => simp [agrees]
    | cons v vs =>
      simp only [agrees, Bool.false_eq_true, false_iff]
      rintro ⟨-, h⟩
      obtain ⟨u, hu, -⟩ := h 0 v rfl
      cases hu
  | cons u us ih =>
    intro vs
    cases vs with
    | nil => simp [agrees]
    | cons v vs =>
      rw [agrees, Bool.and_eq_true, ih vs]
      constructor
      · rintro ⟨hsame, hle, h⟩
        refine ⟨Nat.succ_le_succ hle, fun k w hw => ?_⟩
        cases k with
        | zero =>
          obtain rfl := Option.some.inj hw
          exact ⟨u, rfl, hsame⟩
        | succ k => exact h k w hw
      · rintro ⟨hle, h⟩
        obtain ⟨u', hu', hsame⟩ := h 0 v rfl
        obtain rfl := Option.some.inj hu'
        exact ⟨hsame, Nat.le_of_succ_le_succ hle, fun k w hw => h (k + 1) w hw⟩

theorem sameUnit_iff {ignoreCase : Bool} {u v : CodeUnit} :
    Pattern.sameUnit ignoreCase u v = true ↔ if ignoreCase then u.eqIgnoreCase v = true else u = v := by
  cases ignoreCase with
  | false => simp [Pattern.sameUnit]
  | true =>
    simp only [Pattern.sameUnit, Bool.true_and, Bool.or_eq_true, beq_iff_eq, if_true, or_iff_right_iff_imp]
    rintro rfl
    simp [CodeUnit.eqIgnoreCase]

theorem Input.holdsAt_iff {i : Input} {pos : Nat} {t : Text} {ignoreCase : Bool} :
    i.holdsAt pos t (Pattern.sameUnit ignoreCase) = true ↔ i.StandsAt pos t ignoreCase := by
  have hlength : (i.text.slice pos (pos + t.size)).toList.length ≤ t.toList.length := by
    simp [Text.slice]
  have hunit : ∀ k v, t[k]? = some v → (i.text.slice pos (pos + t.size)).toList[k]? = i.text[pos + k]? := by
    intro k v hv
    obtain ⟨hk, -⟩ := Array.getElem?_eq_some_iff.1 hv
    have hk' : k < min (pos + t.size) i.text.size - pos ∨ i.text.size ≤ pos + k := by omega
    rw [Array.getElem?_toList, Text.slice, Array.getElem?_extract]
    split
    · rfl
    · exact (Array.getElem?_eq_none (hk'.resolve_left (by assumption))).symm
  simp only [holdsAt, Bool.and_eq_true, decide_eq_true_eq, agrees_iff, StandsAt, hlength, true_and, sameUnit_iff]
  refine and_congr_right fun _ => forall_congr' fun k => forall_congr' fun v => ?_
  have ht : t.toList[k]? = t[k]? := Array.getElem?_toList
  rw [ht]
  constructor
  · intro h hv
    rw [← hunit k v hv]
    exact h hv
  · intro h hv
    rw [hunit k v hv]
    exact h hv

/-! ## References by name -/

theorem Setting.visit_cross {s : Setting} {m : Machine} {c : Cursor} {id : Nat} {target : CrossTarget}
    {ignoreCase : Bool} {next : Pattern.Chain} (hc : c.chain = .leaf id (.cross target ignoreCase) next) :
    s.visit m c = match s.input.after? c.pos ignoreCase (s.crossText? target) with
      | some pos => (.walk (c.leave next pos), m)
      | none => (.settle false, m) := by
  rw [visit, hc]
  rfl

/-- A reference that means a name reads what the attached match holds under it, where that stands, and fails
otherwise. -/
theorem Setting.visit_of_means {s : Setting} {c : Cursor} {id : Nat} {target : CrossTarget} {ignoreCase : Bool}
    {next : Pattern.Chain} {name : String} (hmeans : target.Means s.pattern.names name)
    (hc : c.chain = .leaf id (.cross target ignoreCase) next) (m : Machine) :
    (∃ a t, s.attached = some a ∧ a.Holds name t ∧ s.input.StandsAt c.pos t ignoreCase ∧
      s.visit m c = (.walk (c.leave next (c.pos + t.size)), m) ∧
      (c.leave next (c.pos + t.size)).pos = c.pos + t.size) ∨
    (¬ ∃ a t, s.attached = some a ∧ a.Holds name t ∧ s.input.StandsAt c.pos t ignoreCase) ∧
      s.visit m c = (.settle false, m) := by
  have hexpected : ∀ t, s.crossText? target = some t ↔ ∃ a, s.attached = some a ∧ a.Holds name t :=
    fun t => crossText?_eq_some hmeans
  rw [visit_cross hc]
  cases htext : s.crossText? target with
  | none =>
    refine .inr ⟨?_, rfl⟩
    rintro ⟨a, t, ha, hholds, -⟩
    rw [(hexpected t).2 ⟨a, ha, hholds⟩] at htext
    cases htext
  | some t =>
    obtain ⟨a, ha, hholds⟩ := (hexpected t).1 htext
    by_cases hstands : s.input.StandsAt c.pos t ignoreCase
    · refine .inl ⟨a, t, ha, hholds, hstands, ?_, c.leave_pos next _⟩
      rw [Input.after?, if_pos (Input.holdsAt_iff.2 hstands)]
    · refine .inr ⟨?_, ?_⟩
      · rintro ⟨a', t', ha', hholds', hstands'⟩
        have hsame := (hexpected t').2 ⟨a', ha', hholds'⟩
        rw [htext] at hsame
        exact hstands (Option.some.inj hsame ▸ hstands')
      · rw [Input.after?, if_neg (mt Input.holdsAt_iff.1 hstands)]

/-- A reference by name to the attached match succeeds where that holds a text under the name which stands at the
cursor, and moves the cursor behind it; otherwise it fails. The slot that the name has in the pattern, if it has
one, does not matter. -/
theorem visit_crossName {o : Pattern.Options} {cs : List Char} {p : Pattern} {before after : List (Nat × Token)}
    {place : Nat} {name : String} {ignoreCase : Bool}
    (hread : Token.read o cs = (before ++ (place, .crossName name ignoreCase) :: after, none))
    (hp : compile o cs = .ok p) :
    ∃ target, p.body.marks[(before.flatMap fun entry => entry.2.written).length]? =
        some (.leaf (.cross target ignoreCase)) ∧
      ∀ (s : Setting) (m : Machine) (c : Cursor) (id : Nat) (next : Pattern.Chain), s.pattern = p →
        c.chain = .leaf id (.cross target ignoreCase) next →
        (∃ a t, s.attached = some a ∧ a.Holds name t ∧ s.input.StandsAt c.pos t ignoreCase ∧
          s.visit m c = (.walk (c.leave next (c.pos + t.size)), m) ∧
          (c.leave next (c.pos + t.size)).pos = c.pos + t.size) ∨
        (¬ ∃ a t, s.attached = some a ∧ a.Holds name t ∧ s.input.StandsAt c.pos t ignoreCase) ∧
          s.visit m c = (.settle false, m) := by
  obtain ⟨tokens, htokens, hnames, hmarked⟩ := Pattern.marked_of_compile hp
  obtain rfl : tokens = before ++ (place, .crossName name ignoreCase) :: after :=
    (Prod.mk.inj (htokens.symm.trans hread)).1
  have hleaf : ∀ op, .leaf op ∈ (before ++ (place, Token.crossName name ignoreCase) :: after).flatMap
      (fun entry => entry.2.written) → op.nameless = true := by
    intro op hop
    apply Pattern.nameless_of_read
    rw [hread]
    exact hop
  obtain ⟨target, hmark, hmeans⟩ := (Pattern.SlotsFit.of_marked hnames hmarked hleaf).cross
    (before.flatMap fun entry => entry.2.written).length name ignoreCase (by simp [Token.written])
  refine ⟨target, hmark, ?_⟩
  rintro s m c id next rfl hc
  exact Setting.visit_of_means hmeans hc m

/-- The pattern `(?\x7bn\x7da)\Y\x7bn\x7d`. -/
def namedCross : Pattern where
  options := {}
  names := (GroupNames.empty.define "n").1
  body :=
    .box 1 (.group (some Pattern.firstName)) (.leaf 0 (.unit (.literal 97)) .nil)
      (.leaf 2 (.cross (.slot Pattern.firstName) true) .nil)
  rootId := 3

theorem visit_crossName_namedCross :
    Token.read {} "(?\x7bn\x7da)\\Y\x7bn\x7d".toList =
      ([(0, .opening (.named "n")), (5, .literal 'a'), (6, .closing)] ++ (7, .crossName "n" true) :: [], none) ∧
    compile {} "(?\x7bn\x7da)\\Y\x7bn\x7d".toList = .ok namedCross ∧
    ∃ target, namedCross.body.marks[2]? = some (.leaf (.cross target true)) ∧
      ∀ (s : Setting) (m : Machine) (c : Cursor) (id : Nat) (next : Pattern.Chain), s.pattern = namedCross →
        c.chain = .leaf id (.cross target true) next →
        (∃ a t, s.attached = some a ∧ a.Holds "n" t ∧ s.input.StandsAt c.pos t true ∧
          s.visit m c = (.walk (c.leave next (c.pos + t.size)), m) ∧
          (c.leave next (c.pos + t.size)).pos = c.pos + t.size) ∨
        (¬ ∃ a t, s.attached = some a ∧ a.Holds "n" t ∧ s.input.StandsAt c.pos t true) ∧
          s.visit m c = (.settle false, m) :=
  have hread : Token.read {} "(?\x7bn\x7da)\\Y\x7bn\x7d".toList =
      ([(0, .opening (.named "n")), (5, .literal 'a'), (6, .closing)] ++ (7, .crossName "n" true) :: [], none) := by
    decide +kernel
  have hcompile : compile {} "(?\x7bn\x7da)\\Y\x7bn\x7d".toList = .ok namedCross := by decide +kernel
  ⟨hread, hcompile, visit_crossName hread hcompile⟩

end SpanRegex
