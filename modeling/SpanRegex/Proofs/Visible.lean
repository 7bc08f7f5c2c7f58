import SpanRegex.Proofs.Moves
import SpanRegex.Proofs.Reference

/-! # What a search can see

Nothing behind the offset at which a text is taken to end has any influence on a search: the walk,
the open choices and the captures never pass the end, and before the end the texts are the same.

* `Input.Alike`: two inputs with the same bounds whose texts agree up to the end.
* `Machine.Within`, `Move.within`: no turn leads beyond the end.
* `turn_alike`, `reaches_alike`: turns on inputs that are alike are the same.
* `search_alike`: searches of texts that agree up to the end are the same.
-/

namespace SpanRegex
set_option autoImplicit false

open Pattern (Chain Leaf Slot)

/-! ## Inputs that agree up to the end -/

/-- The bounds are the same, and the texts agree up to the end, which lies in both. -/
structure Input.Alike (a b : Input) : Prop where
  stop : b.stop = a.stop
  schemeStart : b.schemeStart = a.schemeStart
  inside : a.stop ≤ a.text.size
  inside' : a.stop ≤ b.text.size
  units : ∀ i, i < a.stop → b.text[i]? = a.text[i]?

/-- No edge lies beyond the offset. -/
def Bounds.Within (n : Nat) (b : Bounds) : Prop := ∀ x, b.start = some x ∨ b.stop = some x → x ≤ n

/-- No edge of a capture lies beyond the offset. -/
def Captures.Within (n : Nat) (c : Captures) : Prop := ∀ slot, (c.get slot).Within n

namespace Input.Alike

variable {a b : Input} {pos : Nat} (h : a.Alike b)

include h

theorem at_eq (pos : Nat) : b.at? pos = a.at? pos := by
  unfold Input.at?
  rw [h.stop]
  split
  · exact h.units pos ‹_›
  · rfl

theorem before_eq (hpos : pos ≤ a.stop) : b.before? pos = a.before? pos := by
  unfold Input.before?
  split
  · rfl
  · exact h.units (pos - 1) (by omega)

theorem slice_eq (start : Nat) {stop : Nat} (hstop : stop ≤ a.stop) :
    b.text.slice start stop = a.text.slice start stop := by
  refine Array.ext_getElem? fun i => ?_
  have hsizes : min stop b.text.size = stop ∧ min stop a.text.size = stop := by
    have := h.inside
    have := h.inside'
    omega
  simp only [Text.slice, Array.getElem?_extract, hsizes]
  split
  · exact h.units _ (by omega)
  · rfl

theorem holdsAt_eq (pos : Nat) (expected : Text) (same : CodeUnit → CodeUnit → Bool) :
    b.holdsAt pos expected same = a.holdsAt pos expected same := by
  unfold Input.holdsAt
  rw [h.stop]
  by_cases hle : pos + expected.size ≤ a.stop
  · rw [h.slice_eq pos hle]
  · simp [hle]

theorem after_eq (pos : Nat) (ignoreCase : Bool) (expected : Option Text) :
    b.after? pos ignoreCase expected = a.after? pos ignoreCase expected := by
  cases expected with
  | none => rfl
  | some t => simp only [Input.after?, h.holdsAt_eq]

theorem heldText_eq {bounds : Bounds} (hbounds : bounds.Within a.stop) :
    bounds.heldText? b.text = bounds.heldText? a.text := by
  unfold Bounds.heldText?
  split
  · rename_i span hspan
    have hstop : span.stop ≤ a.stop := by
      refine hbounds span.stop (.inr ?_)
      unfold Bounds.span? at hspan
      split at hspan
      · rename_i hstop
        rw [hstop, ← Option.some.inj hspan]
      · simp at hspan
    have hinside := h.inside
    have hinside' := h.inside'
    have hiff : (span.start ≤ span.stop ∧ span.stop ≤ b.text.size) ↔
        (span.start ≤ span.stop ∧ span.stop ≤ a.text.size) := by omega
    simp only [hiff, h.slice_eq span.start hstop]
  · rfl

theorem startsLine_eq (hpos : pos ≤ a.stop) : Pattern.startsLine b pos = Pattern.startsLine a pos := by
  unfold Pattern.startsLine
  rw [h.before_eq hpos]

theorem atWordEdge_eq (hpos : pos ≤ a.stop) : Pattern.atWordEdge b pos = Pattern.atWordEdge a pos := by
  unfold Pattern.atWordEdge
  rw [h.before_eq hpos, h.at_eq]

theorem holds_eq (o : Pattern.Options) (hpos : pos ≤ a.stop) (condition : Pattern.Assertion) :
    condition.holds o b pos = condition.holds o a pos := by
  cases condition with
  | lineStart => exact h.startsLine_eq hpos
  | schemeStart => simp only [Pattern.Assertion.holds, h.schemeStart]
  | lineEnd => simp only [Pattern.Assertion.holds, h.stop, h.at_eq]
  | wordBoundary => exact h.atWordEdge_eq hpos
  | notWordBoundary => exact congrArg (!·) (h.atWordEdge_eq hpos)
  | afterNonLetter => simp only [Pattern.Assertion.holds, h.stop, h.before_eq hpos]

theorem accepts_eq (hpos : pos ≤ a.stop) (prefilter : Pattern.Prefilter) :
    prefilter.accepts b pos = prefilter.accepts a pos := by
  cases prefilter with
  | anywhere => rfl
  | literal v ignoreCase => simp only [Pattern.Prefilter.accepts, h.at_eq]
  | lineStart => exact h.startsLine_eq hpos
  | schemeStart => simp only [Pattern.Prefilter.accepts, h.schemeStart]

end Input.Alike

/-! ## Nothing passes the end -/

/-- The walk is not beyond the offset. -/
def Phase.Within (n : Nat) : Phase → Prop
  | .walk c => c.pos ≤ n
  | .settle _ => True

/-- No open choice, no start of a group and no capture lies beyond the offset. -/
structure Machine.Within (n : Nat) (m : Machine) : Prop where
  frames : ∀ f ∈ m.frames, f.cursor.pos ≤ n
  starts : ∀ i, m.starts.get i ≤ n
  captures : m.captures.Within n

theorem Bounds.Within.ordered {n : Nat} {b : Bounds} (h : b.Within n) : b.ordered.Within n := by
  unfold Bounds.ordered
  split
  · rename_i start stop _ hstop
    split
    · intro x hx
      rcases hx with hx | hx
      · exact h x (.inr (hstop.trans hx))
      · exact h x (.inr hx)
    · exact h
  · exact h

namespace Captures

variable {n : Nat} {c : Captures}

theorem Within.set (h : c.Within n) (slot : Slot) {b : Bounds} (hb : b.Within n) :
    (c.set slot b).Within n := by
  intro slot'
  rw [get_set]
  split
  · exact hb
  · exact h slot'

theorem Within.pin (h : c.Within n) (edge : Pattern.Edge) {pos : Nat} (hpos : pos ≤ n) :
    (c.pin edge pos).Within n := by
  have hwhole := h Slot.whole
  cases edge with
  | start =>
    refine h.set _ fun x hx => ?_
    rcases hx with hx | hx
    · exact Option.some.inj hx ▸ hpos
    · exact hwhole x (.inr hx)
  | stop =>
    refine h.set _ fun x hx => ?_
    rcases hx with hx | hx
    · exact hwhole x (.inl hx)
    · exact Option.some.inj hx ▸ hpos

theorem Within.record (h : c.Within n) (slot : Slot) (span : Span) (hstart : span.start ≤ n)
    (hstop : span.stop ≤ n) (holdStart holdStop : Bool) :
    (c.record slot span holdStart holdStop).Within n := by
  have hor : ∀ (hold : Bool) (old : Option Nat) (new : Nat), (∀ x, old = some x → x ≤ n) → new ≤ n →
      ∀ x, (if hold then old else some new) = some x → x ≤ n := by
    intro hold old new hold' hnew x hx
    cases hold with
    | true => exact hold' x hx
    | false => exact Option.some.inj hx ▸ hnew
  refine h.set slot (Bounds.Within.ordered fun x hx => ?_)
  rcases hx with hx | hx
  · exact hor holdStart _ _ (fun x hx => h slot x (.inl hx)) hstart x hx
  · exact hor holdStop _ _ (fun x hx => h slot x (.inr hx)) hstop x hx

end Captures

namespace Machine

variable {n : Nat} {m m' m₀ : Machine} {c : Cursor}

theorem within_ready (h : ∀ i, m.starts.get i ≤ n) : m.ready.Within n where
  frames := by simp [ready]
  starts := h
  captures slot := by
    cases slot <;> rintro x (hx | hx) <;> simp [ready, Captures.get, Vector.get] at hx

theorem Within.same (h : m.Within n) (hsame : m.SameRecords m')
    (hframes : ∀ f ∈ m'.frames, f.cursor.pos ≤ n) : m'.Within n :=
  ⟨hframes, hsame.starts ▸ h.starts, hsame.captures ▸ h.captures⟩

theorem Within.opens (h : ∀ f ∈ m₀.frames, f.cursor.pos ≤ n) (hc : c.pos ≤ n) (hopens : m₀.Opens c m') :
    ∀ f ∈ m'.frames, f.cursor.pos ≤ n := by
  rcases hopens with hframes | ⟨choice, k, -, hframes⟩
  · rwa [hframes]
  · rw [hframes]
    exact List.forall_mem_cons.2 ⟨hc, h⟩

theorem Within.pin (h : m.Within n) (edge : Pattern.Edge) {pos : Nat} (hpos : pos ≤ n) :
    (m.pin edge pos).Within n := by
  cases edge <;> exact ⟨h.frames, h.starts, h.captures.pin _ hpos⟩

end Machine

namespace Setting

variable {s : Setting} {phase phase' : Phase} {m m' : Machine}

theorem Move.within (h : s.Move phase m phase' m') (hphase : phase.Within s.input.stop)
    (hm : m.Within s.input.stop) : phase'.Within s.input.stop ∧ m'.Within s.input.stop := by
  have hleave : ∀ (c : Cursor) (next : Chain) {pos : Nat}, pos ≤ s.input.stop →
      (Phase.walk (c.leave next pos)).Within s.input.stop := fun c next pos hpos => by
    simpa only [Phase.Within, Cursor.leave_pos] using hpos
  have hvisited : m.visited.Within s.input.stop := hm.same (.visited m) hm.frames
  cases h with
  | off => exact ⟨trivial, hm⟩
  | read here read frames records =>
    exact ⟨hleave _ _ ((s.read_bounds read).2 hphase), hm.same records (frames ▸ hm.frames)⟩
  | pin => exact ⟨hleave _ _ hphase, hvisited.pin _ hphase⟩
  | lose frames records => exact ⟨trivial, hm.same records (frames ▸ hm.frames)⟩
  | enter =>
    refine ⟨hphase, hvisited.frames, fun i => ?_, hvisited.captures⟩
    rw [Store.get_set]
    split
    · exact hphase
    · exact hm.starts i
  | leave => exact ⟨hleave _ _ hphase, hvisited⟩
  | record =>
    exact ⟨hleave _ _ hphase, hvisited.frames, hvisited.starts,
      hvisited.captures.record _ ⟨_, _⟩ (hm.starts _) hphase _ _⟩
  | look =>
    exact ⟨Nat.le_trans (Nat.sub_le _ _) hphase, List.forall_mem_cons.2 ⟨hphase, hm.frames⟩,
      hm.starts, hm.captures⟩
  | found => exact ⟨trivial, hvisited⟩
  | inward _ _ opens records =>
    exact ⟨hphase, hm.same records (Machine.Within.opens hm.frames hphase opens)⟩
  | onward _ _ _ opens records =>
    exact ⟨hleave _ _ hphase, hm.same records (Machine.Within.opens hm.frames hphase opens)⟩
  | drop frames _ records =>
    have hframes := hm.frames
    rw [frames] at hframes
    exact ⟨trivial, hm.same records (List.forall_mem_cons.1 hframes).2⟩
  | back frames_eq popped opens records =>
    have hframes := hm.frames
    rw [frames_eq, ← popped] at hframes
    obtain ⟨hpos, hframes⟩ := List.forall_mem_cons.1 hframes
    refine ⟨?_, hm.same records (Machine.Within.opens hframes hpos opens)⟩
    simpa only [Phase.Within, Cursor.proceed_pos] using hpos
  | again frames_eq popped here opens records =>
    have hframes := hm.frames
    rw [frames_eq, ← popped] at hframes
    obtain ⟨hpos, hframes⟩ := List.forall_mem_cons.1 hframes
    exact ⟨hpos, hm.same records (Machine.Within.opens hframes hpos opens)⟩

theorem within_of_turn (h : s.turn m phase = .going phase' m') (hphase : phase.Within s.input.stop)
    (hm : m.Within s.input.stop) : phase'.Within s.input.stop ∧ m'.Within s.input.stop :=
  (move_of_turn h).within hphase hm

/-! ## The same turns -/

section
variable {i : Input} (halike : s.input.Alike i)

include halike

theorem read_alike {captures : Captures} (hcaptures : captures.Within s.input.stop) {pos : Nat}
    (hpos : pos ≤ s.input.stop) (op : Leaf) :
    { s with input := i }.read? captures pos op = s.read? captures pos op := by
  cases op with
  | empty => rfl
  | unit test => simp only [read?, halike.at_eq]
  | assertion condition => simp only [read?, halike.holds_eq _ hpos]
  | pin edge => rfl
  | reference slot => simp only [read?, halike.after_eq, halike.heldText_eq (hcaptures slot)]
  | cross target ignoreCase => exact halike.after_eq pos ignoreCase _

theorem turn_alike (hphase : phase.Within s.input.stop) (hm : m.Within s.input.stop) :
    { s with input := i }.turn m phase = s.turn m phase := by
  cases phase with
  | settle success => rfl
  | walk c =>
    obtain ⟨chain, above, pos, entering⟩ := c
    cases chain with
    | nil => rfl
    | leaf id op next =>
      have hread := read_alike halike hm.captures hphase op
      simp only [turn, visit, visitLeaf, hread]
      rfl
    | box id op body next => rfl

theorem run_alike (fuel : Nat) : ∀ {phase : Phase} {m : Machine}, phase.Within s.input.stop →
    m.Within s.input.stop → { s with input := i }.run fuel phase m = s.run fuel phase m := by
  induction fuel with
  | zero => exact fun _ _ => rfl
  | succ fuel ih =>
    intro phase m hphase hm
    simp only [run, turn_alike halike hphase hm]
    cases hturn : s.turn m phase with
    | going phase' m' =>
      obtain ⟨hphase', hm'⟩ := within_of_turn hturn hphase hm
      exact ih hphase' hm'
    | «over» v m' => rfl

theorem reaches_alike (hphase : phase.Within s.input.stop) (hm : m.Within s.input.stop) :
    { s with input := i }.Reaches phase m phase' m' ↔ s.Reaches phase m phase' m' := by
  constructor
  · intro h
    induction h with
    | refl => exact .refl _ _
    | turn first rest ih =>
      rw [turn_alike halike hphase hm] at first
      obtain ⟨hphase', hm'⟩ := within_of_turn first hphase hm
      exact .turn first (ih hphase' hm')
  · intro h
    induction h with
    | refl => exact .refl _ _
    | turn first rest ih =>
      obtain ⟨hphase', hm'⟩ := within_of_turn first hphase hm
      exact .turn ((turn_alike halike hphase hm).trans first) (ih hphase' hm')

omit halike in
theorem starts_of_attempt {fuel pos : Nat} {v : Verdict} (hpos : pos ≤ s.input.stop)
    (hm : ∀ i, m.starts.get i ≤ s.input.stop) (h : s.attempt fuel pos m = some (v, m')) :
    ∀ i, m'.starts.get i ≤ s.input.stop := by
  obtain ⟨phase₁, m₁, hruns, hover⟩ := reaches_of_run fuel h
  obtain ⟨-, hm₁⟩ := hruns.invariant (fun phase m => phase.Within s.input.stop ∧ m.Within s.input.stop)
    (fun hmove h => hmove.within h.1 h.2) ⟨hpos, Machine.within_ready hm⟩
  exact (sameRecords_of_over hover).starts ▸ hm₁.starts

theorem search_alike (prefilter : Pattern.Prefilter) (fuel count : Nat) : ∀ (pos : Nat) (m : Machine),
    pos + count ≤ s.input.stop + 1 → (∀ i, m.starts.get i ≤ s.input.stop) →
    { s with input := i }.search prefilter fuel count pos m = s.search prefilter fuel count pos m := by
  induction count with
  | zero => exact fun _ _ _ _ => rfl
  | succ count ih =>
    intro pos m hlast hm
    have hpos : pos ≤ s.input.stop := by omega
    have hattempt : { s with input := i }.attempt fuel pos m = s.attempt fuel pos m :=
      run_alike halike fuel hpos (Machine.within_ready hm)
    simp only [search, halike.accepts_eq hpos, hattempt]
    split
    · cases hdone : s.attempt fuel pos m with
      | none => rfl
      | some decided =>
        obtain ⟨v, m'⟩ := decided
        cases v with
        | failed => exact ih (pos + 1) m' (by omega) (starts_of_attempt hpos hm hdone)
        | matched => rfl
        | exhausted => rfl
    · exact ih (pos + 1) m (by omega) hm

end

end Setting

/-! ## Searches -/

/-- Nothing behind the end of the text is seen: two searches with the same bounds, in texts that agree
up to the end, are the same, whatever fuel they are given; each of their attempts passes the same
states; and they leave the same matcher. -/
theorem search_visible (m : Matcher) {q q' : Query} (hmode : q'.mode = q.mode)
    (hstart : q'.start = q.start) (hscheme : q'.schemeStart = q.schemeStart)
    (hbound : q'.bound = q.bound) (hunits : ∀ i, i < q.bound → q'.text[i]? = q.text[i]?) :
    (∀ fuel, m.search fuel q' = m.search fuel q ∧ m.exec fuel q' = m.exec fuel q) ∧
    ∀ pos, pos ≤ q.bound → ∀ before : Machine, (∀ i, before.starts.get i ≤ q.bound) → ∀ phase machine,
      ((m.setting q').Reaches (.walk (.start m.pattern.tree pos)) before.ready phase machine ↔
        (m.setting q).Reaches (.walk (.start m.pattern.tree pos)) before.ready phase machine) := by
  have halike : (m.setting q).input.Alike q'.input :=
    ⟨hbound, hscheme, Nat.min_le_right _ _, Nat.le_trans (Nat.le_of_eq hbound.symm) (Nat.min_le_right _ _), hunits⟩
  have hsearch : ∀ fuel, m.search fuel q' = m.search fuel q := by
    intro fuel
    have hoffsets : q'.offsets = q.offsets := by simp only [Query.offsets, hmode, hbound, hstart]
    unfold Matcher.search
    rw [hbound, hstart, hoffsets]
    split
    · rfl
    · rename_i hle
      have hlast : q.start + q.offsets ≤ (m.setting q).input.stop + 1 := by
        show q.start + q.offsets ≤ q.bound + 1
        unfold Query.offsets
        split <;> omega
      have hfresh : ∀ i, ({} : Machine).starts.get i ≤ (m.setting q).input.stop := fun i => by
        simp [Store.get]
      rw [show m.setting q' = { m.setting q with input := q'.input } from rfl,
        Setting.search_alike halike _ fuel _ _ _ hlast hfresh]
  refine ⟨fun fuel => ⟨hsearch fuel, by simp only [Matcher.exec, hsearch]⟩, ?_⟩
  exact fun pos hpos before hbefore phase machine =>
    Setting.reaches_alike halike hpos (Machine.within_ready hbefore)

/-- The pattern `a*\b`. -/
def wordEnd : Pattern where
  options := {}
  names := .empty
  body :=
    .box 2 (.loop ⟨0, none, false⟩) (.leaf 0 (.unit (.literal 97)) .nil)
      (.leaf 1 (.assertion .wordBoundary) .nil)
  rootId := 3

/-- A word unit behind the end is no neighbour: `aab` that is taken to end before its last unit is
searched as `aa` is. -/
theorem search_wordEnd :
    Pattern.compile {} "a*\\b".toList = .ok wordEnd ∧
    (∀ fuel, ({ pattern := wordEnd } : Matcher).exec fuel { text := #[97, 97, 98], stop := 2 } =
      ({ pattern := wordEnd } : Matcher).exec fuel { text := #[97, 97] }) ∧
    (({ pattern := wordEnd } : Matcher).exec 100 { text := #[97, 97] }).map
      (fun r => r.1.map Match.span) = some (some ⟨0, 2⟩) := by
  have hunits : ∀ i, i < 2 → (#[97, 97, 98] : Text)[i]? = (#[97, 97] : Text)[i]? := by decide
  have hsame := @search_visible { pattern := wordEnd } { text := #[97, 97] }
    { text := #[97, 97, 98], stop := 2 } rfl rfl rfl rfl hunits
  exact ⟨by decide +kernel, fun fuel => (hsame.1 fuel).2, by decide +kernel⟩

end SpanRegex
