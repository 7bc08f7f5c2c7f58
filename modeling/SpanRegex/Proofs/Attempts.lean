import SpanRegex.Proofs.Whole

/-! # Attempts

An attempt walks the children of the root. Their first result decides it.

* `Setting.Decides`: an attempt fails if the children have no result, and matches up to the first.
* `decides_of_yields`: an attempt whose children are a source of results is decided.
* `Matcher.exec_anchored`: what a search at one offset answers.
-/

namespace SpanRegex
set_option autoImplicit false

open Pattern (Chain Slot)

/-! ## One attempt -/

/-- The attempt at the offset ends: it fails if no result is possible, and it matches up to the
first one otherwise. The span of the match is recorded if no pin is set. -/
def Setting.Decides (s : Setting) (pins : Prop) (pos : Nat) (spec : List Nat → Prop) (m : Machine) :
    Prop :=
  (spec [] ∧ ∃ m', s.Ends (.walk (.start s.pattern.tree pos)) m .failed m') ∨
    ∃ e, (∃ l, spec (e :: l)) ∧ ∃ m', s.Ends (.walk (.start s.pattern.tree pos)) m .matched m' ∧
      (¬ pins → m'.captures.get Slot.whole = Bounds.ordered ⟨some pos, some e⟩)

/-- A source of results at the children of the root decides an attempt. -/
theorem decides_of_yields {s : Setting} (hlimit : s.limit = none) (hplaced : s.pattern.Numbered)
    {low asks : Nat → Prop} {pins : Prop} {pos : Nat} {spec : List Nat → Prop}
    (h : s.ChainYields low pins asks s.pattern.body pos spec) {m : Machine} (hframes : m.frames = [])
    (hstart : m.startPinned = false) (hstop : m.stopPinned = false) : s.Decides pins pos spec m := by
  let root := s.pattern.tree
  have hne : s.pattern.body ≠ .nil := hplaced.full.1.children
  have hid : s.pattern.rootId ∉ s.pattern.body.ids := hplaced.rootId_notMem
  let entered := { m.visited with starts := m.visited.starts.set s.pattern.rootId pos }
  have hturn := s.turn_visit hlimit m (c := Cursor.start root pos) (by simp [Cursor.start, root,
    Pattern.tree])
  have henter : s.visit m.visited (Cursor.start root pos) =
      (.walk (Cursor.into s.pattern.body [root] pos), entered) := by
    rw [Cursor.into_of_ne_nil hne]
    rfl
  rw [henter] at hturn
  rcases (h [root] entered).first with
    ⟨hnil, m₁, hruns, hwrites, hback⟩ | ⟨e, hsome, m₁, hruns, hwrites, hext⟩
  · have hframes₁ : m₁.frames = [] := hback.frames.trans hframes
    refine .inl ⟨hnil, m₁, Setting.Reaches.ends (.turn hturn hruns) ?_⟩
    simp [Setting.turn, Machine.settle, hframes₁]
  · -- The root is left at `e`, and the success passes through the choices still open.
    have hturn₁ := s.turn_visit hlimit m₁ (c := ⟨root, [], e, false⟩) (by simp [root, Pattern.tree])
    let m₂ := m₁.visited.record Slot.whole e s.pattern.rootId
    have hleave : s.visit m₁.visited ⟨root, [], e, false⟩ = (.walk ⟨.nil, [], e, false⟩, m₂) := rfl
    have hout : s.turn m₂ (.walk ⟨.nil, [], e, false⟩) = .going (.settle true) m₂ := rfl
    rw [hleave] at hturn₁
    obtain ⟨opened, hopened, hpassing⟩ := hext.frames
    obtain ⟨m₃, hpops, hframes₃, -, -, -, -, -, hcaptures⟩ :=
      s.accept_passing opened m₂ hopened hpassing hext.covers
    have hempty : m₃.frames = [] := hframes₃.trans hframes
    refine .inr ⟨e, hsome, m₃, Setting.Reaches.ends ((Setting.Reaches.turn hturn hruns).trans
      (.turn hturn₁ (.turn hout hpops))) ?_, fun hpins => ?_⟩
    · simp [Setting.turn, Machine.settle, hempty]
    · obtain ⟨hstart₁, hstop₁⟩ := hwrites.pins.resolve_left hpins
      have hentry : m₁.starts.get s.pattern.rootId = pos := by
        rw [hwrites.starts _ hid]
        simp [entered]
      have hstart₂ : m₁.visited.startPinned = false := hstart₁.trans hstart
      have hstop₂ : m₁.visited.stopPinned = false := hstop₁.trans hstop
      rw [hcaptures]
      simp only [m₂, Machine.record, hstart₂, hstop₂, Captures.record, Bool.and_false,
        Bool.false_eq_true, if_false, Captures.get_set, if_true]
      exact congrArg (fun pos => Bounds.ordered ⟨some pos, some e⟩) hentry

/-! ## A search at one offset -/

/-- A search at one offset answers what its attempt decides; an offset that the prefilter rejects
has no result. -/
theorem Matcher.exec_anchored {m : Matcher} (hnumbered : m.pattern.Numbered) {q : Query}
    (hmode : q.mode = .anchored) (hstart : q.start ≤ q.bound) {pins : Prop} {spec : List Nat → Prop}
    (hdecides : (m.setting q).Decides pins q.start spec (Machine.ready {}))
    (hreject : m.pattern.prefilter.accepts q.input q.start = false → spec []) :
    ∃ found m', m.Answers q found m' ∧
      ((spec [] ∧ found = none) ∨ ∃ e, (∃ l, spec (e :: l)) ∧ found ≠ none ∧
        (¬ pins → q.start ≤ e → found.map Match.span = some ⟨q.start, e⟩)) := by
  have hoffsets : q.offsets = 1 := by simp [Query.offsets, hmode]
  cases haccepts : m.pattern.prefilter.accepts q.input q.start with
  | false =>
    have hsearch : ∀ fuel, 0 ≤ fuel →
        (m.setting q).search m.pattern.prefilter fuel q.offsets q.start {} = some (.failed, {}) := by
      intro fuel _
      rw [hoffsets]
      simp [Setting.search, setting, haccepts]
    exact ⟨_, _, answers_of_search hstart ⟨0, hsearch⟩, .inl ⟨hreject haccepts, rfl⟩⟩
  | true =>
    -- The answer of the search, once the attempt is decided.
    have hsearch : ∀ v machine, (m.setting q).Ends (.walk (.start m.pattern.tree q.start))
        (Machine.ready {}) v machine → ∃ n, ∀ fuel, n ≤ fuel →
          (m.setting q).search m.pattern.prefilter fuel q.offsets q.start {} = some (v, machine) := by
      rintro v machine ⟨n, hn⟩
      refine ⟨n, fun fuel hf => ?_⟩
      have hattempt : (m.setting q).attempt fuel q.start {} = some (v, machine) := hn fuel hf
      have haccepts' : m.pattern.prefilter.accepts (m.setting q).input q.start = true := haccepts
      rw [hoffsets, Setting.search, if_pos haccepts', hattempt]
      cases v <;> rfl
    rcases hdecides with ⟨hnil, machine, hends⟩ | ⟨e, hsome, machine, hends, hspan⟩
    · exact ⟨_, _, answers_of_search hstart (hsearch _ _ hends), .inl ⟨hnil, rfl⟩⟩
    · refine ⟨_, _, answers_of_search hstart (hsearch _ _ hends),
        .inr ⟨e, hsome, ?_, fun hpins hle => ?_⟩⟩
      · obtain ⟨fuel, hattempt⟩ := hends
        obtain ⟨hit, hhit⟩ := (Setting.whole_of_attempt (s := m.setting q) (m := {}) hnumbered
          (hattempt fuel (Nat.le_refl _))).ofCaptures
        simp [hhit]
      · rw [if_pos rfl]
        have hwhole : (machine.captures.get Slot.whole).span? = some ⟨q.start, e⟩ := by
          have hlt : ¬ e < q.start := by omega
          simp [hspan hpins, Bounds.ordered, hlt, Bounds.span?]
        unfold Match.ofCaptures?
        split
        · rename_i span hspan'
          rw [hwhole] at hspan'
          simp [← Option.some.inj hspan']
        · rename_i hnone
          rw [hwhole] at hnone
          simp at hnone

end SpanRegex
