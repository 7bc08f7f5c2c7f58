import SpanRegex.Proofs.Grafts
import SpanRegex.Proofs.Joining

/-! # What becomes of a chain without slots

Where nothing is captured, a walk through a chain comes to its end at an offset, or it comes back without a choice.
Which it is depends neither on earlier walks nor on the place of the chain, the numbers of its nodes and the choices
that are open before.

* `Move.blank`: a walk through a chain without slots records nothing.
* `Setting.Tries`: what becomes of a chain; `tries_of_steps`: one walk that ends tells it.
* `Tries.renumber`, `Tries.of_renumber`: the numbers do not matter.
* `Tries.reaches`, `exists_tries`: neither does the place.
* `Reaches.ends_off`: an attempt that has come to the end of the chain matches.
-/

namespace SpanRegex
set_option autoImplicit false

open Pattern (Chain Renumbers)

/-! ## Chains without slots -/

theorem Pattern.Chain.hereditary_anonymous : Hereditary fun c => c.anonymous = true where
  nil := rfl
  body h := by
    simp only [anonymous, marks, List.all_append, Bool.and_eq_true] at h ⊢
    exact h.2.1
  tail := by
    intro c h
    cases c with
    | nil => rfl
    | leaf id op next =>
      simp only [anonymous, marks, tail, List.all_append, Bool.and_eq_true] at h ⊢
      exact h.2
    | box id op body next =>
      simp only [anonymous, marks, tail, List.all_append, Bool.and_eq_true] at h ⊢
      exact h.2.2

theorem Machine.Blank.grafted {ρ : Nat → Nat} {around : List Chain} {below : List Frame} {m m' : Machine}
    (h : m.Blank) (hgrafted : m.Grafted ρ around below m') : m'.Blank :=
  ⟨hgrafted.captures.trans h.captures, hgrafted.startPinned.trans h.startPinned,
    hgrafted.stopPinned.trans h.stopPinned⟩

theorem Machine.Blank.same {m m' : Machine} (h : m.Blank) (hsame : m.SameRecords m') : m'.Blank :=
  ⟨hsame.captures.trans h.captures, hsame.startPinned.trans h.startPinned, hsame.stopPinned.trans h.stopPinned⟩

namespace Setting

variable {s : Setting} {phase phase' : Phase} {m m' : Machine}

theorem Move.blank (h : s.Move phase m phase' m')
    (hphase : ∀ c, phase = .walk c → c.chain.anonymous = true) (hm : m.Blank) : m'.Blank := by
  cases h.recorded with
  | same records => exact hm.same records
  | pin here =>
    have hpin := hphase _ rfl
    rw [here] at hpin
    cases hpin
  | enter => exact ⟨hm.captures, hm.startPinned, hm.stopPinned⟩
  | record here =>
    have hslot := hphase _ rfl
    rw [here] at hslot
    cases hslot

end Setting

/-! ## One alternative -/

/-- The walk has come to the end of a chain, at the offset, or it has not and has to go back. -/
def Phase.left : Option Nat → Phase
  | some e => .walk ⟨.nil, [], e, false⟩
  | none => .settle false

namespace Setting

variable {s s' : Setting} {phase : Phase} {m m' : Machine} {chain : Chain} {pos : Nat} {r : Option Nat}

/-- Whatever earlier walks have left behind, a walk through the chain comes to its end first at the offset, or it does
not come to its end and no choice is left; it records nothing. -/
def Tries (s : Setting) (chain : Chain) (pos : Nat) (r : Option Nat) : Prop :=
  ∀ m : Machine, ∃ m', s.Steps (.walk (.start chain pos)) m.ready (.left r) m' ∧
    (r = none → m'.frames = []) ∧ m'.Blank

theorem proper_ready (hne : chain ≠ .nil) (hfull : chain.Full) (pos : Nat) (m : Machine) :
    m.ready.Proper (.walk (.start chain pos)) :=
  ⟨fun _ heq => Phase.walk.inj heq ▸ proper_start hne hfull pos, by simp [Machine.ready]⟩

theorem nested_ready (chain : Chain) (pos : Nat) (m : Machine) : m.ready.Nested (.walk (.start chain pos)) :=
  nested_walk rfl trivial

/-- A success within the chain is that of a look, whose choice is still open. -/
theorem look_of_success (h : s.Steps (.walk (.start chain pos)) m.ready phase m') (hphase : phase = .settle true) :
    openLooks m'.frames ≠ [] := by
  induction h with
  | refl => cases hphase
  | @turn phase₁ phase₂ m₁ m₂ before inside turn ih =>
    subst hphase
    have hnested := before.reaches.nested (nested_ready chain pos m)
    cases move_of_turn turn with
    | off here => exact absurd here inside
    | @found c _ id look body next here leaving =>
      have hactive : c.active = c.chain :: c.above := by rw [Cursor.active, leaving]; rfl
      have hlook : c.chain.isLook = true := by rw [here]; rfl
      have hopen := hnested.walk c rfl
      rw [hactive, looksIn, if_pos hlook] at hopen
      intro hnil
      cases hopen.symm.trans hnil
    | drop frames passing =>
      obtain ⟨hsuccess, hpassing⟩ := passing rfl
      have hopen := ih (congrArg Phase.settle hsuccess)
      rwa [frames, openLooks_cons_of_passing hpassing] at hopen

section

variable (hne : chain ≠ .nil) (hfull : chain.Full)

include hne hfull

theorem left_of_closed (h : s.Steps (.walk (.start chain pos)) m.ready phase m') (hclosed : phase.Closed m') :
    ∃ r, phase = .left r ∧ (r = none → m'.frames = []) := by
  cases phase with
  | walk c =>
    have hproper := (h.proper (proper_ready hne hfull pos m)).1 c rfl
    obtain ⟨habove, hentering⟩ := hproper.off hclosed
    obtain ⟨c_chain, above, e, entering⟩ := c
    obtain rfl : c_chain = .nil := hclosed
    obtain rfl : above = [] := habove
    obtain rfl : entering = false := hentering
    exact ⟨some e, rfl, by simp⟩
  | settle success =>
    have hframes : m'.frames = [] := hclosed
    cases success with
    | true => exact absurd (by rw [hframes]; rfl) (look_of_success h rfl)
    | false => exact ⟨none, rfl, fun _ => hframes⟩

omit hne hfull in
theorem Steps.blank (hanonymous : chain.anonymous = true)
    (h : s.Steps (.walk (.start chain pos)) m.ready phase m') : m'.Blank := by
  have hstart : ∀ x ∈ [chain], x.anonymous = true := by simpa using hanonymous
  refine h.reaches.induct (fun _ m => m.Blank)
    (fun hreached turn => (move_of_turn turn).blank fun c hphase => ?_) ⟨rfl, rfl, rfl⟩
  exact hreached.places (s.spreads_parts Chain.hereditary_anonymous) rfl hstart hphase _ List.mem_cons_self

/-- One walk that comes to an end tells what becomes of the chain. -/
theorem tries_of_steps (hlimit : s.limit = none) (hanonymous : chain.anonymous = true)
    (h : s.Steps (.walk (.start chain pos)) m.ready phase m') (hclosed : phase.Closed m') :
    ∃ r, phase = .left r ∧ (r = none → m'.frames = []) ∧ s.Tries chain pos r := by
  obtain ⟨r, rfl, hframes⟩ := left_of_closed hne hfull h hclosed
  refine ⟨r, rfl, hframes, fun b => ?_⟩
  have hmirrors : m.ready.Mirrors (Phase.walk (.start chain pos)).nodes b.ready := by
    have hnodes : (Phase.walk (.start chain pos)).nodes = [] := rfl
    rw [hnodes]
    exact ⟨rfl, rfl, rfl, ⟨by simp, by simp⟩, by simp [SameGuards], .nil _ _⟩
  obtain ⟨b', hsteps, hmirrors'⟩ := h.mirrors hlimit hmirrors
  exact ⟨b', hsteps, fun hr => hmirrors'.frames_nil (hframes hr), Steps.blank hanonymous hsteps⟩

omit hfull in
theorem graft_start_alone (ρ : Nat → Nat) :
    (Phase.walk (.start chain pos)).graft ρ [] = .walk (.start (chain.renumber ρ) pos) :=
  congrArg Phase.walk (Cursor.graft_eq hne)

/-- Under other numbers, and in a setting where every leaf reads the same, the same becomes of the chain. -/
theorem Tries.renumber (h : s.Tries chain pos r) (hsame : s.SameReads s') {ρ : Nat → Nat} (hρ : Renumbers ρ) :
    s'.Tries (chain.renumber ρ) pos r := by
  intro m
  obtain ⟨a, hsteps, hframes, hblank⟩ := h (m.ready.pull ρ)
  have hfresh : m.ready.Blank := ⟨rfl, rfl, rfl⟩
  have hgrafted : (m.ready.pull ρ).ready.Grafted ρ [] [] m.ready := hfresh.grafted_pull hρ rfl
  obtain ⟨m', hsteps', hgrafted'⟩ := hsteps.graft hsame hρ (proper_ready hne hfull pos _) hgrafted
  have hleft : (Phase.left r).graft ρ [] = .left r := by cases r <;> rfl
  exact ⟨m', hleft ▸ graft_start_alone hne ρ ▸ hsteps', fun hr => hgrafted'.frames_below (hframes hr),
    hblank.grafted hgrafted'⟩

omit hfull in
theorem graft_start (around : List Chain) :
    (Phase.walk (.start chain pos)).graft (fun i => i) around = .walk ⟨chain, around, pos, true⟩ := by
  rw [Phase.graft, Cursor.graft_eq hne]
  simp [Cursor.start, Chain.renumber_refl]

/-- Inside containers and over other choices, the walk through the chain comes to the return to the innermost
container, or it has to go back to the choices below. -/
theorem Tries.reaches (h : s.Tries chain pos r) (hlimit : s.limit = none) (around : List Chain)
    (htrail : m.trail = #[]) (hblank : m.Blank) :
    ∃ m', s.Reaches (.walk ⟨chain, around, pos, true⟩) m ((Phase.left r).graft (fun i => i) around) m' ∧
      (r = none → m'.frames = m.frames) ∧ m'.Blank := by
  obtain ⟨a, hsteps, hframes, hblank'⟩ := h (m.pull fun i => i)
  have hgrafted : (m.pull fun i => i).ready.Grafted (fun i => i) around m.frames m :=
    hblank.grafted_pull .refl htrail
  obtain ⟨m', hsteps', hgrafted'⟩ :=
    hsteps.graft ⟨hlimit, hlimit, fun _ _ _ => rfl⟩ .refl (proper_ready hne hfull pos _) hgrafted
  exact ⟨m', graft_start hne around ▸ hsteps'.reaches, fun hr => hgrafted'.frames_below (hframes hr),
    hblank'.grafted hgrafted'⟩

/-- A run that ends after the chain has been entered tells what becomes of the chain. -/
theorem exists_tries (hlimit : s.limit = none) (hanonymous : chain.anonymous = true) (around : List Chain)
    (htrail : m.trail = #[]) (hblank : m.Blank) {fuel : Nat} {res : Verdict × Machine}
    (hrun : s.run fuel (.walk ⟨chain, around, pos, true⟩) m = some res) :
    ∃ r fuel' m', s.Tries chain pos r ∧ s.run fuel' ((Phase.left r).graft (fun i => i) around) m' = some res ∧
      (r = none → m'.frames = m.frames) ∧ m'.Blank := by
  have hgrafted : (m.pull fun i => i).ready.Grafted (fun i => i) around m.frames m :=
    hblank.grafted_pull .refl htrail
  rw [← graft_start hne around] at hrun
  obtain ⟨phase, a, m', fuel', hsteps, hclosed, hgrafted', hrun'⟩ :=
    exists_steps ⟨hlimit, hlimit, fun _ _ _ => rfl⟩ .refl fuel .refl (proper_ready hne hfull pos _) hgrafted hrun
  obtain ⟨r, rfl, hframes, htries⟩ := tries_of_steps hne hfull hlimit hanonymous hsteps hclosed
  exact ⟨r, fuel', m', htries, hrun', fun hr => hgrafted'.frames_below (hframes hr),
    (Steps.blank hanonymous hsteps).grafted hgrafted'⟩

end

/-! ## The same chain under other numbers -/

/-- When the outermost chain has been left, no look is open, and the success goes through all choices. -/
theorem Reaches.ends_off {e : Nat}
    (h : s.Reaches (.walk (.start chain pos)) m.ready (.walk ⟨.nil, [], e, false⟩) m') :
    ∃ m₁, s.Ends (.walk (.start chain pos)) m.ready .matched m₁ ∧ m₁.captures = m'.captures := by
  have hlooks : openLooks m'.frames = [] := (h.nested (nested_ready chain pos m)).walk _ rfl
  have hoff : s.turn m' (.walk ⟨.nil, [], e, false⟩) = .going (.settle true) m' := rfl
  obtain ⟨m₁, hpasses, hover, hcaptures⟩ := matched_of_passing m'.frames (passing_of_openLooks_eq_nil hlooks) m' rfl
  exact ⟨m₁, (h.trans (.turn hoff hpasses)).ends hover, hcaptures⟩

/-- A run on the chain alone matches if it comes to its end, and fails otherwise. -/
theorem Tries.ends (h : s.Tries chain pos r) (m : Machine) :
    ∃ m', s.Ends (.walk (.start chain pos)) m.ready (if r = none then .failed else .matched) m' := by
  obtain ⟨m₁, hsteps, hframes, -⟩ := h m
  cases r with
  | none =>
    have hover : s.turn m₁ (.settle false) = .over .failed m₁ := by simp [turn, Machine.settle, hframes rfl]
    exact ⟨m₁, hsteps.reaches.ends hover⟩
  | some e =>
    obtain ⟨m', hends, -⟩ := hsteps.reaches.ends_off
    exact ⟨m', hends⟩

theorem Tries.none_iff {r' : Option Nat} (h : s.Tries chain pos r) (h' : s.Tries chain pos r') :
    r = none ↔ r' = none := by
  obtain ⟨a, n, hrun⟩ := h.ends {}
  obtain ⟨a', n', hrun'⟩ := h'.ends {}
  have hsame := (hrun (max n n') (by omega)).symm.trans (hrun' (max n n') (by omega))
  have hverdict := (Prod.mk.inj (Option.some.inj hsame)).1
  cases r <;> cases r' <;> simp_all

/-- What becomes of the chain under other numbers tells what becomes of it. -/
theorem Tries.of_renumber (hne : chain ≠ .nil) (hfull : chain.Full) (hanonymous : chain.anonymous = true)
    (hsame : s.SameReads s') {ρ : Nat → Nat} (hρ : Renumbers ρ) (h : s'.Tries (chain.renumber ρ) pos r) :
    ∃ r', s.Tries chain pos r' ∧ (r' = none ↔ r = none) := by
  have hfresh : (Machine.ready {}).Blank := ⟨rfl, rfl, rfl⟩
  have hgrafted : ((Machine.ready {}).pull ρ).ready.Grafted ρ [] [] (Machine.ready {}) := hfresh.grafted_pull hρ rfl
  obtain ⟨m', n, hrun⟩ := h.ends {}
  have hrun' := hrun n (Nat.le_refl n)
  rw [← graft_start_alone hne] at hrun'
  obtain ⟨phase, a, -, -, hsteps, hclosed, -⟩ :=
    exists_steps hsame hρ n .refl (proper_ready hne hfull pos _) hgrafted hrun'
  obtain ⟨r', -, -, htries⟩ := tries_of_steps hne hfull hsame.limit hanonymous hsteps hclosed
  exact ⟨r', htries, (htries.renumber hne hfull hsame hρ).none_iff h⟩

end Setting

end SpanRegex
