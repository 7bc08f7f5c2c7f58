import SpanRegex.Proofs.Drafts
import SpanRegex.Proofs.Places
import SpanRegex.Proofs.Stale

/-! # Looks are atomic

A look opens one choice when it is entered, and whatever its children open lies above that choice. When the
children succeed, every look inside them has been completed, so that the success goes through to the choice of
the look itself; when they fail, nothing above that choice is left. Either way the walk goes on, if it does,
from the offset of the entry and over the choices that were open at the entry.

* `looksIn`, `openLooks`: the looks around a place, and the looks whose choices are open.
* `Machine.Nested`: these are the same, for the walk and for every choice; `Move.nested`.
* `Cursor.Proper`: only a cursor that has left the root is at no node; `spreads_proper`.
* `Setting.Within`, `Setting.Completes`: the turns from the entry of a look to its completion.
* `Setting.Atomic`: what can become of a look that is entered.
* `looks_atomic`: the looks of an attempt are atomic, and none is open when the root has been left.
-/

namespace SpanRegex
set_option autoImplicit false

open Pattern (Chain Container Look)

instance : DecidablePred Choice.passing := fun c => inferInstanceAs (Decidable (c ≠ .require ∧ c ≠ .refuse))

/-! ## Looks around a place -/

/-- The looks among the containers, innermost first, each with the containers around it. -/
def looksIn : List Chain → List (List Chain)
  | [] => []
  | x :: above => if x.isLook then (x :: above) :: looksIn above else looksIn above

/-- The looks whose choices are open, latest first, each with the containers around it. -/
def openLooks : List Frame → List (List Chain)
  | [] => []
  | f :: frames => if f.choice.passing then openLooks frames else f.cursor.around :: openLooks frames

/-- Every choice lies over the choices of the looks around it, and of no other looks. -/
def NestedFrames : List Frame → Prop
  | [] => True
  | f :: frames => openLooks frames = looksIn f.cursor.above ∧ NestedFrames frames

/-- The walk and every choice lie over the choices of the looks around them, and of no other looks. -/
structure Machine.Nested (phase : Phase) (m : Machine) : Prop where
  walk : ∀ c, phase = .walk c → openLooks m.frames = looksIn c.active
  frames : NestedFrames m.frames

section

variable {x : Chain} {above : List Chain} {c : Cursor} {m m' : Machine}

theorem looksIn_cons_of_not_look (h : x.isLook = false) : looksIn (x :: above) = looksIn above := by
  simp [looksIn, h]

theorem suffix_of_mem_looksIn {place : List Chain} (h : place ∈ looksIn above) : place <:+ above := by
  induction above with
  | nil => simp [looksIn] at h
  | cons x above ih =>
    have hrest : place ∈ looksIn above → place <:+ x :: above := fun h => (ih h).trans (List.suffix_cons _ _)
    rw [looksIn] at h
    split at h
    · rcases List.mem_cons.1 h with rfl | h
      · exact List.suffix_rfl
      · exact hrest h
    · exact hrest h

theorem looksIn_active (h : c.chain.isLook = true → c.entering = true) :
    looksIn c.active = looksIn c.above := by
  unfold Cursor.active
  split
  · rfl
  · rename_i hleaving
    exact looksIn_cons_of_not_look (Bool.eq_false_iff.2 fun hlook => hleaving (h hlook))

theorem looksIn_leave (c : Cursor) (next : Chain) (pos : Nat) :
    looksIn (c.leave next pos).active = looksIn c.above := by
  unfold Cursor.leave
  split
  · rename_i habove
    rw [habove]
    rfl
  · rename_i habove
    rw [habove]
    rfl
  · rfl

theorem looksIn_proceed (c : Cursor) : looksIn c.proceed.active = looksIn c.above := by
  cases hchain : c.chain with
  | nil =>
    simp only [Cursor.proceed, hchain]
    exact looksIn_active (by simp [hchain, Chain.isLook])
  | leaf _ _ next => simpa only [Cursor.proceed, hchain] using looksIn_leave c next c.pos
  | box _ _ _ next => simpa only [Cursor.proceed, hchain] using looksIn_leave c next c.pos

theorem looksIn_descend (h : c.chain.isLook = false) (body : Chain) (pos : Nat) :
    looksIn (c.descend body pos).active = looksIn c.above :=
  looksIn_cons_of_not_look h

/-! ## The choices of looks -/

theorem openLooks_cons_of_passing {f : Frame} (h : f.choice.passing) (frames : List Frame) :
    openLooks (f :: frames) = openLooks frames := by
  simp [openLooks, h]

theorem openLooks_append (frames frames' : List Frame) :
    openLooks (frames ++ frames') = openLooks frames ++ openLooks frames' := by
  induction frames with
  | nil => rfl
  | cons f frames ih =>
    simp only [List.cons_append, openLooks, ih]
    split <;> rfl

theorem passing_of_openLooks_eq_nil {frames : List Frame} (h : openLooks frames = []) :
    ∀ f ∈ frames, f.choice.passing := by
  induction frames with
  | nil => simp
  | cons f frames ih =>
    rw [openLooks] at h
    split at h
    · exact List.forall_mem_cons.2 ⟨‹_›, ih h⟩
    · simp at h

theorem openLooks_of_opens (h : m.Opens c m') : openLooks m'.frames = openLooks m.frames := by
  rcases h with hframes | ⟨choice, n, hpassing, hframes⟩
  · rw [hframes]
  · rw [hframes, openLooks_cons_of_passing hpassing]

theorem nestedFrames_of_opens (h : m.Opens c m') (hnested : NestedFrames m.frames)
    (hlooks : openLooks m.frames = looksIn c.above) : NestedFrames m'.frames := by
  rcases h with hframes | ⟨choice, n, -, hframes⟩
  · rwa [hframes]
  · rw [hframes]
    exact ⟨hlooks, hnested⟩

end

namespace Setting

variable {s : Setting} {phase phase' : Phase} {m m' m₁ : Machine} {c : Cursor} {look : Look}

theorem nested_settle {success : Bool} (h : NestedFrames m.frames) : m.Nested (.settle success) :=
  ⟨by simp, h⟩

theorem nested_walk (hlooks : openLooks m.frames = looksIn c.active) (h : NestedFrames m.frames) :
    m.Nested (.walk c) :=
  ⟨fun _ heq => Phase.walk.inj heq ▸ hlooks, h⟩

/-- A turn keeps the choices of looks in step with the looks around the walk. -/
theorem Move.nested (h : s.Move phase m phase' m') (hm : m.Nested phase) : m'.Nested phase' := by
  obtain ⟨hwalk, hframes⟩ := hm
  -- The looks above the cursor of the walk, unless it has come back to a look.
  have habove : ∀ {c : Cursor}, phase = .walk c → (c.chain.isLook = true → c.entering = true) →
      openLooks m.frames = looksIn c.above := fun hphase hlook =>
    (hwalk _ hphase).trans (looksIn_active hlook)
  cases h with
  | off => exact nested_settle hframes
  | @read c _ _ _ e _ next here _ frames =>
    have hc := habove rfl (by simp [here, Chain.isLook])
    exact nested_walk (by rw [frames, looksIn_leave]; exact hc) (by rwa [frames])
  | @pin c _ _ edge next here =>
    have hc := habove rfl (by simp [here, Chain.isLook])
    have hsame : (m.visited.pin edge c.pos).frames = m.frames := by cases edge <;> rfl
    exact nested_walk (by rw [hsame, looksIn_leave]; exact hc) (by rwa [hsame])
  | lose frames => exact nested_settle (by rwa [frames])
  | enter here =>
    have hc := habove rfl (by simp [here, Chain.isLook])
    exact nested_walk (by rw [looksIn_descend (by rw [here]; rfl)]; exact hc) hframes
  | leave here =>
    have hc := habove rfl (by simp [here, Chain.isLook])
    exact nested_walk (by rw [looksIn_leave]; exact hc) hframes
  | record here =>
    have hc := habove rfl (by simp [here, Chain.isLook])
    exact nested_walk (by rw [looksIn_leave]; exact hc) hframes
  | @look c _ _ _ _ _ choice here entering choice_look =>
    have hc := habove rfl fun _ => entering
    refine nested_walk ?_ ⟨hc, hframes⟩
    have hlook : c.chain.isLook = true := by rw [here]; rfl
    simp only [Machine.push, openLooks, if_neg choice_look, Cursor.descend, Cursor.active, looksIn, hlook, if_true]
    exact congrArg (c.around :: ·) hc
  | found => exact nested_settle hframes
  | @inward c _ _ _ op _ _ here kind opens =>
    have hlook : c.chain.isLook = false := by
      rcases kind with rfl | ⟨q, rfl⟩ <;> simp [here, Chain.isLook]
    have hc := habove rfl (by simp [hlook])
    exact nested_walk (by rw [openLooks_of_opens opens, looksIn_descend hlook]; exact hc)
      (nestedFrames_of_opens opens hframes hc)
  | @onward c _ _ _ op _ _ _ here _ _ opens _ look_entering =>
    have hc := habove rfl fun hlook => by
      obtain ⟨look, rfl⟩ := Chain.isLook_box.1 (here ▸ hlook)
      exact look_entering look rfl
    exact nested_walk (by rw [openLooks_of_opens opens, looksIn_leave]; exact hc)
      (nestedFrames_of_opens opens hframes hc)
  | drop frames =>
    rw [frames] at hframes
    exact nested_settle hframes.2
  | back frames_eq popped opens =>
    rw [frames_eq, ← popped] at hframes
    obtain ⟨hf, hframes⟩ := hframes
    exact nested_walk (by rw [openLooks_of_opens opens, looksIn_proceed]; exact hf)
      (nestedFrames_of_opens opens hframes hf)
  | again frames_eq popped here opens =>
    rw [frames_eq, ← popped] at hframes
    obtain ⟨hf, hframes⟩ := hframes
    exact nested_walk (by rw [openLooks_of_opens opens, looksIn_descend (by rw [here]; rfl)]; exact hf)
      (nestedFrames_of_opens opens hframes hf)

theorem Reaches.nested (h : s.Reaches phase m phase' m') (hm : m.Nested phase) : m'.Nested phase' :=
  h.invariant (fun phase m => m.Nested phase) (fun hmove => hmove.nested) hm

/-! ## Places without a node -/

end Setting

/-- All nodes are as they should be, and the cursor is at no node only when it has left the outermost one. -/
structure Cursor.Proper (c : Cursor) : Prop where
  full : ∀ x ∈ c.around, x.Full
  above : ∀ x ∈ c.above, x ≠ .nil
  off : c.chain = .nil → c.above = [] ∧ c.entering = false

namespace Setting

variable {s : Setting} {phase phase' : Phase} {m m' m₁ : Machine} {c : Cursor} {look : Look}

theorem hereditary_full : Chain.Hereditary Chain.Full where
  nil := trivial
  body h := h.2.1
  tail := by
    intro c h
    cases c with
    | nil => exact h
    | leaf _ _ next => exact h
    | box _ _ _ next => exact h.2.2

theorem spreads_proper (s : Setting) : s.Spreads Cursor.Proper Cursor.Proper where
  leave _ _ _ h := h
  next c c' h hnext := by
    have hfull := (s.spreads_parts hereditary_full).next c c' h.full hnext
    cases hnext with
    | down here =>
      have hbox := h.full c.chain List.mem_cons_self
      rw [here] at hbox
      exact ⟨hfull, List.forall_mem_cons.2 ⟨by simp [here], h.above⟩, fun hnil => absurd hnil hbox.1.children⟩
    | @on onto pos onto_eq le inside =>
      unfold Cursor.leave at hfull ⊢
      split at hfull
      · exact ⟨hfull, by simp, fun _ => ⟨rfl, rfl⟩⟩
      · rename_i heq
        have habove := h.above
        rw [heq] at habove
        obtain ⟨hne, habove⟩ := List.forall_mem_cons.1 habove
        exact ⟨hfull, habove, fun hnil => absurd hnil hne⟩
      · rename_i hnil hcons
        exact ⟨hfull, h.above, fun hchain => by
          cases hab : c.above with
          | nil => exact (hnil hchain hab).elim
          | cons x above => exact (hcons x above hchain hab).elim⟩

theorem proper_start {tree : Chain} (hne : tree ≠ .nil) (hfull : tree.Full) (pos : Nat) :
    (Cursor.start tree pos).Proper :=
  ⟨by simpa [Cursor.start, Cursor.around] using hfull, by simp [Cursor.start], fun hnil => absurd hnil hne⟩

/-! ## From the entry of a look to its completion -/

end Setting

def Pattern.Look.choice (look : Look) : Choice := if look.negated then .refuse else .require

/-- The children of a look have been left, and the walk is back at its node. -/
def Cursor.back (c : Cursor) (e : Nat) : Cursor := ⟨c.chain, c.above, e, false⟩

/-- After a look: it has been passed, or the walk has failed at it. -/
def Cursor.passed (c : Cursor) (passes : Bool) : Phase := if passes then .walk c.proceed else .settle false

namespace Setting

/-- The look that was entered at the cursor is not completed: its choice is open, over those that were open at
the entry, and the walk is among its children. -/
structure Pending (c : Cursor) (look : Look) (m₁ : Machine) (phase : Phase) (m : Machine) : Prop where
  frames : ∃ opened, m.frames = opened ++ ⟨c, look.choice, m₁.trail.size⟩ :: m₁.frames
  inside : ∀ c', phase = .walk c' → c.around <:+ c'.active

/-- Turns lead here from the entry of a look, and it is not completed on the way. -/
inductive Within (s : Setting) (c : Cursor) (look : Look) (m₁ : Machine) : Phase → Machine → Prop
  | enter {phase : Phase} {m : Machine} (turn : s.turn m₁ (.walk c) = .going phase m)
      (pending : Pending c look m₁ phase m) : s.Within c look m₁ phase m
  | next {phase phase' : Phase} {m m' : Machine} (before : s.Within c look m₁ phase m)
      (turn : s.turn m phase = .going phase' m') (pending : Pending c look m₁ phase' m') :
      s.Within c look m₁ phase' m'

/-- The turn that completes a look, whether it passes, and the machine afterwards: the children would start
before the text, or they have succeeded or failed and the choice of the look is the latest. -/
inductive Completes (s : Setting) (c : Cursor) (look : Look) (m₁ : Machine) : Bool → Machine → Prop
  | short {m : Machine} (short : c.pos < look.behind.getD 0)
      (turn : s.turn m₁ (.walk c) = .going (c.passed look.negated) m) : s.Completes c look m₁ look.negated m
  | settled {success : Bool} {m m' : Machine} (within : s.Within c look m₁ (.settle success) m)
      (top : m.frames = ⟨c, look.choice, m₁.trail.size⟩ :: m₁.frames)
      (found : success = true → ∃ e m₂, s.Within c look m₁ (.walk (Cursor.back c e)) m₂ ∧
        s.Reaches (.walk (Cursor.back c e)) m₂ (.settle true) m)
      (turn : s.turn m (.settle success) = .going (c.passed (success != look.negated)) m') :
      s.Completes c look m₁ (success != look.negated) m'

variable {s : Setting} {phase phase' : Phase} {m m' m₁ : Machine} {c : Cursor} {look : Look} {id : Nat}
  {body next : Chain}

theorem not_passing (look : Look) : ¬ look.choice.passing := by
  simp only [Look.choice, Choice.passing]
  split <;> simp

theorem turn_look (here : c.chain = .box id (.look look) body next) (entering : c.entering = true)
    (turn : s.turn m₁ (.walk c) = .going phase m) :
    (c.pos < look.behind.getD 0 ∧ phase = c.passed look.negated ∧ m.frames = m₁.frames) ∨
      (look.behind.getD 0 ≤ c.pos ∧ phase = .walk (c.descend body (c.pos - look.behind.getD 0)) ∧
        m.frames = ⟨c, look.choice, m₁.trail.size⟩ :: m₁.frames) := by
  rw [turn_walk (by simp [here])] at turn
  split at turn
  · simp at turn
  · obtain ⟨rfl, rfl⟩ := Turn.going.inj turn
    simp only [visit, here, visitLook, entering, if_true]
    by_cases hshort : c.pos < look.behind.getD 0
    · have hproceed : c.proceed = c.leave next c.pos := by simp only [Cursor.proceed, here]
      refine .inl ⟨hshort, ?_⟩
      cases hnegated : look.negated <;> simp [hshort, Cursor.passed, hproceed, Machine.visited]
    · refine .inr ⟨Nat.le_of_not_lt hshort, by simp [hshort], ?_⟩
      simp [hshort, Machine.push, Look.choice, Machine.visited]

theorem settle_look {frames : List Frame} {n : Nat} (hframes : m.frames = ⟨c, look.choice, n⟩ :: frames)
    (success : Bool) :
    ∃ m', m.settle success = .going (c.passed (success != look.negated)) m' ∧ m'.frames = frames := by
  refine ⟨({ m with frames }).unwind n, ?_, by simp⟩
  simp only [Machine.settle, hframes, Look.choice]
  cases success <;> cases look.negated <;> rfl

theorem settle_passing {f : Frame} {frames : List Frame} (hpassing : f.choice.passing)
    (hframes : m.frames = f :: frames) :
    ∃ m', s.turn m (.settle true) = .going (.settle true) m' ∧ m'.frames = frames ∧
      m'.captures = m.captures := by
  obtain ⟨hrequire, hrefuse⟩ := hpassing
  refine ⟨({ m with frames }).unwind f.trail, ?_, by simp, by simp⟩
  simp only [turn, Machine.settle, hframes, if_true]
  cases hchoice : f.choice <;> first | rfl | contradiction

/-- If all open choices are passing, a success decides the attempt and changes no capture. -/
theorem matched_of_passing (frames : List Frame) (hpassing : ∀ f ∈ frames, f.choice.passing) :
    ∀ m : Machine, m.frames = frames →
      ∃ m', s.Reaches (.settle true) m (.settle true) m' ∧ s.turn m' (.settle true) = .over .matched m' ∧
        m'.captures = m.captures := by
  induction frames with
  | nil => exact fun m hframes => ⟨m, .refl _ _, by simp [turn, Machine.settle, hframes], rfl⟩
  | cons f frames ih =>
    intro m hframes
    obtain ⟨hf, hpassing⟩ := List.forall_mem_cons.1 hpassing
    obtain ⟨m₁, hturn, hframes₁, hcaptures₁⟩ := settle_passing hf hframes
    obtain ⟨m', hreaches, hover, hcaptures⟩ := ih hpassing m₁ hframes₁
    exact ⟨m', .turn hturn hreaches, hover, hcaptures.trans hcaptures₁⟩

theorem exists_of_opens (h : m.Opens c m') : ∃ opened, m'.frames = opened ++ m.frames := by
  rcases h with hframes | ⟨choice, n, -, hframes⟩
  · exact ⟨[], hframes⟩
  · exact ⟨[⟨c, choice, n⟩], hframes⟩

theorem Move.frames (h : s.Move phase m phase' m') :
    (∃ opened, m'.frames = opened ++ m.frames) ∨
      ∃ success f frames, phase = .settle success ∧ m.frames = f :: frames ∧
        ∃ opened, m'.frames = opened ++ frames := by
  cases h with
  | off => exact .inl ⟨[], rfl⟩
  | read _ _ frames => exact .inl ⟨[], frames⟩
  | @pin _ _ _ edge => exact .inl ⟨[], by cases edge <;> rfl⟩
  | lose frames => exact .inl ⟨[], frames⟩
  | enter => exact .inl ⟨[], rfl⟩
  | leave => exact .inl ⟨[], rfl⟩
  | record => exact .inl ⟨[], rfl⟩
  | look => exact .inl ⟨[_], rfl⟩
  | found => exact .inl ⟨[], rfl⟩
  | inward _ _ opens => exact .inl (exists_of_opens opens)
  | onward _ _ _ opens => exact .inl (exists_of_opens opens)
  | drop frames => exact .inr ⟨_, _, _, rfl, frames, [], rfl⟩
  | back frames_eq popped opens => exact .inr ⟨_, _, _, rfl, frames_eq, popped ▸ exists_of_opens opens⟩
  | again frames_eq popped _ opens => exact .inr ⟨_, _, _, rfl, frames_eq, popped ▸ exists_of_opens opens⟩

/-- While the choice of a look is open, the walk is among its children. -/
theorem pending_of_nested (hnested : m.Nested phase)
    (hframes : ∃ opened, m.frames = opened ++ ⟨c, look.choice, m₁.trail.size⟩ :: m₁.frames) :
    Pending c look m₁ phase m where
  frames := hframes
  inside c' hphase := by
    obtain ⟨opened, hopened⟩ := hframes
    refine suffix_of_mem_looksIn ?_
    rw [← hnested.walk c' hphase, hopened, openLooks_append, openLooks, if_neg (not_passing look)]
    exact List.mem_append_right _ List.mem_cons_self

/-- A turn while a look is not completed keeps it so, or it takes the choice of the look. -/
theorem Pending.turn (h : Pending c look m₁ phase m) (hnested : m.Nested phase)
    (turn : s.turn m phase = .going phase' m') :
    Pending c look m₁ phase' m' ∨ ∃ success, phase = .settle success ∧
      m.frames = ⟨c, look.choice, m₁.trail.size⟩ :: m₁.frames := by
  have hmove := move_of_turn turn
  obtain ⟨opened, hopened⟩ := h.frames
  rcases hmove.frames with ⟨more, hmore⟩ | ⟨success, f, frames, rfl, hframes, more, hmore⟩
  · refine .inl (pending_of_nested (hmove.nested hnested) ⟨more ++ opened, ?_⟩)
    rw [hmore, hopened, List.append_assoc]
  · cases opened with
    | nil => exact .inr ⟨success, rfl, hopened⟩
    | cons g opened =>
      have htail : frames = opened ++ ⟨c, look.choice, m₁.trail.size⟩ :: m₁.frames :=
        (List.cons.inj (hframes.symm.trans hopened)).2
      refine .inl (pending_of_nested (hmove.nested hnested) ⟨more ++ opened, ?_⟩)
      rw [hmore, htail, List.append_assoc]

namespace Within

theorem pending (h : s.Within c look m₁ phase m) : Pending c look m₁ phase m := by
  cases h with
  | enter _ pending => exact pending
  | next _ _ pending => exact pending

theorem reaches (h : s.Within c look m₁ phase m) : s.Reaches (.walk c) m₁ phase m := by
  induction h with
  | enter turn => exact .turn turn (.refl _ _)
  | next _ turn _ ih => exact ih.snoc turn

variable (here : c.chain = .box id (.look look) body next) (entering : c.entering = true)
  (hnested : m₁.Nested (.walk c))

include here entering hnested

/-- A success while a look is not completed is that of a look inside it, or its own, whose choice is the
latest of a look. -/
theorem found_of_success (hproper : ∀ {c' m}, s.Reaches (.walk c) m₁ (.walk c') m → c'.Proper)
    (h : s.Within c look m₁ phase m) (hphase : phase = .settle true) :
    ∃ c' m₂, c'.entering = false ∧ s.Within c look m₁ (.walk c') m₂ ∧
      s.Reaches (.walk c') m₂ (.settle true) m ∧ (openLooks m.frames).head? = some c'.around := by
  induction h with
  | enter turn =>
    rcases turn_look here entering turn with ⟨-, hpassed, -⟩ | ⟨-, hdescend, -⟩
    · rw [hphase, Cursor.passed] at hpassed
      split at hpassed <;> simp at hpassed
    · simp [hphase] at hdescend
  | @next phase phase' m m' before turn pending ih =>
    subst hphase
    have hmove := move_of_turn turn
    generalize hsettle : Phase.settle true = phase' at hmove
    cases hmove with
    | @off c₀ _ off =>
      -- Among the children of a look the walk is at a node.
      obtain ⟨habove, hleaving⟩ := (hproper before.reaches).off off
      have hactive : c₀.active = [.nil] := by simp [Cursor.active, habove, hleaving, off]
      have hsuffix := before.pending.inside c₀ rfl
      rw [hactive] at hsuffix
      have hchain : c.chain ∈ [Chain.nil] := hsuffix.subset List.mem_cons_self
      simp [here] at hchain
    | @found c₀ _ _ _ _ _ here₀ leaving =>
      refine ⟨c₀, m, leaving, before, .turn turn (.refl _ _), ?_⟩
      have hlooks := (before.reaches.nested hnested).walk c₀ rfl
      have hactive : c₀.active = c₀.around := by simp [Cursor.active, leaving, Cursor.around]
      have hlook : c₀.chain.isLook = true := by rw [here₀]; rfl
      show (openLooks m.frames).head? = _
      rw [hlooks, hactive, Cursor.around, looksIn, if_pos hlook, List.head?_cons]
    | @drop f success success' _ _ frames passing =>
      obtain rfl := Phase.settle.inj hsettle
      obtain ⟨rfl, hpassing⟩ := passing rfl
      obtain ⟨c', m₂, hleaving, hwithin, hreaches, hhead⟩ := ih rfl
      refine ⟨c', m₂, hleaving, hwithin, hreaches.snoc turn, ?_⟩
      rwa [frames, openLooks_cons_of_passing hpassing] at hhead
    | _ => simp at hsettle

/-- Back at the node of the look, all choices above its own are passing, and a success goes through them. -/
theorem openLooks_eq_nil {opened : List Frame}
    (h : m.frames = opened ++ ⟨c, look.choice, m₁.trail.size⟩ :: m₁.frames)
    (hlooks : openLooks m.frames = looksIn c.around) : ∀ f ∈ opened, f.choice.passing := by
  have hbelow : openLooks m₁.frames = looksIn c.above :=
    (hnested.walk c rfl).trans (looksIn_active fun _ => entering)
  have hlook : c.chain.isLook = true := by rw [here]; rfl
  rw [h, openLooks_append, openLooks, if_neg (not_passing look), hbelow, Cursor.around, looksIn, if_pos hlook]
    at hlooks
  exact passing_of_openLooks_eq_nil (List.append_left_eq_self.1 hlooks)

omit here entering hnested in
/-- A success within a look goes through passing choices up to the choice of the look. -/
theorem pass (opened : List Frame) (hopened : ∀ f ∈ opened, f.choice.passing) : ∀ m : Machine,
    s.Within c look m₁ (.settle true) m →
    m.frames = opened ++ ⟨c, look.choice, m₁.trail.size⟩ :: m₁.frames →
    ∃ m', s.Within c look m₁ (.settle true) m' ∧ s.Reaches (.settle true) m (.settle true) m' ∧
      m'.frames = ⟨c, look.choice, m₁.trail.size⟩ :: m₁.frames := by
  induction opened with
  | nil => exact fun m hwithin hframes => ⟨m, hwithin, .refl _ _, hframes⟩
  | cons f opened ih =>
    intro m hwithin hframes
    obtain ⟨hf, hopened⟩ := List.forall_mem_cons.1 hopened
    obtain ⟨m₂, hturn, hframes₂, -⟩ := settle_passing hf hframes
    obtain ⟨m', hwithin', hreaches, hframes'⟩ :=
      ih hopened m₂ (hwithin.next hturn ⟨⟨opened, hframes₂⟩, by simp⟩) hframes₂
    exact ⟨m', hwithin', .turn hturn hreaches, hframes'⟩

end Within

/-! ## Atomic looks -/

/-- What can become of the look that is entered at the cursor. -/
structure Atomic (s : Setting) (c : Cursor) (look : Look) (m₁ : Machine) : Prop where
  /-- Wherever turns lead, the look has just been entered, is not completed or has been completed before. -/
  stages : ∀ phase m, s.Reaches (.walk c) m₁ phase m → (phase = .walk c ∧ m = m₁) ∨
    s.Within c look m₁ phase m ∨
      ∃ passes m₂, s.Completes c look m₁ passes m₂ ∧ s.Reaches (c.passed passes) m₂ phase m
  /-- When it is completed, the same choices are open as at its entry, and the walk goes on at the same offset. -/
  restores : ∀ passes m, s.Completes c look m₁ passes m →
    m.frames = m₁.frames ∧ ∀ c', c.passed passes = .walk c' → c'.pos = c.pos
  /-- Once its children have succeeded, all turns complete it. -/
  found : ∀ e m phase m', s.Within c look m₁ (.walk (c.back e)) m →
    s.turn m (.walk (c.back e)) = .going phase m' →
      ∃ m₂, s.Completes c look m₁ (!look.negated) m₂ ∧ s.Reaches phase m' (c.passed !look.negated) m₂
  /-- Once they have failed, the next turn completes it. -/
  missed : ∀ m, s.Within c look m₁ (.settle false) m →
    m.frames = ⟨c, look.choice, m₁.trail.size⟩ :: m₁.frames →
      ∃ m₂, s.Completes c look m₁ look.negated m₂ ∧ s.turn m (.settle false) = .going (c.passed look.negated) m₂
  /-- If they would start before the text, its first turn completes it. -/
  short : c.pos < look.behind.getD 0 → ∀ phase m, s.turn m₁ (.walk c) = .going phase m →
    phase = c.passed look.negated ∧ s.Completes c look m₁ look.negated m

section

variable (here : c.chain = .box id (.look look) body next) (entering : c.entering = true)

include here entering

theorem Completes.restores {passes : Bool} (h : s.Completes c look m₁ passes m) :
    m.frames = m₁.frames ∧ ∀ c', c.passed passes = .walk c' → c'.pos = c.pos := by
  constructor
  · cases h with
    | short hshort turn =>
      rcases turn_look here entering turn with ⟨-, -, hframes⟩ | ⟨hle, -⟩
      · exact hframes
      · exact absurd hshort (Nat.not_lt_of_le hle)
    | settled _ top _ turn =>
      obtain ⟨m', hturn, hframes⟩ := settle_look top _
      obtain ⟨-, rfl⟩ := Turn.going.inj (turn.symm.trans hturn)
      exact hframes
  · intro c' hc'
    simp only [Cursor.passed] at hc'
    split at hc'
    · rw [← Phase.walk.inj hc']
      exact c.proceed_pos
    · simp at hc'

theorem Within.settle {success : Bool} (h : s.Within c look m₁ (.settle success) m)
    (top : m.frames = ⟨c, look.choice, m₁.trail.size⟩ :: m₁.frames) (hnested : m₁.Nested (.walk c))
    (hproper : ∀ {c' m}, s.Reaches (.walk c) m₁ (.walk c') m → c'.Proper) :
    ∃ m₂, s.Completes c look m₁ (success != look.negated) m₂ ∧
      s.turn m (.settle success) = .going (c.passed (success != look.negated)) m₂ := by
  obtain ⟨m₂, hturn, -⟩ := settle_look top success
  refine ⟨m₂, .settled h top (fun hsuccess => ?_) hturn, hturn⟩
  subst hsuccess
  obtain ⟨c', m₃, hleaving, hwithin, hreaches, hhead⟩ := h.found_of_success here entering hnested hproper rfl
  rw [top, openLooks, if_neg (not_passing look), List.head?_cons] at hhead
  obtain ⟨hchain, habove⟩ := List.cons.inj (Option.some.inj hhead)
  have hback : c' = c.back c'.pos := by
    rw [Cursor.back, show c.chain = c'.chain from hchain, show c.above = c'.above from habove, ← hleaving]
  exact ⟨c'.pos, m₃, hback ▸ hwithin, hback ▸ hreaches⟩

theorem atomic_of_nested (hnested : m₁.Nested (.walk c))
    (hproper : ∀ {c' m}, s.Reaches (.walk c) m₁ (.walk c') m → c'.Proper) : s.Atomic c look m₁ where
  stages phase m h := by
    refine h.induct (fun phase m => (phase = .walk c ∧ m = m₁) ∨ s.Within c look m₁ phase m ∨
      ∃ passes m₂, s.Completes c look m₁ passes m₂ ∧ s.Reaches (c.passed passes) m₂ phase m) ?_ (.inl ⟨rfl, rfl⟩)
    rintro phase phase' m m' hreached turn (⟨rfl, rfl⟩ | hwithin | ⟨passes, m₂, hcompletes, hreaches⟩)
    · rcases turn_look here entering turn with ⟨hshort, rfl, -⟩ | ⟨-, -, hframes⟩
      · exact .inr (.inr ⟨_, m', .short hshort turn, .refl _ _⟩)
      · have hnested' := (move_of_turn turn).nested hnested
        exact .inr (.inl (.enter turn (pending_of_nested hnested' ⟨[], hframes⟩)))
    · rcases hwithin.pending.turn (hwithin.reaches.nested hnested) turn with hpending | ⟨success, rfl, top⟩
      · exact .inr (.inl (hwithin.next turn hpending))
      · obtain ⟨m₂, hcompletes, hturn⟩ := hwithin.settle here entering top hnested hproper
        obtain ⟨rfl, rfl⟩ := Turn.going.inj (turn.symm.trans hturn)
        exact .inr (.inr ⟨_, _, hcompletes, .refl _ _⟩)
    · exact .inr (.inr ⟨passes, m₂, hcompletes, hreaches.snoc turn⟩)
  restores _ _ h := h.restores here entering
  found e m phase m' hwithin turn := by
    have hlooks := (hwithin.reaches.nested hnested).walk _ rfl
    have hvisit := turn_walk (s := s) (m := m) (c := c.back e) (by simp [Cursor.back, here])
    have hfound : s.visit m.visited (c.back e) = (.settle true, m.visited) := by
      simp [visit, Cursor.back, here, visitLook]
    rw [turn, hfound] at hvisit
    split at hvisit
    · simp at hvisit
    · obtain ⟨rfl, rfl⟩ := Turn.going.inj hvisit
      obtain ⟨opened, hopened⟩ := hwithin.pending.frames
      have hpassing := Within.openLooks_eq_nil here entering hnested hopened hlooks
      have hwithin' : s.Within c look m₁ (.settle true) m.visited :=
        hwithin.next turn ⟨⟨opened, hopened⟩, by simp⟩
      obtain ⟨m₂, hwithin₂, hreaches, top⟩ := Within.pass opened hpassing m.visited hwithin' hopened
      obtain ⟨m₃, hcompletes, hturn⟩ := hwithin₂.settle here entering top hnested hproper
      rw [Bool.true_bne] at hcompletes hturn
      exact ⟨m₃, hcompletes, hreaches.snoc hturn⟩
  missed m hwithin top := by
    obtain ⟨m₂, hcompletes, hturn⟩ := hwithin.settle here entering top hnested hproper
    rw [Bool.false_bne] at hcompletes hturn
    exact ⟨m₂, hcompletes, hturn⟩
  short hshort phase m turn := by
    rcases turn_look here entering turn with ⟨-, rfl, -⟩ | ⟨hle, -⟩
    · exact ⟨rfl, .short hshort turn⟩
    · exact absurd hshort (Nat.not_lt_of_le hle)

end

end Setting

/-- In an attempt, every look that is entered is atomic: what its children open is gone when it is completed,
and the walk goes on at the offset of the entry, if it does. When the root has been left, no choice of a look
is open, and the attempt succeeds. -/
theorem looks_atomic {o : Pattern.Options} {cs : List Char} {s : Setting}
    (hp : Pattern.compile o cs = .ok s.pattern) {pos : Nat} {before m : Machine} {c : Cursor}
    (h : s.Reaches (.walk (.start s.pattern.tree pos)) before.ready (.walk c) m) :
    (∀ id look body next, c.chain = .box id (.look look) body next → c.entering = true → s.Atomic c look m) ∧
    (c.chain = .nil → (∀ f ∈ m.frames, f.choice.passing) ∧ ∃ m', s.Ends (.walk c) m .matched m') := by
  have hnumbered := Pattern.numbered_of_compile hp
  have hproper : ∀ {c' m'}, s.Reaches (.walk (.start s.pattern.tree pos)) before.ready (.walk c') m' → c'.Proper :=
    fun h => h.places s.spreads_proper rfl (Setting.proper_start (by simp [Pattern.tree]) hnumbered.full pos) rfl
  have hnested : m.Nested (.walk c) := h.nested ⟨fun c' heq => by rw [← Phase.walk.inj heq]; rfl, trivial⟩
  refine ⟨fun id look body next here entering => ?_, fun hnil => ?_⟩
  · exact Setting.atomic_of_nested here entering hnested fun h' => hproper (h.trans h')
  · obtain ⟨habove, hleaving⟩ := (hproper h).off hnil
    have hlooks : openLooks m.frames = [] := by
      rw [hnested.walk c rfl, Cursor.active, hleaving, habove, hnil]
      rfl
    have hpassing := passing_of_openLooks_eq_nil hlooks
    have hoff : s.turn m (.walk c) = .going (.settle true) m := by simp [Setting.turn, hnil]
    obtain ⟨m', hreaches, hover, -⟩ := Setting.matched_of_passing m.frames hpassing m rfl
    exact ⟨hpassing, m', Setting.Reaches.ends (.turn hoff hreaches) hover⟩

/-- The pattern `(?=a?)a`. -/
def peekedA : Pattern where
  options := {}
  names := .empty
  body :=
    .box 2 (.look ⟨false, none⟩) (.box 1 (.loop ⟨0, some 1, false⟩) (.leaf 0 (.unit (.literal 97)) .nil) .nil)
      (.leaf 3 (.unit (.literal 97)) .nil)
  rootId := 4

/-- The attempt at the start of `a`. -/
def peekedA.setting : Setting := ⟨peekedA, ⟨#[97], 1, 0⟩, none, none⟩

/-- In `(?=a?)a` the look is atomic, and when the root is left after `a` the attempt succeeds. -/
theorem looks_atomic_peekedA :
    Pattern.compile {} "(?=a?)a".toList = .ok peekedA ∧
    (∃ c m body next,
      peekedA.setting.Reaches (.walk (.start peekedA.tree 0)) (Machine.ready {}) (.walk c) m ∧
      c.chain = .box 2 (.look ⟨false, none⟩) body next ∧ peekedA.setting.Atomic c ⟨false, none⟩ m) ∧
    ∃ c m m', peekedA.setting.Reaches (.walk (.start peekedA.tree 0)) (Machine.ready {}) (.walk c) m ∧
      c.chain = .nil ∧ peekedA.setting.Ends (.walk c) m .matched m' := by
  have hcompile : Pattern.compile {} "(?=a?)a".toList = .ok peekedA := by decide +kernel
  have hentered := @Setting.Reaches.turn peekedA.setting (.walk (.start peekedA.tree 0)) _ _
    (Machine.ready {}) _ _ rfl (.refl _ _)
  obtain ⟨hatomic, -⟩ := looks_atomic (s := peekedA.setting) hcompile hentered
  refine ⟨hcompile, ⟨_, _, _, _, hentered, rfl, hatomic _ _ _ _ rfl rfl⟩, ?_⟩
  have hleft := hentered.trans (.turn rfl (.turn rfl (.turn rfl (.turn rfl (.turn rfl (.turn rfl (.turn rfl
    (.turn rfl (.turn rfl (.refl _ _))))))))))
  obtain ⟨-, hleft'⟩ := looks_atomic (s := peekedA.setting) hcompile hleft
  obtain ⟨-, m', hends⟩ := hleft' rfl
  exact ⟨_, _, m', hleft, rfl, hends⟩

end SpanRegex
