import SpanRegex.Proofs.Moves

/-! # The span of a match

An attempt that succeeds has left the root, and nothing has been captured since. So both edges of the
whole match are recorded.

* `Captures.edge?`, `Captures.Whole`: the edges of the whole match, and that both are recorded.
* `Machine.PinsHeld`: an edge that is pinned is recorded.
* `Cursor.Fits`, `Stacked`: cursors lie in the tree, and each look around a place has its choice.
* `RootLeft`, `rootLeft_of_attempt`: the captures of a successful attempt are those with which the root was
  left.
* `whole_of_attempt`: a successful attempt records both edges.
-/

namespace SpanRegex
set_option autoImplicit false

open Pattern (Chain Edge Look Slot)

/-! ## Edges of the whole match -/

/-- An edge of the whole match, if it is recorded. -/
def Captures.edge? (c : Captures) : Edge → Option Nat
  | .start => (c.get Slot.whole).start
  | .stop => (c.get Slot.whole).stop

/-- Both edges of the whole match are recorded. -/
def Captures.Whole (c : Captures) : Prop := ∀ edge, (c.edge? edge).isSome

theorem Captures.Whole.span {c : Captures} (h : c.Whole) :
    ∃ span, (c.get Slot.whole).span? = some span := by
  obtain ⟨start, hstart⟩ := Option.isSome_iff_exists.1 (h .start)
  obtain ⟨stop, hstop⟩ := Option.isSome_iff_exists.1 (h .stop)
  simp only [edge?] at hstart hstop
  exact ⟨⟨start, stop⟩, by simp [Bounds.span?, hstart, hstop]⟩

theorem Captures.Whole.ofCaptures {c : Captures} (h : c.Whole) : ∃ hit, Match.ofCaptures? c = some hit := by
  obtain ⟨span, hspan⟩ := h.span
  unfold Match.ofCaptures?
  split
  · exact ⟨_, rfl⟩
  · rename_i hnone
    rw [hspan] at hnone
    simp at hnone

theorem Bounds.ordered_isSome (b : Bounds) :
    (b.ordered.start).isSome = b.start.isSome ∧ b.ordered.stop = b.stop := by
  unfold ordered
  split
  · rename_i start stop hstart hstop
    split <;> simp [hstart]
  · exact ⟨rfl, rfl⟩

/-- What has been recorded of the whole match stays recorded. -/
theorem Captures.edge_record {c : Captures} {edge : Edge} (h : (c.edge? edge).isSome) (slot : Slot)
    (span : Span) (holdStart holdStop : Bool) :
    ((c.record slot span holdStart holdStop).edge? edge).isSome := by
  cases edge <;>
  · simp only [edge?, record, get_set] at h ⊢
    split
    · rename_i hslot
      simp only [Bounds.ordered_isSome]
      split
      · rwa [hslot]
      · rfl
    · exact h

theorem Captures.edge_pin {c : Captures} {edge : Edge} (h : (c.edge? edge).isSome) (edge' : Edge)
    (pos : Nat) : ((c.pin edge' pos).edge? edge).isSome := by
  cases edge <;> cases edge' <;> simp_all [edge?, pin, get_set]

theorem Captures.edge_pin_self (c : Captures) (edge : Edge) (pos : Nat) :
    ((c.pin edge pos).edge? edge).isSome := by
  cases edge <;> simp [edge?, pin, get_set]

/-- The edge is pinned. -/
def Machine.pinned (m : Machine) : Edge → Bool
  | .start => m.startPinned
  | .stop => m.stopPinned

/-- An edge that is pinned is recorded. -/
def Machine.PinsHeld (m : Machine) : Prop :=
  ∀ edge, m.pinned edge = true → (m.captures.edge? edge).isSome

namespace Machine

variable {m m' : Machine}

theorem PinsHeld.same (h : m.PinsHeld) (hsame : m.SameRecords m') : m'.PinsHeld := by
  intro edge
  rw [hsame.captures]
  cases edge with
  | start => exact fun hpin => h .start (hsame.startPinned.symm.trans hpin)
  | stop => exact fun hpin => h .stop (hsame.stopPinned.symm.trans hpin)

theorem PinsHeld.record (h : m.PinsHeld) (slot : Slot) (pos id : Nat) :
    (m.record slot pos id).PinsHeld := by
  intro edge hpin
  refine Captures.edge_record (h edge ?_) slot _ _ _
  cases edge <;> exact hpin

theorem PinsHeld.pin (h : m.PinsHeld) (edge : Edge) (pos : Nat) : (m.pin edge pos).PinsHeld := by
  intro edge' hpin
  have hcaptures : (m.pin edge pos).captures = m.captures.pin edge pos := by cases edge <;> rfl
  rw [hcaptures]
  by_cases heq : edge' = edge
  · exact heq ▸ Captures.edge_pin_self _ _ _
  · refine Captures.edge_pin (h edge' ?_) edge pos
    cases edge <;> cases edge' <;> first | exact hpin | exact absurd rfl heq

/-- Leaving the root records both edges. -/
theorem PinsHeld.whole (h : m.PinsHeld) (pos id : Nat) : (m.record Slot.whole pos id).captures.Whole := by
  intro edge
  have hpins := h edge
  cases edge <;>
  · simp only [pinned, Machine.record, Captures.record, Captures.edge?, Captures.get_set] at hpins ⊢
    simp only [beq_self_eq_true, Bool.true_and, if_true, Bounds.ordered_isSome]
    split
    · rename_i hpin
      exact hpins hpin
    · rfl

end Machine

namespace Setting

variable {s : Setting} {phase phase' : Phase} {m m' : Machine}

theorem Move.pinsHeld (h : s.Move phase m phase' m') (hm : m.PinsHeld) : m'.PinsHeld := by
  have hvisited := hm.same (.visited m)
  cases h.recorded with
  | same records => exact hm.same records
  | pin => exact hvisited.pin _ _
  | enter => exact hvisited
  | record => exact hvisited.record _ _ _

end Setting

/-! ## Places in the tree -/

/-- The first node is a look. -/
def Pattern.Chain.isLook : Chain → Bool
  | .box _ (.look _) _ _ => true
  | _ => false

theorem Pattern.Chain.isLook_box {id : Nat} {op : Container} {body next : Chain} :
    (Chain.box id op body next).isLook = true ↔ ∃ look, op = .look look := by
  cases op <;> simp [isLook]

/-- The cursor lies in the tree, and every container on the way has children. -/
structure Cursor.Fits (tree : Chain) (c : Cursor) : Prop where
  nodes : ∀ x ∈ c.chain :: c.above, x ≠ .nil ∧ x.Full
  root : (c.chain :: c.above).getLast? = some tree

namespace Cursor

variable {tree body next : Chain} {c : Cursor}

theorem Fits.of_root (h : c.Fits tree) (habove : c.above = []) : c.chain = tree := by
  simpa [habove] using h.root

theorem Fits.leave (h : c.Fits tree) (habove : c.above ≠ []) (hnext : next.Full) (pos : Nat) :
    (c.leave next pos).Fits tree ∧ (c.leave next pos).active = c.above := by
  obtain ⟨container, above, heq⟩ := List.exists_cons_of_ne_nil habove
  have hnodes : ∀ x ∈ container :: above, x ≠ .nil ∧ x.Full := fun x hx =>
    h.nodes x (List.mem_cons_of_mem _ (heq ▸ hx))
  have hroot : (container :: above).getLast? = some tree := by
    simpa [heq] using h.root
  have hgo : ∀ next : Chain, next ≠ .nil → next.Full →
      (⟨next, c.above, pos, true⟩ : Cursor).Fits tree := fun next hne hfull =>
    ⟨List.forall_mem_cons.2 ⟨⟨hne, hfull⟩, heq ▸ hnodes⟩, by simpa [heq] using hroot⟩
  cases next with
  | nil =>
    have hleave : c.leave .nil pos = ⟨container, above, pos, false⟩ := by simp only [Cursor.leave, heq]
    rw [hleave]
    exact ⟨⟨hnodes, hroot⟩, heq.symm⟩
  | leaf id op next => exact ⟨hgo _ (by simp) hnext, rfl⟩
  | box id op body next => exact ⟨hgo _ (by simp) hnext, rfl⟩

theorem Fits.proceed (h : c.Fits tree) (habove : c.above ≠ []) :
    c.proceed.Fits tree ∧ c.proceed.active = c.above := by
  obtain ⟨hne, hfull⟩ := h.nodes c.chain List.mem_cons_self
  cases hchain : c.chain with
  | nil => exact absurd hchain hne
  | leaf id op next =>
    rw [hchain] at hfull
    have hnext : next.Full := hfull
    simpa only [Cursor.proceed, hchain] using h.leave habove hnext c.pos
  | box id op body next =>
    rw [hchain] at hfull
    simpa only [Cursor.proceed, hchain] using h.leave habove hfull.2.2 c.pos

theorem Fits.leaf_full (h : c.Fits tree) {id : Nat} {op : Pattern.Leaf}
    (here : c.chain = .leaf id op next) : next.Full := by
  have hfull := (h.nodes c.chain List.mem_cons_self).2
  rwa [here] at hfull

theorem Fits.box_full (h : c.Fits tree) {id : Nat} {op : Pattern.Container}
    (here : c.chain = .box id op body next) : next.Full := by
  have hfull := (h.nodes c.chain List.mem_cons_self).2
  rw [here] at hfull
  exact hfull.2.2

theorem Fits.descend (h : c.Fits tree) {id : Nat} {op : Pattern.Container}
    (here : c.chain = .box id op body next) (pos : Nat) : (c.descend body pos).Fits tree := by
  have hfull := (h.nodes c.chain List.mem_cons_self).2
  rw [here] at hfull
  exact ⟨List.forall_mem_cons.2 ⟨⟨hfull.1.children, hfull.2.1⟩, h.nodes⟩, by simpa [Cursor.descend] using h.root⟩

end Cursor

/-! ## Choices of looks -/

/-- The choice of a look is open. -/
def HasLook (frames : List Frame) : Prop := ∃ f ∈ frames, ¬ f.choice.passing

/-- Every open choice lies below the root, and over the choices of the looks that it lies in. -/
def Stacked (tree : Chain) : List Frame → Prop
  | [] => True
  | f :: frames => f.cursor.Fits tree ∧ f.cursor.above ≠ [] ∧
      ((∃ x ∈ f.cursor.above, x.isLook = true) → HasLook frames) ∧ Stacked tree frames

/-- The walk lies over the choices of the looks that it is in; it has succeeded only if the captures
are `closed` or if it has succeeded within a look. -/
def Phase.Apt (tree : Chain) (closed : Captures → Prop) (m : Machine) : Phase → Prop
  | .walk c => c.chain = .nil ∧ closed m.captures ∨
      c.Fits tree ∧ ((∃ x ∈ c.active, x.isLook = true) → HasLook m.frames)
  | .settle success => success = true → closed m.captures ∨ HasLook m.frames

theorem Phase.Apt.walk {tree : Chain} {closed : Captures → Prop} {m : Machine} {c : Cursor}
    (h : Phase.Apt tree closed m (.walk c))
    (hne : c.chain ≠ .nil) : c.Fits tree ∧ ((∃ x ∈ c.active, x.isLook = true) → HasLook m.frames) ∧
      ((∃ x ∈ c.above, x.isLook = true) → HasLook m.frames) := by
  obtain ⟨hfits, hlooks⟩ := h.resolve_left fun h => hne h.1
  exact ⟨hfits, hlooks, fun ⟨x, hx, hlook⟩ => hlooks ⟨x, Cursor.mem_active_of_above hx, hlook⟩⟩

namespace Setting

variable {s : Setting} {phase phase' : Phase} {m m' : Machine} {c : Cursor}

theorem hasLook_of_opens (h : m.Opens c m') (hlook : HasLook m.frames) : HasLook m'.frames := by
  obtain ⟨f, hf, hchoice⟩ := hlook
  rcases h with hframes | ⟨choice, n, -, hframes⟩
  · exact ⟨f, hframes ▸ hf, hchoice⟩
  · exact ⟨f, hframes ▸ List.mem_cons_of_mem _ hf, hchoice⟩

theorem stacked_of_opens {tree : Chain} (h : m.Opens c m') (hstacked : Stacked tree m.frames)
    (hfits : c.Fits tree) (habove : c.above ≠ [])
    (hlooks : (∃ x ∈ c.above, x.isLook = true) → HasLook m.frames) : Stacked tree m'.frames := by
  rcases h with hframes | ⟨choice, n, -, hframes⟩
  · rwa [hframes]
  · rw [hframes]
    exact ⟨hfits, habove, hlooks, hstacked⟩

/-- Only the root has no container; it is a group with a slot. -/
theorem above_ne_nil {p : Pattern} (hfits : c.Fits p.tree)
    (hne : ∀ body next, c.chain ≠ .box p.rootId (.group (some Slot.whole)) body next) : c.above ≠ [] :=
  fun habove => hne _ _ (hfits.of_root habove)

section

variable {tree : Chain} {closed : Captures → Prop} (hfits : c.Fits tree)
  (hlooks : (∃ x ∈ c.above, x.isLook = true) → HasLook m'.frames)

include hfits hlooks

theorem apt_leave {next : Chain} {pos : Nat} (habove : c.above ≠ []) (hfull : next.Full) :
    Phase.Apt tree closed m' (.walk (c.leave next pos)) := by
  obtain ⟨hfits', hactive⟩ := hfits.leave habove hfull pos
  exact .inr ⟨hfits', fun h => hlooks (hactive ▸ h)⟩

theorem apt_descend {id pos : Nat} {op : Pattern.Container} {body next : Chain}
    (here : c.chain = .box id op body next) (hlook : c.chain.isLook = false) :
    Phase.Apt tree closed m' (.walk (c.descend body pos)) := by
  refine .inr ⟨hfits.descend here pos, fun ⟨x, hx, hx'⟩ => ?_⟩
  rcases List.mem_cons.1 hx with rfl | hx
  · simp [hlook] at hx'
  · exact hlooks ⟨x, hx, hx'⟩

end

theorem Move.apt {closed : Captures → Prop} (h : s.Move phase m phase' m')
    (hroot : ∀ c, phase = .walk c → c.chain = s.pattern.tree → c.above = [] → c.entering = false →
      closed (m.record Slot.whole c.pos s.pattern.rootId).captures)
    (hstacked : Stacked s.pattern.tree m.frames) (hapt : phase.Apt s.pattern.tree closed m) :
    Stacked s.pattern.tree m'.frames ∧ phase'.Apt s.pattern.tree closed m' := by
  cases h with
  | off here =>
    rcases hapt with ⟨-, hclosed⟩ | ⟨hfits, -⟩
    · exact ⟨hstacked, fun _ => .inl hclosed⟩
    · exact absurd here (hfits.nodes _ List.mem_cons_self).1
  | @read c _ _ id e op next here read frames records =>
    obtain ⟨hfits, -, hlooks⟩ := hapt.walk (by simp [here])
    exact ⟨by rwa [frames], apt_leave hfits (frames ▸ hlooks) (above_ne_nil hfits (by simp [here]))
      (hfits.leaf_full here)⟩
  | @pin c _ id edge next here =>
    obtain ⟨hfits, -, hlooks⟩ := hapt.walk (by simp [here])
    have hframes : (m.visited.pin edge c.pos).frames = m.frames := by cases edge <;> rfl
    exact ⟨by rwa [hframes], apt_leave hfits (hframes ▸ hlooks) (above_ne_nil hfits (by simp [here]))
      (hfits.leaf_full here)⟩
  | lose frames records => exact ⟨by rwa [frames], by simp [Phase.Apt]⟩
  | @enter c _ id capture body next here entering =>
    obtain ⟨hfits, -, hlooks⟩ := hapt.walk (by simp [here])
    exact ⟨hstacked, apt_descend hfits hlooks here (by simp [here, Chain.isLook])⟩
  | @leave c _ id body next here leaving =>
    obtain ⟨hfits, -, hlooks⟩ := hapt.walk (by simp [here])
    exact ⟨hstacked, apt_leave hfits hlooks (above_ne_nil hfits (by simp [here]))
      (hfits.box_full here)⟩
  | @record c _ id slot body next here leaving =>
    obtain ⟨hfits, -, hlooks⟩ := hapt.walk (by simp [here])
    refine ⟨hstacked, ?_⟩
    by_cases habove : c.above = []
    · have hclosed := hroot c rfl (hfits.of_root habove) habove leaving
      have htree := hfits.of_root habove
      rw [here] at htree
      obtain ⟨rfl, hop, rfl, rfl⟩ := Chain.box.inj htree
      obtain rfl : slot = Slot.whole := by simpa using hop
      exact .inl ⟨by simp [Cursor.leave, habove], hclosed⟩
    · refine apt_leave hfits ?_ habove (hfits.box_full here)
      exact hlooks
  | @look c _ id look body next choice here entering hchoice =>
    obtain ⟨hfits, -, hlooks⟩ := hapt.walk (by simp [here])
    exact ⟨⟨hfits, above_ne_nil hfits (by simp [here]), hlooks, hstacked⟩,
      .inr ⟨hfits.descend here _, fun _ => ⟨_, List.mem_cons_self, hchoice⟩⟩⟩
  | @found c _ id look body next here leaving =>
    obtain ⟨hfits, hlooks, -⟩ := hapt.walk (by simp [here])
    refine ⟨hstacked, fun _ => .inr (hlooks ⟨c.chain, ?_, by simp [here, Chain.isLook]⟩)⟩
    simp [Cursor.active, leaving]
  | @inward c _ _ id op body next here kind opens records =>
    obtain ⟨hfits, -, hlooks⟩ := hapt.walk (by simp [here])
    have hlook : c.chain.isLook = false := by
      rcases kind with rfl | ⟨q, rfl⟩ <;> simp [here, Chain.isLook]
    have habove := above_ne_nil hfits fun body next h => by
      rw [here] at h
      rcases kind with rfl | ⟨q, rfl⟩ <;> simp at h
    exact ⟨stacked_of_opens opens hstacked hfits habove hlooks,
      apt_descend hfits (fun h => hasLook_of_opens opens (hlooks h)) here hlook⟩
  | @onward c _ _ id op body next onto here kind onto_eq opens records =>
    obtain ⟨hfits, -, hlooks⟩ := hapt.walk (by simp [here])
    have habove := above_ne_nil hfits fun body next h => by
      rw [here] at h
      exact kind _ (Chain.box.inj h).2.1
    have honto : onto.Full := by
      rcases onto_eq with rfl | rfl
      · exact hfits.box_full here
      · trivial
    exact ⟨stacked_of_opens opens hstacked hfits habove hlooks,
      apt_leave hfits (fun h => hasLook_of_opens opens (hlooks h)) habove honto⟩
  | @drop f success success' _ _ frames passing records =>
    rw [frames] at hstacked
    refine ⟨hstacked.2.2.2, fun h => ?_⟩
    obtain ⟨rfl, hpassing⟩ := passing h
    rcases hapt rfl with hclosed | ⟨g, hg, hlook⟩
    · exact .inl (records.captures ▸ hclosed)
    · rw [frames] at hg
      rcases List.mem_cons.1 hg with rfl | hg
      · exact absurd hpassing hlook
      · exact .inr ⟨g, hg, hlook⟩
  | @back f frames success _ _ m₀ frames_eq popped opens records =>
    rw [frames_eq, ← popped] at hstacked
    obtain ⟨hfits, habove, hlooks, hstacked⟩ := hstacked
    obtain ⟨hfits', hactive⟩ := hfits.proceed habove
    exact ⟨stacked_of_opens opens hstacked hfits habove hlooks,
      .inr ⟨hfits', fun h => hasLook_of_opens opens (hlooks (hactive ▸ h))⟩⟩
  | @again f frames success _ _ m₀ id q body next frames_eq popped here opens records =>
    rw [frames_eq, ← popped] at hstacked
    obtain ⟨hfits, habove, hlooks, hstacked⟩ := hstacked
    exact ⟨stacked_of_opens opens hstacked hfits habove hlooks,
      apt_descend hfits (fun h => hasLook_of_opens opens (hlooks h)) here
        (by simp [here, Chain.isLook])⟩

/-! ## Attempts -/

/-- The captures are those with which the walk of the attempt leaves the root. -/
def RootLeft (s : Setting) (pos : Nat) (m : Machine) (captures : Captures) : Prop :=
  ∃ c m₁, s.Reaches (.walk (.start s.pattern.tree pos)) m.ready (.walk c) m₁ ∧
    c.chain = s.pattern.tree ∧ c.above = [] ∧ c.entering = false ∧
    captures = (m₁.record Slot.whole c.pos s.pattern.rootId).captures

theorem apt_start (hnumbered : s.pattern.Numbered) (closed : Captures → Prop) (pos : Nat) (m : Machine) :
    Phase.Apt s.pattern.tree closed m.ready (.walk (.start s.pattern.tree pos)) :=
  .inr ⟨⟨by simpa [Cursor.start, Pattern.tree] using hnumbered.full, rfl⟩, by simp [Cursor.active, Cursor.start]⟩

/-- A successful attempt has left the root, and nothing has been captured since. -/
theorem rootLeft_of_attempt (hnumbered : s.pattern.Numbered) {fuel pos : Nat}
    (h : s.attempt fuel pos m = some (.matched, m')) : s.RootLeft pos m m'.captures := by
  obtain ⟨phase₁, m₁, hruns, hover⟩ := reaches_of_run fuel h
  have hstart := apt_start hnumbered (s.RootLeft pos m) pos m
  obtain ⟨-, hapt⟩ := hruns.induct
    (fun phase m' => Stacked s.pattern.tree m'.frames ∧ phase.Apt s.pattern.tree (s.RootLeft pos m) m')
    (fun hreached turn h => (move_of_turn turn).apt
      (fun c hphase htree habove hleaving =>
        ⟨c, _, hphase ▸ hreached, htree, habove, hleaving, rfl⟩) h.1 h.2)
    ⟨trivial, hstart⟩
  rcases over_of_turn hover with ⟨-, rfl, hframes, rfl⟩ | ⟨hv, -⟩ | ⟨hv, -⟩
  · refine (hapt rfl).resolve_right ?_
    rintro ⟨f, hf, -⟩
    simp [hframes] at hf
  · simp at hv
  · simp at hv

theorem Reaches.pinsHeld (h : s.Reaches phase m.ready phase' m') : m'.PinsHeld :=
  h.invariant (fun _ m => m.PinsHeld) (fun hmove => hmove.pinsHeld)
    fun edge hpin => by cases edge <;> simp [Machine.ready, Machine.pinned] at hpin

theorem whole_of_attempt (hnumbered : s.pattern.Numbered) {fuel pos : Nat}
    (h : s.attempt fuel pos m = some (.matched, m')) : m'.captures.Whole := by
  obtain ⟨c, m₁, hreaches, -, -, -, hcaptures⟩ := rootLeft_of_attempt hnumbered h
  rw [hcaptures]
  exact hreaches.pinsHeld.whole _ _

end Setting
end SpanRegex
