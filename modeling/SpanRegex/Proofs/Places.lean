import SpanRegex.Proofs.Reference
import SpanRegex.Proofs.Whole

/-! # Places of the walk

The walk goes on from the node that it is at, or from a node that an open choice keeps: down to the
children of the node, or on to what comes after it.

* `Setting.Next`: one step of the walk through the tree.
* `Setting.Spreads`: a property of places that steps carry on; `Reaches.places`.
* `spreads_inside`, `spreads_parts`, `spreads_ahead`: places lie before the end of the text, their
  nodes are parts of the tree, and outside looks they are not behind the offset of the attempt.
-/

namespace SpanRegex
set_option autoImplicit false

open Pattern (Chain Container)

/-! ## Steps through the tree -/

/-- One step of the walk: to the children of the node, from further behind if it is a look, or to what
comes after it. -/
inductive Setting.Next (s : Setting) (c : Cursor) : Cursor → Prop
  | down {id pos : Nat} {op : Container} {body next : Chain} (here : c.chain = .box id op body next)
      (pos_eq : pos = c.pos ∨ c.chain.isLook = true ∧ pos ≤ c.pos) : s.Next c (c.descend body pos)
  | on {onto : Chain} {pos : Nat} (onto_eq : onto = c.chain.tail ∨ onto = .nil) (le : c.pos ≤ pos)
      (inside : c.pos ≤ s.input.stop → pos ≤ s.input.stop) : s.Next c (c.leave onto pos)

/-- Steps carry a property on: it holds `here` wherever the walk gets to, and `from'` wherever it goes on
from. A look goes on only from where it is entered. -/
structure Setting.Spreads (s : Setting) (here from' : Cursor → Prop) : Prop where
  leave : ∀ c, c.chain ≠ .nil → (c.chain.isLook = true → c.entering = true) → here c → from' c
  next : ∀ c c', from' c → s.Next c c' → here c'

/-- The walk is at a place with the one property, and the choices keep places with the other. -/
def Machine.Spread (here from' : Cursor → Prop) (phase : Phase) (m : Machine) : Prop :=
  (∀ c, phase = .walk c → here c) ∧ ∀ f ∈ m.frames, f.cursor.chain ≠ .nil ∧ from' f.cursor

namespace Setting

variable {s : Setting} {phase phase' : Phase} {m m' : Machine} {c : Cursor}
  {here from' : Cursor → Prop}

theorem next_proceed (s : Setting) (hne : c.chain ≠ .nil) : s.Next c c.proceed := by
  cases hchain : c.chain with
  | nil => exact absurd hchain hne
  | leaf id op next =>
    simp only [Cursor.proceed, hchain]
    exact .on (.inl (by rw [hchain]; rfl)) (Nat.le_refl _) fun h => h
  | box id op body next =>
    simp only [Cursor.proceed, hchain]
    exact .on (.inl (by rw [hchain]; rfl)) (Nat.le_refl _) fun h => h

theorem spread_of_opens (hopens : m.Opens c m') (hc : c.chain ≠ .nil ∧ from' c)
    (hkept : ∀ f ∈ m.frames, f.cursor.chain ≠ .nil ∧ from' f.cursor) :
    ∀ f ∈ m'.frames, f.cursor.chain ≠ .nil ∧ from' f.cursor := by
  rcases hopens with hframes | ⟨choice, n, -, hframes⟩
  · rwa [hframes]
  · rw [hframes]
    exact List.forall_mem_cons.2 ⟨hc, hkept⟩

theorem Move.spread (h : s.Move phase m phase' m') (hs : s.Spreads here from')
    (hm : m.Spread here from' phase) : m'.Spread here from' phase' := by
  obtain ⟨hwalk, hkept⟩ := hm
  -- Where the walk goes on from, and where a step then leads.
  have hfrom : ∀ {c : Cursor}, phase = .walk c → c.chain ≠ .nil →
      (c.chain.isLook = true → c.entering = true) → from' c := fun hphase hne hlook =>
    hs.leave _ hne hlook (hwalk _ hphase)
  have hstep : ∀ {c c' : Cursor}, from' c → s.Next c c' → ∀ c'', Phase.walk c' = .walk c'' → here c'' :=
    fun hc hnext c'' heq => Phase.walk.inj heq ▸ hs.next _ _ hc hnext
  have hafter : ∀ {c : Cursor} {next : Chain}, c.chain.tail = next → from' c →
      ∀ c'', Phase.walk (c.leave next c.pos) = .walk c'' → here c'' := fun htail hc =>
    hstep hc (.on (.inl htail.symm) (Nat.le_refl _) fun h => h)
  cases h with
  | off => exact ⟨by simp, hkept⟩
  | @read c _ _ _ e _ _ here read frames records =>
    have hc := hfrom rfl (by simp [here]) (by simp [here, Chain.isLook])
    obtain ⟨hle, hinside⟩ := s.read_bounds read
    exact ⟨hstep hc (.on (.inl (by rw [here]; rfl)) hle hinside), by rwa [frames]⟩
  | @pin c _ _ edge _ here =>
    have hc := hfrom rfl (by simp [here]) (by simp [here, Chain.isLook])
    exact ⟨hafter (by rw [here]; rfl) hc, by cases edge <;> exact hkept⟩
  | lose frames => exact ⟨by simp, by rwa [frames]⟩
  | enter here =>
    have hc := hfrom rfl (by simp [here]) (by simp [here, Chain.isLook])
    exact ⟨hstep hc (.down here (.inl rfl)), hkept⟩
  | leave here =>
    have hc := hfrom rfl (by simp [here]) (by simp [here, Chain.isLook])
    exact ⟨hafter (by rw [here]; rfl) hc, hkept⟩
  | record here =>
    have hc := hfrom rfl (by simp [here]) (by simp [here, Chain.isLook])
    exact ⟨hafter (by rw [here]; rfl) hc, hkept⟩
  | @look c _ _ _ _ _ _ here entering =>
    have hne : c.chain ≠ .nil := by simp [here]
    have hc := hfrom rfl hne fun _ => entering
    exact ⟨hstep hc (.down here (.inr ⟨by rw [here]; rfl, Nat.sub_le _ _⟩)),
      List.forall_mem_cons.2 ⟨⟨hne, hc⟩, hkept⟩⟩
  | found => exact ⟨by simp, hkept⟩
  | @inward c _ _ _ _ _ _ here kind opens =>
    have hne : c.chain ≠ .nil := by simp [here]
    have hc := hfrom rfl hne fun hlook => by
      rcases kind with rfl | ⟨q, rfl⟩ <;> simp [here, Chain.isLook] at hlook
    exact ⟨hstep hc (.down here (.inl rfl)), spread_of_opens opens ⟨hne, hc⟩ hkept⟩
  | @onward c _ _ _ op _ _ _ here kind onto_eq opens records look_entering =>
    have hne : c.chain ≠ .nil := by simp [here]
    have hc := hfrom rfl hne fun hlook => by
      obtain ⟨look, rfl⟩ := Chain.isLook_box.1 (here ▸ hlook)
      exact look_entering look rfl
    refine ⟨hstep hc (.on ?_ (Nat.le_refl _) fun h => h), spread_of_opens opens ⟨hne, hc⟩ hkept⟩
    rw [here]
    exact onto_eq
  | drop frames =>
    rw [frames] at hkept
    exact ⟨by simp, (List.forall_mem_cons.1 hkept).2⟩
  | back frames_eq popped opens =>
    rw [frames_eq, ← popped] at hkept
    obtain ⟨hf, hkept⟩ := List.forall_mem_cons.1 hkept
    exact ⟨hstep hf.2 (s.next_proceed hf.1), spread_of_opens opens hf hkept⟩
  | again frames_eq popped here opens =>
    rw [frames_eq, ← popped] at hkept
    obtain ⟨hf, hkept⟩ := List.forall_mem_cons.1 hkept
    exact ⟨hstep hf.2 (.down here (.inl rfl)), spread_of_opens opens hf hkept⟩

/-- A property that steps carry on holds wherever turns lead. -/
theorem Reaches.places (h : s.Reaches (.walk c) m phase m') (hs : s.Spreads here from')
    (hframes : m.frames = []) (hc : here c) {c' : Cursor} (hphase : phase = .walk c') : here c' := by
  have hspread := h.invariant (fun phase m => m.Spread here from' phase) (fun hmove => hmove.spread hs)
    ⟨fun c' heq => Phase.walk.inj heq ▸ hc, by simp [hframes]⟩
  exact hspread.1 c' hphase

/-! ## What holds of every place -/

/-- No place lies beyond the end of the text. -/
theorem spreads_inside (s : Setting) :
    s.Spreads (fun c => c.pos ≤ s.input.stop) fun c => c.pos ≤ s.input.stop where
  leave _ _ _ h := h
  next c c' h hnext := by
    cases hnext with
    | down _ pos_eq =>
      rcases pos_eq with rfl | ⟨-, hle⟩
      · exact h
      · exact Nat.le_trans hle h
    | on _ _ inside =>
      rw [Cursor.leave_pos]
      exact inside h

end Setting

/-- What holds of a chain holds of its parts. -/
structure Pattern.Chain.Hereditary (part : Chain → Prop) : Prop where
  nil : part .nil
  body : ∀ {id op body next}, part (.box id op body next) → part body
  tail : ∀ {c : Chain}, part c → part c.tail

namespace Setting

/-- What holds of a chain and its parts holds of the nodes of every place. -/
theorem spreads_parts (s : Setting) {part : Chain → Prop} (hpart : Chain.Hereditary part) :
    s.Spreads (fun c => ∀ x ∈ c.chain :: c.above, part x) fun c => ∀ x ∈ c.chain :: c.above, part x where
  leave _ _ _ h := h
  next c c' h hnext := by
    obtain ⟨hchain, habove⟩ := List.forall_mem_cons.1 h
    cases hnext with
    | down here =>
      rw [here] at hchain
      exact List.forall_mem_cons.2 ⟨hpart.body hchain, h⟩
    | @on onto pos onto_eq =>
      have honto : part onto := by
        rcases onto_eq with rfl | rfl
        · exact hpart.tail hchain
        · exact hpart.nil
      unfold Cursor.leave
      split
      · exact List.forall_mem_cons.2 ⟨hpart.nil, by simp⟩
      · rename_i heq
        rwa [heq] at habove
      · exact List.forall_mem_cons.2 ⟨honto, habove⟩

/-- Outside looks no place lies behind the offset. -/
theorem spreads_ahead (s : Setting) (pos : Nat) :
    s.Spreads (fun c => (∀ x ∈ c.active, x.isLook = false) → pos ≤ c.pos)
      fun c => (∀ x ∈ c.above, x.isLook = false) → pos ≤ c.pos where
  leave c _ hlook h habove := by
    refine h fun x hx => ?_
    unfold Cursor.active at hx
    split at hx
    · exact habove x hx
    · rename_i hleaving
      rcases List.mem_cons.1 hx with rfl | hx
      · exact Bool.eq_false_iff.2 fun h => hleaving (hlook h)
      · exact habove x hx
  next c c' h hnext hactive := by
    cases hnext with
    | down here pos_eq =>
      obtain ⟨hchain, habove⟩ := List.forall_mem_cons.1 hactive
      rcases pos_eq with rfl | ⟨hlook, -⟩
      · exact h habove
      · simp [hlook] at hchain
    | @on onto e onto_eq le =>
      rw [Cursor.leave_pos]
      refine Nat.le_trans (h fun x hx => ?_) le
      -- All that is above is still around the walk, or the root has been left.
      unfold Cursor.leave at hactive
      split at hactive
      · rename_i hnil
        simp [hnil] at hx
      · rename_i heq
        exact hactive x (by simpa [Cursor.active, heq] using hx)
      · exact hactive x hx

end Setting
end SpanRegex
