import SpanRegex.Proofs.Endless
import SpanRegex.Proofs.Stale

/-! # Going back to a choice

A choice notes the length of the trail when it is opened, and the choices below it have noted no more. Taking a
choice shortens the trail to what that one has noted, so the part that a choice below has seen stays as it was:
what lies above its note are the writes made since it was opened, and going back takes back these and no others.

* `Machine.resumed`: the machine from which a turn goes on, the latest choice being taken if the turn takes it.
* `Machine.Proceeds`: guards may have been written, then a choice may have been opened; `proceeds_of_turn`.
* `Machine.Noted`: the notes of the open choices; `Reaches.noted`.
* `Setting.OpenSince`: a choice has been opened and not been taken since; `OpenSince.covers`.
* `guards_restored`: going back to a choice restores all guards as they were when it was opened.
-/

namespace SpanRegex
set_option autoImplicit false

open Pattern (Chain Leaf Look Quantifier Slot)

/-! ## Turns and the trail -/

/-- The machine from which a turn goes on: back at the latest choice, which is open no longer, if the turn takes
one. -/
def Machine.resumed (m : Machine) : Phase → Machine
  | .walk _ => m
  | .settle _ =>
    match m.frames with
    | [] => m
    | f :: frames => ({ m with frames }).unwind f.trail

/-- Guards may have been written through the trail, and then one choice at most has been opened. -/
inductive Machine.Proceeds (a : Machine) : Machine → Prop
  | stays {b : Machine} (frames : b.frames = a.frames) (covers : b.Covers a) : a.Proceeds b
  | opens {b : Machine} {c : Cursor} {choice : Choice} (frames : b.frames = a.frames) (covers : b.Covers a) :
      a.Proceeds (b.push c choice)

namespace Machine

variable {a b m : Machine} {f : Frame} {frames : List Frame}

theorem resumed_settle (h : m.frames = f :: frames) (success : Bool) :
    m.resumed (.settle success) = ({ m with frames }).unwind f.trail := by
  simp only [resumed, h]

theorem resumed_cases (m : Machine) (phase : Phase) : m.resumed phase = m ∨
    ∃ f frames, m.frames = f :: frames ∧ m.resumed phase = ({ m with frames }).unwind f.trail := by
  cases phase with
  | walk c => exact .inl rfl
  | settle success =>
    cases hframes : m.frames with
    | nil => exact .inl (by simp only [resumed, hframes])
    | cons f frames => exact .inr ⟨f, frames, rfl, resumed_settle hframes success⟩

theorem resumed_frames (m : Machine) (phase : Phase) : (m.resumed phase).frames <:+ m.frames := by
  rcases m.resumed_cases phase with hsame | ⟨f, frames, hframes, hback⟩
  · simp only [hsame, List.suffix_rfl]
  · rw [hback, unwind_frames, hframes]
    exact List.suffix_cons f frames

theorem Proceeds.after (h : b.Proceeds m) (frames : b.frames = a.frames) (covers : b.Covers a) :
    a.Proceeds m := by
  cases h with
  | stays frames' covers' => exact .stays (frames'.trans frames) (covers'.trans covers)
  | opens frames' covers' => exact .opens (frames'.trans frames) (covers'.trans covers)

/-- Nothing has been written and no choice has been opened. -/
theorem Proceeds.same (frames : b.frames = a.frames) (trail : b.trail = a.trail) (guards : b.guards = a.guards) :
    a.Proceeds b :=
  .stays frames (.of_eq trail (congrArg Store.get guards))

end Machine

namespace Setting

variable {s : Setting} {m m' : Machine} {phase phase' : Phase}

section

variable (m : Machine) (c : Cursor) (id : Nat) (body next : Chain)

theorem proceeds_leaf (s : Setting) (op : Leaf) : m.Proceeds (s.visitLeaf m c op next).2 := by
  unfold visitLeaf
  split
  · split
    · rename_i edge _
      cases edge <;> exact .same rfl rfl rfl
    · exact .same rfl rfl rfl
  · exact .same rfl rfl rfl

theorem proceeds_group (capture : Option Slot) : m.Proceeds (visitGroup m c id capture body next).2 := by
  unfold visitGroup
  split
  · exact .same rfl rfl rfl
  · split <;> exact .same rfl rfl rfl

theorem proceeds_look (look : Look) : m.Proceeds (visitLook m c look body next).2 := by
  unfold visitLook
  split
  · simp only
    split
    · split <;> exact .same rfl rfl rfl
    · exact .opens rfl (.of_eq rfl rfl)
  · exact .same rfl rfl rfl

theorem proceeds_alternative : m.Proceeds (visitAlternative m c body).2 := by
  unfold visitAlternative
  split
  · exact .opens rfl (.of_eq rfl rfl)
  · exact .same rfl rfl rfl

theorem proceeds_decideLoop (q : Quantifier) : m.Proceeds (decideLoop m c id q body next).2 := by
  have hset : ∀ value, (m.setGuard id value).frames = m.frames ∧ (m.setGuard id value).Covers m := fun value =>
    ⟨m.setGuard_frames id value, m.setGuard_covers id value⟩
  unfold decideLoop
  split
  · simp only
    split
    · exact .same rfl rfl rfl
    · split
      · exact .opens (hset _).1 (hset _).2
      · exact .opens (hset _).1 (hset _).2
  · simp only
    split
    · exact .same rfl rfl rfl
    · split
      · exact .opens rfl (.of_eq rfl rfl)
      · exact .opens rfl (.of_eq rfl rfl)

theorem proceeds_loop (q : Quantifier) : m.Proceeds (visitLoop m c id q body next).2 := by
  unfold visitLoop
  -- A loop that is entered resets its guard first.
  obtain ⟨m₁, hm₁, hframes, hcovers⟩ : ∃ m₁, (if c.entering then enterLoop m id q else m) = m₁ ∧
      m₁.frames = m.frames ∧ m₁.Covers m := by
    refine ⟨_, rfl, ?_⟩
    split
    · exact ⟨(enterLoop_same m id q).1, Machine.setGuard_covers _ id none⟩
    · exact ⟨rfl, .of_eq rfl rfl⟩
  rw [hm₁]
  simp only
  split
  · exact (proceeds_decideLoop m₁ c id body next q).after hframes hcovers
  · exact .stays hframes hcovers

theorem proceeds_visit (s : Setting) : m.Proceeds (s.visit m c).2 := by
  unfold visit
  split
  · exact .same rfl rfl rfl
  · exact proceeds_leaf m c _ s _
  · split
    · exact proceeds_group m c _ _ _ _
    · exact proceeds_look m c _ _ _
    · exact proceeds_alternative m c _
    · exact proceeds_loop m c _ _ _ _

theorem proceeds_accept (choice : Choice) : m.Proceeds (m.accept c choice).2 := by
  cases choice <;> exact .same rfl rfl rfl

theorem proceeds_retry (choice : Choice) : m.Proceeds (m.retry c choice).2 := by
  unfold Machine.retry
  cases choice with
  | settleForLess => exact .opens rfl (.of_eq rfl rfl)
  | again => simp only; split <;> exact .same rfl rfl rfl
  | oneMore =>
    simp only
    split
    · exact .opens rfl (.of_eq rfl rfl)
    · exact .same rfl rfl rfl
  | giveBack => simp only; split <;> exact .same rfl rfl rfl
  | _ => exact .same rfl rfl rfl

end

theorem proceeds_of_turn (h : s.turn m phase = .going phase' m') : (m.resumed phase).Proceeds m' := by
  cases phase with
  | settle success =>
    cases hframes : m.frames with
    | nil => simp [turn, Machine.settle, hframes] at h
    | cons f frames =>
      simp only [turn, Machine.settle, hframes] at h
      rw [Machine.resumed_settle hframes]
      cases success with
      | true =>
        obtain ⟨-, rfl⟩ := Turn.going.inj h
        exact proceeds_accept _ _ _
      | false =>
        obtain ⟨-, rfl⟩ := Turn.going.inj h
        exact proceeds_retry _ _ _
  | walk c =>
    by_cases hc : c.chain = .nil
    · simp only [turn, hc] at h
      obtain ⟨-, rfl⟩ := Turn.going.inj h
      exact .same rfl rfl rfl
    · rw [turn_walk hc] at h
      split at h
      · cases h
      · obtain ⟨-, rfl⟩ := Turn.going.inj h
        exact (proceeds_visit m.visited c s).after rfl (.of_eq rfl rfl)

end Setting

/-! ## The notes of the open choices -/

/-- No open choice has noted more than the trail has now, nor less than a choice below it. -/
structure Machine.Noted (m : Machine) : Prop where
  bounded : ∀ f ∈ m.frames, f.trail ≤ m.trail.size
  ascending : m.frames.Pairwise fun f below => below.trail ≤ f.trail

namespace Machine

variable {a m : Machine}

/-- Going back shortens the trail to what the latest choice has noted, which is no less than the others have. -/
theorem Noted.resumed (h : m.Noted) (phase : Phase) : (m.resumed phase).Noted := by
  rcases m.resumed_cases phase with hsame | ⟨f, frames, hframes, hback⟩
  · rwa [hsame]
  · obtain ⟨hbounded, hascending⟩ := h
    rw [hframes] at hbounded hascending
    obtain ⟨hbelow, hascending⟩ := List.pairwise_cons.1 hascending
    have hsize := ({ m with frames }).unwind_size (hbounded f List.mem_cons_self)
    rw [hback]
    refine ⟨?_, by rwa [unwind_frames]⟩
    rwa [unwind_frames, hsize]

theorem Proceeds.noted (h : a.Proceeds m) (ha : a.Noted) : m.Noted := by
  have hkept : ∀ {b : Machine}, b.frames = a.frames → b.Covers a → b.Noted := fun frames covers =>
    ⟨fun f hf => Nat.le_trans (ha.bounded f (frames ▸ hf)) covers.size_le, frames ▸ ha.ascending⟩
  cases h with
  | stays frames covers => exact hkept frames covers
  | opens frames covers =>
    obtain ⟨hbounded, hascending⟩ := hkept frames covers
    exact ⟨List.forall_mem_cons.2 ⟨Nat.le_refl _, hbounded⟩, List.pairwise_cons.2 ⟨hbounded, hascending⟩⟩

end Machine

namespace Setting

variable {s : Setting} {m m' base m₀ : Machine} {phase phase' phase₀ : Phase} {f : Frame}

theorem Reaches.noted (h : s.Reaches phase m phase' m') (hm : m.Noted) : m'.Noted :=
  h.induct (fun _ m => m.Noted) (fun _ turn hm => (proceeds_of_turn turn).noted (hm.resumed _)) hm

/-! ## From the opening of a choice on -/

/-- Turns from the first state have opened the choice, the machine being `base` at that moment, and no turn has
taken it since. -/
inductive OpenSince (s : Setting) (phase₀ : Phase) (m₀ : Machine) (f : Frame) (base : Machine) :
    Phase → Machine → Prop
  | opened {phase phase' : Phase} {m : Machine} (before : s.Reaches phase₀ m₀ phase m)
      (turn : s.turn m phase = .going phase' (base.push f.cursor f.choice))
      (below : base.frames = (m.resumed phase).frames) (note : f.trail = base.trail.size) :
      s.OpenSince phase₀ m₀ f base phase' (base.push f.cursor f.choice)
  | kept {phase phase' : Phase} {m m' : Machine} (before : s.OpenSince phase₀ m₀ f base phase m)
      (turn : s.turn m phase = .going phase' m') (untaken : f :: base.frames <:+ (m.resumed phase).frames) :
      s.OpenSince phase₀ m₀ f base phase' m'

namespace OpenSince

theorem reaches (h : s.OpenSince phase₀ m₀ f base phase m) : s.Reaches phase₀ m₀ phase m := by
  induction h with
  | opened before turn => exact before.snoc turn
  | kept _ turn _ ih => exact ih.snoc turn

theorem note (h : s.OpenSince phase₀ m₀ f base phase m) : f.trail = base.trail.size := by
  induction h with
  | opened _ _ _ note => exact note
  | kept _ _ _ ih => exact ih

/-- While a choice is open, the trail is that of its opening and more, and leads back to the guards of its
opening. -/
theorem covers (h : s.OpenSince phase₀ m₀ f base phase m) (hm₀ : m₀.Noted) : m.Covers base := by
  induction h with
  | opened => exact .of_eq rfl rfl
  | @kept phase phase' m m' before turn untaken ih =>
    have hnoted := before.reaches.noted hm₀
    -- The choice taken by the turn, if any, lies above the choice that stays open.
    have hresumed : (m.resumed phase).Covers base := by
      rcases m.resumed_cases phase with hsame | ⟨g, frames, hframes, hback⟩
      · rwa [hsame]
      · have hascending := hnoted.ascending
        rw [hframes] at hascending
        rw [hback, Machine.unwind_frames] at untaken
        have hle := (List.pairwise_cons.1 hascending).1 f (untaken.subset List.mem_cons_self)
        rw [before.note] at hle
        have hpopped : ({ m with frames }).Covers base := ih
        rw [hback]
        exact hpopped.unwind hle
    cases proceeds_of_turn turn with
    | stays _ covers => exact covers.trans hresumed
    | opens _ covers => exact covers.trans hresumed

end OpenSince

theorem Reaches.openSince (h : s.Reaches phase₀ m₀ phase m) (hm₀ : m₀.frames = []) :
    ∀ f below, f :: below <:+ m.frames →
      ∃ base, base.frames = below ∧ s.OpenSince phase₀ m₀ f base phase m := by
  refine h.induct (fun phase m => ∀ f below, f :: below <:+ m.frames →
    ∃ base, base.frames = below ∧ s.OpenSince phase₀ m₀ f base phase m) ?_ (by simp [hm₀])
  intro phase phase' m m' hreached turn ih f below hopen
  -- A choice that is open before and after the turn.
  have hkept : f :: below <:+ (m.resumed phase).frames →
      ∃ base, base.frames = below ∧ s.OpenSince phase₀ m₀ f base phase' m' := by
    intro huntaken
    obtain ⟨base, rfl, hsince⟩ := ih f below (huntaken.trans (m.resumed_frames phase))
    exact ⟨base, rfl, hsince.kept turn huntaken⟩
  cases proceeds_of_turn turn with
  | stays frames => exact hkept (frames ▸ hopen)
  | @opens base c choice frames covers =>
    rcases List.suffix_cons_iff.1 hopen with heq | hopen
    · obtain ⟨rfl, rfl⟩ := List.cons.inj heq
      exact ⟨base, rfl, .opened hreached turn frames rfl⟩
    · exact hkept (frames ▸ hopen)

end Setting

/-- In an attempt, no open choice has noted more of the trail than there is, and each has been opened by a turn
and not been taken since. When it is taken, on success or on failure, unwinding the trail to its note restores
the trail and every guard as they were when the choice was opened, and the turn goes on from there. -/
theorem guards_restored {s : Setting} {pos : Nat} {before m : Machine} {phase : Phase}
    (h : s.Reaches (.walk (.start s.pattern.tree pos)) before.ready phase m) :
    (∀ f ∈ m.frames, f.trail ≤ m.trail.size) ∧
    (∀ f below, f :: below <:+ m.frames → ∃ base, base.frames = below ∧
      s.OpenSince (.walk (.start s.pattern.tree pos)) before.ready f base phase m) ∧
    ∀ f base, s.OpenSince (.walk (.start s.pattern.tree pos)) before.ready f base phase m →
      ∀ success, phase = .settle success → m.frames = f :: base.frames →
        ∃ m', m' = ({ m with frames := base.frames }).unwind f.trail ∧ m'.trail = base.trail ∧
          (∀ id, m'.guards.get id = base.guards.get id) ∧
          s.turn m phase =
            if success then .going (m'.accept f.cursor f.choice).1 (m'.accept f.cursor f.choice).2
            else .going (m'.retry f.cursor f.choice).1 (m'.retry f.cursor f.choice).2 := by
  have hnoted : before.ready.Noted := ⟨by simp [Machine.ready], by simp [Machine.ready]⟩
  refine ⟨(h.noted hnoted).bounded, h.openSince rfl, ?_⟩
  rintro f base hsince success rfl hframes
  have hpopped : ({ m with frames := base.frames }).Covers base := hsince.covers hnoted
  obtain ⟨htrail, hguards⟩ := hpopped.unwind_self
  rw [← hsince.note] at htrail hguards
  refine ⟨_, rfl, htrail, fun id => congrFun hguards id, ?_⟩
  simp only [Setting.turn, Machine.settle, hframes]
  cases success <;> rfl

/-! ## A choice of an earlier round -/

namespace RunOfAs

/-- The pattern `a*b`. -/
def pattern : Pattern where
  options := {}
  names := .empty
  body := .box 2 (.loop ⟨0, none, false⟩) (.leaf 0 (.unit (.literal 97)) .nil) (.leaf 1 (.unit (.literal 98)) .nil)
  rootId := 3

/-- The search of `a`. -/
def search : Setting := ({ pattern } : Matcher).setting { text := #[97], mode := .anchored }

/-- The state at which there is no `b` after the `a`. -/
def refused : Phase × Machine :=
  (search.after 7 (.walk (.start pattern.tree 0)) (Machine.ready {})).getD default

end RunOfAs

open RunOfAs in
/-- In `a` there is no `b` after the first round of the loop. The choice of that round is taken, and the guard,
which the second round has moved on to 1, is back at 0. -/
theorem guards_restored_runOfAs :
    Pattern.compile {} "a*b".toList = .ok pattern ∧
    search.Reaches (.walk (.start pattern.tree 0)) (Machine.ready {}) refused.1 refused.2 ∧
    refused.1 = .settle false ∧ refused.2.guards.get 2 = some 1 ∧
    ∃ f base, refused.2.frames = f :: base.frames ∧
      search.OpenSince (.walk (.start pattern.tree 0)) (Machine.ready {}) f base refused.1 refused.2 ∧
      base.guards.get 2 = some 0 ∧
      ∀ id, (({ refused.2 with frames := base.frames }).unwind f.trail).guards.get id = base.guards.get id := by
  have hreaches : search.Reaches (.walk (.start pattern.tree 0)) (Machine.ready {}) refused.1 refused.2 :=
    Setting.reaches_after 7 (by decide +kernel)
  have hphase : refused.1 = .settle false := by decide +kernel
  have hframes : refused.2.frames = refused.2.frames.headD default :: [] := by decide +kernel
  obtain ⟨-, hopened, hrestored⟩ := guards_restored (s := search) hreaches
  obtain ⟨base, hbelow, hsince⟩ := hopened _ [] ⟨[], hframes.symm⟩
  have htop := hframes.trans (congrArg (_ :: ·) hbelow.symm)
  obtain ⟨m', rfl, -, hguards, -⟩ := hrestored _ base hsince false hphase htop
  refine ⟨by decide +kernel, hreaches, hphase, by decide +kernel, _, base, htop, hsince, ?_, hguards⟩
  rw [← hguards 2, hbelow]
  decide +kernel

end SpanRegex
