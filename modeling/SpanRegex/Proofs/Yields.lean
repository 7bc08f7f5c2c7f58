import SpanRegex.Proofs.Runs
import SpanRegex.Proofs.Trail

/-! # Results one after another

Part of a walk is seen as a source of results: the offsets at which it is left, one after another,
each time the rest of the walk has failed and come back for more.

* `Machine.Writes`, `Machine.Extends`, `Machine.Back`: what may have changed from the start to a
  result, while a result was in use, and until no result is left.
* `Terms`: what a source may write, what it asks of the users of its results and what it gives back.
* `Setting.Yields`: the results are a list that satisfies a condition, and the source dries up.
* `Yields.append`, `Yields.choice`, `Yields.offer`, `Yields.bind`: sources one after another, over an
  open choice, after one result over an open choice, and one for each result of another.
-/

namespace SpanRegex
set_option autoImplicit false

open Pattern (Chain)

/-! ## Terms of use -/

/-- What a source of results may change, and what it asks of those who use its results. -/
structure Terms where
  /-- The nodes whose working values it may write. -/
  own : Nat → Prop
  /-- The loops whose count stays at nothing once it is there. -/
  low : Nat → Prop
  /-- The loops whose count is kept while a result is in use. -/
  asks : Nat → Prop
  /-- The loops whose count is kept once no result is left. -/
  gives : Nat → Prop
  /-- An edge of the whole match may be pinned. -/
  pins : Prop

/-- The choice is not that of a look. -/
def Choice.passing (c : Choice) : Prop := c ≠ .require ∧ c ≠ .refuse

namespace Machine

/-- Low counts stay at nothing, and kept ones owe no more than before and have the same to spare. -/
structure Keeps (low kept : Nat → Prop) (a b : Machine) : Prop where
  low : ∀ i, low i → a.counts.get i = {} → b.counts.get i = {}
  due : ∀ i, kept i → (b.counts.get i).due.toNat ≤ (a.counts.get i).due.toNat
  spare : ∀ i, kept i → (b.counts.get i).spare = (a.counts.get i).spare

/-- Only working values of the nodes owned have been written. -/
structure Writes (t : Terms) (a b : Machine) : Prop where
  counts : ∀ i, ¬ t.own i → b.counts.get i = a.counts.get i
  starts : ∀ i, ¬ t.own i → b.starts.get i = a.starts.get i
  low : ∀ i, t.low i → a.counts.get i = {} → b.counts.get i = {}
  pins : t.pins ∨ b.startPinned = a.startPinned ∧ b.stopPinned = a.stopPinned

/-- There are further choices, none of them a look, and the guards of nodes not owned stand. -/
structure Extends (t : Terms) (base m : Machine) : Prop where
  frames : ∃ opened, m.frames = opened ++ base.frames ∧
    ∀ f ∈ opened, f.choice.passing ∧ base.trail.size ≤ f.trail
  covers : m.Covers base
  guards : ∀ i, ¬ t.own i → m.guards.get i = base.guards.get i

/-- The open choices are those of `base`, and counts have been kept. -/
structure Back (low kept : Nat → Prop) (base m : Machine) : Prop where
  frames : m.frames = base.frames
  covers : m.Covers base
  keeps : Keeps low kept base m

/-! ### Composition -/

section
variable {low kept kept' : Nat → Prop} {t t' : Terms} {a b c base : Machine}

theorem Keeps.of_eq (h : b.counts = a.counts) : Keeps low kept a b := by
  refine ⟨fun i _ hi => ?_, fun i _ => ?_, fun i _ => ?_⟩
  · rw [h, hi]
  · exact Nat.le_of_eq (by rw [h])
  · rw [h]

theorem Keeps.trans (h : Keeps low kept a b) (h' : Keeps low kept b c) : Keeps low kept a c :=
  ⟨fun i hi ha => h'.low i hi (h.low i hi ha),
    fun i hi => Nat.le_trans (h'.due i hi) (h.due i hi),
    fun i hi => (h'.spare i hi).trans (h.spare i hi)⟩

theorem Keeps.mono (h : Keeps low kept a b) (hk : ∀ i, kept' i → kept i) : Keeps low kept' a b :=
  ⟨h.low, fun i hi => h.due i (hk i hi), fun i hi => h.spare i (hk i hi)⟩

theorem Writes.of_eq (hc : b.counts = a.counts) (hs : b.starts = a.starts)
    (hstart : b.startPinned = a.startPinned) (hstop : b.stopPinned = a.stopPinned) :
    Writes t a b := by
  refine ⟨fun i _ => by rw [hc], fun i _ => by rw [hs], fun i _ hi => by rw [hc, hi], ?_⟩
  exact .inr ⟨hstart, hstop⟩

theorem Writes.refl (t : Terms) (a : Machine) : Writes t a a := .of_eq rfl rfl rfl rfl

theorem Writes.trans (h : Writes t a b) (h' : Writes t b c) : Writes t a c := by
  refine ⟨fun i hi => (h'.counts i hi).trans (h.counts i hi),
    fun i hi => (h'.starts i hi).trans (h.starts i hi),
    fun i hi ha => h'.low i hi (h.low i hi ha), ?_⟩
  rcases h.pins with hp | ⟨hstart, hstop⟩
  · exact .inl hp
  · rcases h'.pins with hp | ⟨hstart', hstop'⟩
    · exact .inl hp
    · exact .inr ⟨hstart'.trans hstart, hstop'.trans hstop⟩

theorem Writes.mono (h : Writes t a b) (hown : ∀ i, t.own i → t'.own i) (hlow : t'.low = t.low)
    (hpins : t.pins → t'.pins) : Writes t' a b :=
  ⟨fun i hi => h.counts i fun ho => hi (hown i ho), fun i hi => h.starts i fun ho => hi (hown i ho),
    fun i hi => h.low i (hlow ▸ hi), h.pins.imp_left hpins⟩

theorem Writes.keeps (h : Writes t a b) (hk : ∀ i, kept i → ¬ t.own i) : Keeps t.low kept a b := by
  refine ⟨h.low, fun i hi => ?_, fun i hi => ?_⟩
  · exact Nat.le_of_eq (by rw [h.counts i (hk i hi)])
  · rw [h.counts i (hk i hi)]

theorem Back.refl (low kept : Nat → Prop) (m : Machine) : Back low kept m m :=
  ⟨rfl, .of_eq rfl rfl, .of_eq rfl⟩

theorem Back.trans (h : Back low kept a b) (h' : Back low kept b c) : Back low kept a c :=
  ⟨h'.frames.trans h.frames, h'.covers.trans h.covers, h.keeps.trans h'.keeps⟩

theorem Back.mono (h : Back low kept a b) (hk : ∀ i, kept' i → kept i) : Back low kept' a b :=
  ⟨h.frames, h.covers, h.keeps.mono hk⟩

theorem Extends.of_eq (hf : b.frames = a.frames) (hc : b.Covers a)
    (hg : ∀ i, ¬ t.own i → b.guards.get i = a.guards.get i) : Extends t a b :=
  ⟨⟨[], hf, by simp⟩, hc, hg⟩

theorem Extends.refl (t : Terms) (m : Machine) : Extends t m m :=
  .of_eq rfl (.of_eq rfl rfl) fun _ _ => rfl

theorem Extends.trans (h : Extends t a b) (h' : Extends t b c) : Extends t a c := by
  obtain ⟨opened, hf, ho⟩ := h.frames
  obtain ⟨opened', hf', ho'⟩ := h'.frames
  refine ⟨⟨opened' ++ opened, by rw [hf', hf, List.append_assoc], ?_⟩, h'.covers.trans h.covers,
    fun i hi => (h'.guards i hi).trans (h.guards i hi)⟩
  intro f hmem
  rcases List.mem_append.1 hmem with hmem | hmem
  · exact ⟨(ho' f hmem).1, Nat.le_trans h.covers.size_le (ho' f hmem).2⟩
  · exact ho f hmem

theorem Extends.mono (h : Extends t a b) (hown : ∀ i, t.own i → t'.own i) : Extends t' a b :=
  ⟨h.frames, h.covers, fun i hi => h.guards i fun ho => hi (hown i ho)⟩

theorem Extends.push (h : Extends t a b) (cursor : Cursor) {choice : Choice}
    (hchoice : choice.passing) : Extends t a (b.push cursor choice) := by
  obtain ⟨opened, hf, ho⟩ := h.frames
  refine ⟨⟨⟨cursor, choice, b.trail.size⟩ :: opened, by simp [Machine.push, hf], ?_⟩, h.covers,
    h.guards⟩
  exact List.forall_mem_cons.2 ⟨⟨hchoice, h.covers.size_le⟩, ho⟩

end

end Machine

/-! ## Sources of results -/

/-- From the phase on, the walk is left at one offset after another, a result `e` being left at
`target e`; the list of results satisfies `spec`, and in the end the walk fails with the open
choices of `base`. -/
inductive Setting.Yields (s : Setting) (t : Terms) (target : Nat → Cursor) (base : Machine) :
    Phase → Machine → (List Nat → Prop) → Prop
  | done {phase : Phase} {m m' : Machine} {spec : List Nat → Prop}
      (run : s.Reaches phase m (.settle false) m') (writes : m.Writes t m')
      (back : base.Back t.low t.gives m') (all : spec []) : s.Yields t target base phase m spec
  | next {phase : Phase} {m m' : Machine} {spec : List Nat → Prop} (e : Nat)
      (run : s.Reaches phase m (.walk (target e)) m') (writes : m.Writes t m')
      (ext : base.Extends t m') (here : ∃ l, spec (e :: l))
      (more : ∀ m'', m'.Back t.low t.asks m'' →
        s.Yields t target base (.settle false) m'' fun l => spec (e :: l)) :
      s.Yields t target base phase m spec

namespace Setting.Yields

variable {s : Setting} {t t' : Terms} {target : Nat → Cursor} {base base' m m' : Machine}
  {phase phase' : Phase} {spec spec' : List Nat → Prop}

theorem imp (h : s.Yields t target base phase m spec) (hspec : ∀ l, spec l → spec' l) :
    s.Yields t target base phase m spec' := by
  induction h generalizing spec' with
  | done run writes back all => exact .done run writes back (hspec _ all)
  | next e run writes ext here more ih =>
    obtain ⟨l, hl⟩ := here
    exact .next e run writes ext ⟨l, hspec _ hl⟩ fun m'' hback => ih m'' hback fun l => hspec (e :: l)

theorem weaken (h : s.Yields t target base phase m spec) (hown : ∀ i, t.own i → t'.own i)
    (hlow : t'.low = t.low) (hasks : ∀ i, t.asks i → t'.asks i)
    (hgives : ∀ i, t'.gives i → t.gives i) (hpins : t.pins → t'.pins) :
    s.Yields t' target base phase m spec := by
  induction h with
  | done run writes back all =>
    refine .done run (writes.mono hown hlow hpins) ?_ all
    rw [hlow]
    exact back.mono hgives
  | next e run writes ext here more ih =>
    refine .next e run (writes.mono hown hlow hpins) (ext.mono hown) here fun m'' hback => ?_
    rw [hlow] at hback
    exact ih m'' (hback.mono hasks)

theorem after (h : s.Yields t target base phase' m' spec) (run : s.Reaches phase m phase' m')
    (writes : m.Writes t m') : s.Yields t target base phase m spec := by
  cases h with
  | done run' writes' back all => exact .done (run.trans run') (writes.trans writes') back all
  | next e run' writes' ext here more =>
    exact .next e (run.trans run') (writes.trans writes') ext here more

theorem exists_list (h : s.Yields t target base phase m spec) : ∃ l, spec l := by
  cases h with
  | done run writes back all => exact ⟨[], all⟩
  | next e run writes ext here more =>
    obtain ⟨l, hl⟩ := here
    exact ⟨e :: l, hl⟩

theorem one {e : Nat} (hgives : ∀ i, t.gives i → t.asks i) (back : base.Back t.low t.gives m)
    (hguards : ∀ i, ¬ t.own i → m.guards.get i = base.guards.get i) (hspec : spec [e]) :
    s.Yields t target base (.walk (target e)) m spec := by
  refine .next e (.refl _ _) (.refl t m) (.of_eq back.frames back.covers hguards) ⟨[], hspec⟩ ?_
  intro m'' hback
  exact .done (.refl _ _) (.refl t m'') (back.trans (hback.mono hgives)) hspec

/-- The results of one list, then those of another. -/
def Then (spec spec' : List Nat → Prop) (l : List Nat) : Prop :=
  ∃ l₁ l₂, spec l₁ ∧ spec' l₂ ∧ l = l₁ ++ l₂

/-- When a source over more choices has dried up, another one follows. -/
theorem append {kept : Nat → Prop} (hext : base.Extends t base')
    (h : s.Yields { t with gives := kept } target base' phase m spec)
    (hrest : ∀ m'', base'.Back t.low kept m'' →
      s.Yields t target base (.settle false) m'' spec') :
    s.Yields t target base phase m (Then spec spec') := by
  induction h with
  | done run writes back all =>
    refine ((hrest _ back).imp fun l hl => ?_).after run (writes.mono (fun _ => id) rfl id)
    exact ⟨[], l, all, hl, rfl⟩
  | next e run writes ext here more ih =>
    obtain ⟨l, hl⟩ := here
    obtain ⟨l', hl'⟩ := (hrest base' (.refl _ _ _)).exists_list
    refine .next e run (writes.mono (fun _ => id) rfl id) (hext.trans (ext.mono fun _ => id))
      ⟨l ++ l', e :: l, l', hl, hl', rfl⟩ fun m'' hback => ?_
    refine (ih m'' hback).imp ?_
    rintro _ ⟨l₁, l₂, h₁, h₂, rfl⟩
    exact ⟨e :: l₁, l₂, h₁, h₂, rfl⟩

theorem rebase (h : s.Yields t target base' phase m spec) (back : base.Back t.low t.gives base')
    (hguards : ∀ i, ¬ t.own i → base'.guards.get i = base.guards.get i) :
    s.Yields t target base phase m spec := by
  have hrest : ∀ m'', base'.Back t.low t.gives m'' →
      s.Yields t target base (.settle false) m'' fun l => l = [] := fun m'' hback =>
    .done (.refl _ _) (.refl t m'') (back.trans hback) rfl
  refine (append (.of_eq back.frames back.covers hguards) h hrest).imp ?_
  rintro _ ⟨l, _, hl, rfl, rfl⟩
  simpa using hl

end Setting.Yields

/-! ## Over an open choice -/

namespace Machine

/-- The open choices, the trail and the guards are those of `base`. -/
structure Restores (base m : Machine) : Prop where
  frames : m.frames = base.frames
  trail : m.trail = base.trail
  guards : m.guards.get = base.guards.get

theorem Restores.trans {a b c : Machine} (h : a.Restores b) (h' : b.Restores c) : a.Restores c :=
  ⟨h'.frames.trans h.frames, h'.trail.trans h.trail, h'.guards.trans h.guards⟩

theorem Restores.covers {base m : Machine} (h : base.Restores m) : m.Covers base :=
  .of_eq h.trail h.guards

/-- Going back to the latest choice restores the machine at which it was opened; counts, starts and
pins stay. -/
theorem settle_push {base m : Machine} {c : Cursor} {choice : Choice}
    (hframes : m.frames = (base.push c choice).frames) (hcovers : m.Covers base) :
    ∃ m', base.Restores m' ∧ m'.counts = m.counts ∧ m'.starts = m.starts ∧
      m'.startPinned = m.startPinned ∧ m'.stopPinned = m.stopPinned ∧
      m.settle true = .going (m'.accept c choice).1 (m'.accept c choice).2 ∧
      m.settle false = .going (m'.retry c choice).1 (m'.retry c choice).2 := by
  have hframes' : m.frames = ⟨c, choice, base.trail.size⟩ :: base.frames := hframes
  have hpopped : ({ m with frames := base.frames }).Covers base := hcovers
  refine ⟨({ m with frames := base.frames }).unwind base.trail.size,
    ⟨by simp, hpopped.unwind_self.1, hpopped.unwind_self.2⟩, by simp, by simp, by simp, by simp,
    ?_, ?_⟩
  · simp only [settle, hframes']
    rfl
  · simp only [settle, hframes']
    rfl

end Machine

namespace Setting.Yields

variable {s : Setting} {t : Terms} {target : Nat → Cursor} {base m : Machine} {phase : Phase}
  {spec spec' : List Nat → Prop}

/-- Going back to a choice tries it again, from the machine at which it was opened. -/
theorem retried {before : Machine} {c : Cursor} {choice : Choice} {kept : Nat → Prop}
    (hrest : ∀ m', before.Restores m' → before.Keeps t.low kept m' →
      m'.Writes t (m'.retry c choice).2 ∧ s.Yields t target base (m'.retry c choice).1 (m'.retry c choice).2 spec)
    (hback : (before.push c choice).Back t.low kept m) : s.Yields t target base (.settle false) m spec := by
  obtain ⟨m', hrestores, hcounts, hstarts, hstart, hstop, -, hsettle⟩ :=
    Machine.settle_push hback.frames hback.covers
  have hpush : before.Keeps t.low kept (before.push c choice) := .of_eq rfl
  have hkeeps : before.Keeps t.low kept m' := hpush.trans (hback.keeps.trans (.of_eq hcounts))
  have hwrites : m.Writes t m' := .of_eq hcounts hstarts hstart hstop
  obtain ⟨hwrites', hyields⟩ := hrest m' hrestores hkeeps
  exact hyields.after (.turn hsettle (.refl _ _)) (hwrites.trans hwrites')

/-- When a source over an open choice has dried up, the choice is tried again. -/
theorem choice {before : Machine} {c : Cursor} {choice : Choice} {kept : Nat → Prop}
    (hpass : choice.passing) (hext : base.Extends t before)
    (h : s.Yields { t with gives := kept } target (before.push c choice) phase m spec)
    (hrest : ∀ m', before.Restores m' → before.Keeps t.low kept m' →
      m'.Writes t (m'.retry c choice).2 ∧ s.Yields t target base (m'.retry c choice).1 (m'.retry c choice).2 spec') :
    s.Yields t target base phase m (Then spec spec') :=
  append (hext.push c hpass) h fun _ hback => retried hrest hback

/-- One result over an open choice; then the choice is tried again. -/
theorem offer {before : Machine} {c : Cursor} {choice : Choice} {e : Nat}
    (hpass : choice.passing) (hext : base.Extends t before)
    (hrest : ∀ m', before.Restores m' → before.Keeps t.low t.asks m' →
      m'.Writes t (m'.retry c choice).2 ∧ s.Yields t target base (m'.retry c choice).1 (m'.retry c choice).2 spec) :
    s.Yields t target base (.walk (target e)) (before.push c choice) (Then (fun l => l = [e]) spec) := by
  obtain ⟨l, hl⟩ := (hrest before ⟨rfl, rfl, rfl⟩ (.of_eq rfl)).2.exists_list
  refine .next e (.refl _ _) (.refl t _) (hext.push c hpass) ⟨l, [e], l, rfl, hl, rfl⟩ fun m'' hback => ?_
  exact (retried hrest hback).imp fun l hl => ⟨[e], l, rfl, hl, rfl⟩

end Setting.Yields

/-! ## One source for each result of another -/

/-- A list for each result, one after another. -/
inductive Each (next : Nat → List Nat → Prop) : List Nat → List Nat → Prop
  | nil : Each next [] []
  | cons {e : Nat} {es l ls : List Nat} (head : next e l) (tail : Each next es ls) :
      Each next (e :: es) (l ++ ls)

/-- The results of the sources that start at the results of another. -/
def Chained (spec : List Nat → Prop) (next : Nat → List Nat → Prop) (l : List Nat) : Prop :=
  ∃ es, spec es ∧ Each next es l

/-- The terms of a source that is followed by another at each of its results. -/
structure Terms.Joins (t first second : Terms) : Prop where
  own : ∀ i, first.own i ∨ second.own i → t.own i
  low : first.low = t.low ∧ second.low = t.low
  used : ∀ i, first.asks i → second.gives i
  asks : ∀ i, second.asks i → t.asks i
  gives : ∀ i, t.gives i → first.gives i
  pins : first.pins ∨ second.pins → t.pins

namespace Setting.Yields

variable {s : Setting} {t first second : Terms} {mid target : Nat → Cursor} {base m : Machine}
  {phase : Phase} {spec : List Nat → Prop} {next : Nat → List Nat → Prop}

/-- A source of its own at each result; `inv` relates the results that are still to come and the
machine. -/
theorem bind_inv (inv : (List Nat → Prop) → Machine → Prop) (joins : t.Joins first second)
    (h : s.Yields first mid base phase m spec) (hinv : inv spec m)
    (hwrites : ∀ spec a b, inv spec a → a.Writes first b → inv spec b)
    (hback : ∀ spec e a b, inv spec a → (∃ l, spec (e :: l)) → a.Back first.low first.asks b →
      inv (fun l => spec (e :: l)) b)
    (hnext : ∀ spec e m', inv spec m' → (∃ l, spec (e :: l)) → base.Extends first m' →
      s.Yields second target m' (.walk (mid e)) m' (next e)) :
    s.Yields t target base phase m (Chained spec next) := by
  obtain ⟨hown, ⟨hlow, hlow'⟩, hused, hasks, hgives, hpins⟩ := joins
  induction h with
  | done run writes back all =>
    refine .done run (writes.mono (fun i hi => hown i (.inl hi)) hlow.symm fun hp => hpins (.inl hp))
      ?_ ⟨[], all, .nil⟩
    rw [← hlow]
    exact back.mono hgives
  | next e run writes ext here more ih =>
    rename_i phase m m' spec
    have hinv' := hwrites spec m m' hinv writes
    have hsource : s.Yields { t with gives := first.asks } target m' (.walk (mid e)) m' (next e) :=
      (hnext spec e m' hinv' here ext).weaken (fun i hi => hown i (.inr hi)) hlow'.symm hasks hused
        fun hp => hpins (.inr hp)
    have happend := append (ext.mono fun i hi => hown i (.inl hi)) hsource fun m'' hm'' => by
      rw [← hlow] at hm''
      exact ih m'' hm'' (hback spec e m' m'' hinv' here hm'')
    refine (happend.imp ?_).after run
      (writes.mono (fun i hi => hown i (.inl hi)) hlow.symm fun hp => hpins (.inl hp))
    rintro _ ⟨l, ls, hl, ⟨es, hes, heach⟩, rfl⟩
    exact ⟨e :: es, hes, .cons hl heach⟩

/-- The condition allows for the offset among the results. -/
def Reports (spec : List Nat → Prop) (e : Nat) : Prop := ∃ l l', spec (l ++ e :: l')

/-- A source of its own at each result, where `held` holds of the machine at each of them: users
keep it, or there is at most one result. -/
theorem bind (held : Machine → Prop) (joins : t.Joins first second)
    (h : s.Yields first mid base phase m spec) (hheld : held m)
    (hwrites : ∀ a b, held a → a.Writes first b → held b)
    (hkept : (∀ l, spec l → l.length ≤ 1) ∨
      ∀ a b, held a → a.Back first.low first.asks b → held b)
    (hnext : ∀ e m', held m' → Reports spec e → base.Extends first m' →
      s.Yields second target m' (.walk (mid e)) m' (next e)) :
    s.Yields t target base phase m (Chained spec next) := by
  -- What is still to come completes a list of results; nothing, or what holds of the machine.
  refine bind_inv (fun spec' m' => (∃ l, ∀ l', spec' l' → spec (l ++ l')) ∧
    ((∀ l', spec' l' → l' = []) ∨ held m')) joins h ⟨⟨[], fun _ => id⟩, .inr hheld⟩ ?_ ?_ ?_
  · rintro spec' a b ⟨hpart, hheld⟩ hab
    exact ⟨hpart, hheld.imp_right fun ha => hwrites a b ha hab⟩
  · rintro spec' e a b ⟨⟨l, hpart⟩, hheld⟩ ⟨l', hl'⟩ hab
    refine ⟨⟨l ++ [e], fun l'' hl'' => by simpa using hpart _ hl''⟩, ?_⟩
    rcases hkept with hone | hkeep
    · refine .inl fun l'' hl'' => ?_
      have hlen := hone _ (hpart _ hl'')
      simp only [List.length_append, List.length_cons] at hlen
      exact List.eq_nil_of_length_eq_zero (by omega)
    · rcases hheld with hnil | ha
      · exact absurd (hnil _ hl') (by simp)
      · exact .inr (hkeep a b ha hab)
  · rintro spec' e m' ⟨⟨l, hpart⟩, hheld⟩ ⟨l', hl'⟩ hext
    rcases hheld with hnil | hm'
    · exact absurd (hnil _ hl') (by simp)
    · exact hnext e m' hm' ⟨l, l', hpart _ hl'⟩ hext

theorem bind_any (joins : t.Joins first second) (h : s.Yields first mid base phase m spec)
    (hnext : ∀ e m', Reports spec e → s.Yields second target m' (.walk (mid e)) m' (next e)) :
    s.Yields t target base phase m (Chained spec next) :=
  bind (fun _ => True) joins h trivial (fun _ _ _ _ => trivial) (.inr fun _ _ _ _ => trivial)
    fun e m' _ hreports _ => hnext e m' hreports

end Setting.Yields

/-! ## The first result -/

/-- Success goes through all choices but those of looks. -/
theorem Setting.accept_passing (s : Setting) {base : Machine} (opened : List Frame) :
    ∀ m : Machine, m.frames = opened ++ base.frames →
      (∀ f ∈ opened, f.choice.passing ∧ base.trail.size ≤ f.trail) → m.Covers base →
      ∃ m', s.Reaches (.settle true) m (.settle true) m' ∧ m'.frames = base.frames ∧
        m'.Covers base ∧ m'.counts = m.counts ∧ m'.starts = m.starts ∧
        m'.startPinned = m.startPinned ∧ m'.stopPinned = m.stopPinned ∧
        m'.captures = m.captures := by
  induction opened with
  | nil =>
    intro m hframes _ hcovers
    exact ⟨m, .refl _ _, hframes, hcovers, rfl, rfl, rfl, rfl, rfl⟩
  | cons f opened ih =>
    intro m hframes hopened hcovers
    obtain ⟨⟨⟨hrequire, hrefuse⟩, htrail⟩, hopened⟩ := List.forall_mem_cons.1 hopened
    have hpopped : ({ m with frames := opened ++ base.frames }).Covers base := hcovers
    obtain ⟨m', hruns, hf, hc, hcounts, hstarts, hstart, hstop, hcaptures⟩ :=
      ih (({ m with frames := opened ++ base.frames }).unwind f.trail) (by simp) hopened
        (hpopped.unwind htrail)
    refine ⟨m', .turn ?_ hruns, hf, hc, by simpa using hcounts, by simpa using hstarts,
      by simpa using hstart, by simpa using hstop, by simpa using hcaptures⟩
    rw [List.cons_append] at hframes
    simp only [turn, Machine.settle, hframes, if_true]
    cases hchoice : f.choice <;> first | rfl | contradiction

/-- A source has no result, or it has a first one. -/
theorem Setting.Yields.first {s : Setting} {t : Terms} {target : Nat → Cursor} {base m : Machine}
    {phase : Phase} {spec : List Nat → Prop} (h : s.Yields t target base phase m spec) :
    (spec [] ∧ ∃ m', s.Reaches phase m (.settle false) m' ∧ m.Writes t m' ∧
      base.Back t.low t.gives m') ∨
    ∃ e, (∃ l, spec (e :: l)) ∧ ∃ m', s.Reaches phase m (.walk (target e)) m' ∧ m.Writes t m' ∧
      base.Extends t m' := by
  cases h with
  | done run writes back all => exact .inl ⟨all, _, run, writes, back⟩
  | next e run writes ext here more => exact .inr ⟨e, here, _, run, writes, ext⟩

end SpanRegex
