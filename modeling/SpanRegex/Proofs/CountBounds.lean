import SpanRegex.Proofs.Endless
import SpanRegex.Proofs.OpenCounts
import SpanRegex.Proofs.Repetition

/-! # Bounds of counts

What is due to a loop never exceeds its minimum. What it has to spare never exceeds its maximum less the
minimum either, as long as no loop around it goes round more than once: a choice of an earlier round of that
one would give its repetition back to a later round.

* `Tallied.down`, `Tallied.loop`, `Tallied.settleForLess`, `Tallied.oneMore`: what the turns preserve that open
  choices or write counts; `tallied_turn`.
* `Setting.Meets`: the states that the attempts of a search come to; `Meets.tallied`.
* `counts_bounded`: the counts stay in range, and no repetition that is given back makes them overflow.
* `counts_overrun`: a loop in a loop that goes round again has more to spare than it should.
-/

namespace SpanRegex
set_option autoImplicit false

open Pattern (Chain Container Quantifier aheadOf lone)

/-! ## Turns -/

section

variable {tree : Chain} {below : List Frame} {f : Frame} {m m' : Machine} {c c' : Cursor} {id n pos : Nat}
  {q : Quantifier} {op : Container} {body next : Chain} {choice : Option Choice} {inward : Bool} {k : Count}

theorem walk_opened (hnodup : tree.ids.Nodup) (hc : c.AtNode tree)
    (hover : Over m.frames c.outlook c.active) (hlayered : Layered m.frames)
    (hframes : m'.frames = opened c choice n m.frames) (hkept : choice ≠ none → c.kept.Within c.outlook)
    (hnext : c'.outlook.Within c.outlook) (hown : c'.outlook.Within c.kept)
    (hoffers : choice = some .oneMore → c'.outlook.returns ⊆ Chain.heads c.above)
    (hagain : choice = some .again → ∀ id q body next, c.chain = .box id (.loop q) body next → q.max = none)
    (hbacked : ∀ {id q body next}, .box id (.loop q) body next ∈ c'.active → q.min = 0 → q.max ≠ none →
      .box id (.loop q) body next ∈ c.active ∨ ∃ choice' ∈ choice, Frame.counts ⟨c, choice', n⟩ id = true) :
    Over m'.frames c'.outlook c'.active ∧ Layered m'.frames := by
  have hsub : m.frames ⊆ m'.frames := by
    rw [hframes]
    cases choice with
    | none => exact List.Subset.refl _
    | some choice => exact List.subset_cons_self _ _
  have hbacked' : ∀ {id q body next}, .box id (.loop q) body next ∈ c'.active → q.min = 0 → q.max ≠ none →
      ∃ g ∈ m'.frames, g.counts id = true := by
    intro id q body next hmem hmin hmax
    rcases hbacked hmem hmin hmax with hmem | ⟨choice', hchoice, hcounts⟩
    · obtain ⟨g, hg, hcounts⟩ := hover.backed hmem hmin hmax
      exact ⟨g, hsub hg, hcounts⟩
    · refine ⟨_, ?_, hcounts⟩
      rw [hframes, Option.mem_def.1 hchoice]
      exact List.mem_cons_self
  refine ⟨⟨fun g hg => ?_, hbacked'⟩, ?_⟩
  · rw [hframes] at hg
    rcases mem_opened hg with hg | ⟨choice', hchoice, rfl⟩
    · exact (hover.bars g hg).within hnext
    · exact bars_own hnodup hc hown fun heq => hoffers (heq ▸ Option.mem_def.1 hchoice)
  · rw [hframes]
    cases choice with
    | none => exact hlayered
    | some choice =>
      have hbelow := hover.move (hkept (by simp)) fun x hx => .inl (Cursor.mem_active_of_above hx)
      exact ⟨⟨hbelow, fun heq => hagain (congrArg some heq)⟩, hlayered⟩

namespace Machine.Tallied

theorem down (hnodup : tree.ids.Nodup) (hm : m.Tallied tree (.walk c))
    (hplaces : m'.Spread (Cursor.Stands tree) (Cursor.AtNode tree) (.walk (c.descend body pos)))
    (here : c.chain = .box id op body next) (entering : c.entering = true) (plain : ∀ q, op ≠ .loop q)
    (uncounted : ∀ opened ∈ choice, opened = .require ∨ opened = .refuse ∨ opened = .skip)
    (frames : m'.frames = opened c choice n m.frames) (counts : m'.counts = m.counts) :
    m'.Tallied tree (.walk (c.descend body pos)) := by
  have hc : c.AtNode tree := (hm.places.1 c rfl).resolve_left (by simp [here])
  have hkept := Cursor.kept_outlook entering
  have hown := Cursor.outlook_descend_kept here pos
  have hplain : ∀ choice' ∈ choice, (choice' ≠ .settleForLess ∧ choice' ≠ .giveBack) ∧ choice' ≠ .oneMore ∧
      choice' ≠ .again := by
    intro choice' hchoice
    rcases uncounted choice' hchoice with rfl | rfl | rfl <;> simp
  have hbacked : ∀ {id' q' body' next'}, .box id' (.loop q') body' next' ∈ (c.descend body pos).active →
      .box id' (.loop q') body' next' ∈ c.active := by
    intro id' q' body' next' hmem
    rcases List.mem_cons.1 hmem with heq | hmem
    · rw [here] at heq
      exact absurd (Chain.box.inj heq).2.1.symm (plain q')
    · exact Cursor.mem_active_of_above hmem
  obtain ⟨hover, hlayered⟩ := walk_opened hnodup hc (hm.walk c rfl) hm.layered frames (fun _ => hkept)
    (hown.trans hkept) hown (fun heq => absurd rfl (hplain _ heq).2.1)
    (fun heq => absurd rfl (hplain _ heq).2.2) fun hmem _ _ => .inl (hbacked hmem)
  refine ⟨hplaces, fun c' hc' => Phase.walk.inj hc' ▸ hover, hlayered, fun hplace =>
    (hm.counted hplace).same (by rw [counts]) ?_ fun f hf hoffers => ?_⟩
  · rw [frames]
    exact Nat.le_of_eq (countP_opened fun choice' h => not_counts (hplain choice' h).1.1 (hplain choice' h).1.2)
  · rw [frames] at hf
    exact (offers_opened hf hoffers).resolve_right fun h => (hplain _ h.1).2.1 rfl

section

variable (hm : m.Tallied tree (.walk c)) (here : c.chain = .box id (.loop q) body next)
  (decides : q.Decides (if c.entering then q.entry else m.counts.get id) k choice inward)

include hm here decides

/-- A loop opens a choice or goes inward only where it is entered or may go round again. -/
theorem kept_of_goes (hgoes : choice ≠ none ∨ inward = true) : c.kept.Within c.outlook := by
  cases hentering : c.entering with
  | true => exact Cursor.kept_outlook hentering
  | false =>
    simp only [hentering, Bool.false_eq_true, if_false] at decides
    refine Cursor.kept_outlook_loop here fun hagain => ?_
    obtain ⟨hnone, hleft⟩ := hm.spent_of_once here hentering hagain.1 hagain.2 decides
    simp [hnone, hleft] at hgoes

/-- A loop that owes nothing goes inward over a choice that counts. -/
theorem backed_onward {id' : Nat} {q' : Quantifier} {body' next' : Chain}
    (hmem : .box id' (.loop q') body' next' ∈ (c.onward body next inward).active) (hmin : q'.min = 0)
    (hmax : q'.max ≠ none) : .box id' (.loop q') body' next' ∈ c.active ∨
      ∃ choice' ∈ choice, Frame.counts ⟨c, choice', n⟩ id' = true := by
  cases inward with
  | false =>
    rcases Cursor.mem_active_leave hmem with hmem | hnil
    · exact .inl (Cursor.mem_active_of_above hmem)
    · cases hnil
  | true =>
    rcases List.mem_cons.1 hmem with heq | hmem
    · rw [here] at heq
      obtain ⟨rfl, hq, -, -⟩ := Chain.box.inj heq
      obtain rfl := Container.loop.inj hq
      cases decides with
      | owed due =>
        exfalso
        cases hentering : c.entering with
        | true =>
          rw [hentering] at due
          exact due hmin
        | false =>
          rw [hentering] at due
          have hdue := (hm.counted_here here).due
          rw [hmin] at hdue
          exact due (UInt32.toNat_inj.1 (Nat.eq_zero_of_le_zero hdue))
      | free _ unbounded => exact absurd unbounded hmax
      | take => exact .inr ⟨.settleForLess, rfl, by simp [Frame.counts, here, Chain.head?]⟩
    · exact .inl (Cursor.mem_active_of_above hmem)

/-- The count of the loop is the one that the visit leaves; the others stay. -/
theorem counted_loop (hnodup : tree.ids.Nodup) (frames : m'.frames = opened c choice n m.frames)
    (counts : m.Writes1 m' id k) {id' : Nat} {q' : Quantifier} {body' next' : Chain} {above : List Chain}
    (hplace : (.box id' (.loop q') body' next', above) ∈ tree.places []) : Counted m' id' q' above := by
  have hcount := counts id'
  split at hcount
  · subst id'
    have hc := hm.atNode here
    unfold Cursor.AtNode at hc
    rw [here] at hc
    obtain ⟨hbox, rfl⟩ := Chain.place_unique hnodup hplace hc rfl
    obtain ⟨-, hq, -, -⟩ := Chain.box.inj hbox
    obtain rfl := Container.loop.inj hq
    exact hm.counted_visit hnodup here decides frames hcount
  · rename_i hne
    have hother : c.chain.head? ≠ some id' := by
      rw [here]
      exact fun heq => hne (Option.some.inj heq)
    refine (hm.counted hplace).same hcount ?_ fun f hf hoffered => ?_
    · rw [frames]
      exact Nat.le_of_eq (countP_opened fun _ _ hcounts => hother (Frame.head_of_counts hcounts))
    · rw [frames] at hf
      exact (offers_opened hf hoffered).resolve_right fun h => hother h.2

theorem loop (hnodup : tree.ids.Nodup)
    (hplaces : m'.Spread (Cursor.Stands tree) (Cursor.AtNode tree) (.walk (c.onward body next inward)))
    (frames : m'.frames = opened c choice n m.frames) (counts : m.Writes1 m' id k) :
    m'.Tallied tree (.walk (c.onward body next inward)) := by
  have hc := hm.atNode here
  have hkept := hm.kept_of_goes here decides
  have hnext : next = c.chain.tail ∨ next = .nil := .inl (by rw [here]; rfl)
  have hown : (c.onward body next inward).outlook.Within c.kept := by
    cases inward with
    | true => exact Cursor.outlook_descend_kept here _
    | false => exact Cursor.outlook_leave_kept hnext _
  have hwithin : (c.onward body next inward).outlook.Within c.outlook := by
    cases hinward : inward with
    | true => exact (hinward ▸ hown).trans (hkept (.inr hinward))
    | false => exact Cursor.outlook_leave hnext (by simp [here, Chain.isLook]) _
  have hoffers : choice = some .oneMore → (c.onward body next inward).outlook.returns ⊆ Chain.heads c.above := by
    rintro rfl
    cases decides with
    | free _ _ uncounted => simp at uncounted
    | offer => exact Cursor.active_leave_subset c next c.pos
  have hagain : choice = some .again →
      ∀ id q body next, c.chain = .box id (.loop q) body next → q.max = none := by
    rintro rfl id' q' body' next' heq
    rw [here] at heq
    obtain ⟨-, hq, -, -⟩ := Chain.box.inj heq
    obtain rfl := Container.loop.inj hq
    cases decides with
    | free _ unbounded => exact unbounded
  obtain ⟨hover, hlayered⟩ := walk_opened hnodup hc (hm.walk c rfl) hm.layered frames
    (fun hne => hkept (.inl hne)) hwithin hown hoffers hagain (hm.backed_onward here decides)
  exact ⟨hplaces, fun c' hc' => Phase.walk.inj hc' ▸ hover, hlayered,
    hm.counted_loop here decides hnodup frames counts⟩

end

section

variable (hnodup : tree.ids.Nodup) (hm : m.Tallied tree (.settle false)) (frames : m.frames = f :: below)
  (opens : m'.frames = ⟨f.cursor, .giveBack, n⟩ :: below)

include hnodup hm frames opens

theorem settleForLess (hplaces : m'.Spread (Cursor.Stands tree) (Cursor.AtNode tree) (.walk f.cursor.proceed))
    (choice : f.choice = .settleForLess) (counts : m'.counts = m.counts) :
    m'.Tallied tree (.walk f.cursor.proceed) := by
  have hlayered := hm.layered
  rw [frames] at hlayered
  obtain ⟨⟨hover, -⟩, hrest⟩ := hlayered
  obtain ⟨hne, hf⟩ := hm.places.2 f (by rw [frames]; exact List.mem_cons_self)
  have hbars := bars_own (n := n) hnodup hf (Cursor.outlook_proceed_kept hne) fun h : Choice.giveBack = _ => nomatch h
  refine ⟨hplaces, fun c' hc' => ?_, ?_, fun hplace => (hm.counted hplace).same (by rw [counts]) ?_ ?_⟩
  · obtain rfl := Phase.walk.inj hc'
    rw [opens]
    exact (hover.proceed hne).push hbars
  · rw [opens]
    exact ⟨⟨hover, by simp⟩, hrest⟩
  · refine Nat.le_of_eq ?_
    simp only [opens, frames, List.countP_cons, Frame.counts, choice]
    rfl
  · intro g hg hoffers
    rw [opens] at hg
    rcases List.mem_cons.1 hg with rfl | hg
    · simp [Frame.offers] at hoffers
    · rw [frames]
      exact List.mem_cons_of_mem _ hg

/-- Only the count of the loop changes; no other choice of it offers one more repetition. -/
theorem counted_oneMore (here : f.cursor.chain = .box id (.loop q) body next) (choice : f.choice = .oneMore)
    (counts : m.Writes1 m' id (m.counts.get id).less) {id' : Nat} {q' : Quantifier} {body' next' : Chain}
    {above : List Chain} (hplace : (.box id' (.loop q') body' next', above) ∈ tree.places []) :
    Counted m' id' q' above := by
  have hlayered := hm.layered
  rw [frames] at hlayered
  obtain ⟨⟨hover, -⟩, -⟩ := hlayered
  have hmem : f ∈ m.frames := by rw [frames]; exact List.mem_cons_self
  have hf := (hm.places.2 f hmem).2
  have hhead : f.cursor.chain.head? = some id := by rw [here]; rfl
  have hoffers : f.offers id = true := by simp [Frame.offers, choice, hhead]
  -- The loop would be returned to from its own choice.
  have hlast : id ∉ aheadOf f.cursor.above → ∀ g ∈ below, ¬ g.offers id = true := by
    intro hid g hg hoffered
    have hg' := hm.places.2 g (by rw [frames]; exact List.mem_cons_of_mem _ hg)
    have habove := above_eq hnodup hf hg'.2 hhead (Frame.head_of_offers hoffered)
    exact (hover.bars g hg id (habove ▸ hid)).2 hoffered (Cursor.head_mem_kept hhead)
  have hcounted := hm.counted hplace
  have hcount := counts id'
  split at hcount
  · subst id'
    refine hcounted.oneMore frames hoffers opens hcount fun hcase => ?_
    rcases hcase with hspare | hid
    · exact absurd (hcounted.of_spare_zero hspare).1 (hcounted.offered (Or.inl hspare) f hmem hoffers)
    · obtain ⟨-, rfl⟩ := Chain.place_unique hnodup hplace hf hhead.symm
      exact hlast hid
  · rename_i hne
    have hother : f.cursor.chain.head? ≠ some id' := by
      rw [hhead]
      exact fun heq => hne (Option.some.inj heq)
    have hnot : ¬ Frame.counts ⟨f.cursor, .giveBack, n⟩ id' = true := by simp [Frame.counts, hother]
    refine hcounted.same hcount ?_ fun g hg hoffered => ?_
    · simp only [opens, frames, List.countP_cons, hnot, Bool.false_eq_true, if_false]
      omega
    · rw [opens] at hg
      rcases List.mem_cons.1 hg with rfl | hg
      · exact absurd (Frame.head_of_offers hoffered) hother
      · rw [frames]
        exact List.mem_cons_of_mem _ hg

theorem oneMore (here : f.cursor.chain = .box id (.loop q) body next)
    (hplaces : m'.Spread (Cursor.Stands tree) (Cursor.AtNode tree) (.walk (f.cursor.descend body f.cursor.pos)))
    (choice : f.choice = .oneMore) (counts : m.Writes1 m' id (m.counts.get id).less) :
    m'.Tallied tree (.walk (f.cursor.descend body f.cursor.pos)) := by
  have hlayered := hm.layered
  rw [frames] at hlayered
  obtain ⟨⟨hover, -⟩, hrest⟩ := hlayered
  have hf := (hm.places.2 f (by rw [frames]; exact List.mem_cons_self)).2
  have hhead : f.cursor.chain.head? = some id := by rw [here]; rfl
  have hwithin := Cursor.outlook_descend_kept here f.cursor.pos
  have hbars := bars_own (n := n) hnodup hf hwithin fun h : Choice.giveBack = _ => nomatch h
  refine ⟨hplaces, fun c' hc' => ?_, ?_, hm.counted_oneMore hnodup frames opens here choice counts⟩
  · obtain rfl := Phase.walk.inj hc'
    rw [opens]
    refine ((hover.move hwithin fun x hx => .inl hx).push hbars).enter fun id' q' body' next' heq _ _ => ?_
    rw [here] at heq
    obtain ⟨rfl, -, -, -⟩ := Chain.box.inj heq
    exact ⟨_, List.mem_cons_self, by simp [Frame.counts, hhead]⟩
  · rw [opens]
    exact ⟨⟨hover, by simp⟩, hrest⟩

end

end Machine.Tallied

theorem tallied_turn {s : Setting} {phase phase' : Phase} (hnodup : tree.ids.Nodup)
    (h : s.turn m phase = .going phase' m') (hm : m.Tallied tree phase) : m'.Tallied tree phase' := by
  have hplaces := (Setting.move_of_turn h).spread (s.spreads_stands tree) hm.places
  have hlayered := hm.layered
  cases Setting.tally_of_turn h with
  | still frames counts =>
    exact ⟨hplaces, by simp, by rwa [frames], fun hplace => (hm.counted hplace).same (by rw [counts])
      (Nat.le_of_eq (by rw [frames])) (by rw [frames]; exact fun f hf _ => hf)⟩
  | @past c _ _ onto pos onto_eq look frames counts =>
    refine ⟨hplaces, fun c' hc' => ?_, by rwa [frames], fun hplace => (hm.counted hplace).same (by rw [counts])
      (Nat.le_of_eq (by rw [frames])) (by rw [frames]; exact fun f hf _ => hf)⟩
    obtain rfl := Phase.walk.inj hc'
    rw [frames]
    exact (hm.walk c rfl).move (Cursor.outlook_leave onto_eq look pos) fun x hx =>
      (Cursor.mem_active_leave hx).imp_left Cursor.mem_active_of_above
  | down choice here entering plain uncounted frames counts =>
    exact hm.down hnodup hplaces here entering plain uncounted frames counts
  | loop here decides frames counts => exact hm.loop here decides hnodup hplaces frames counts
  | drop frames counts =>
    rw [frames] at hlayered
    exact ⟨hplaces, by simp, hlayered.2, fun hplace => (hm.counted hplace).pop (by rw [counts]) frames⟩
  | @giveBack f _ _ id frames choice here counts =>
    rw [frames] at hlayered
    refine ⟨hplaces, by simp, hlayered.2, fun {id' q' body' next' above'} hplace => ?_⟩
    have hcount := counts id'
    split at hcount
    · subst id'
      exact (hm.counted hplace).giveBack frames (by simp [Frame.counts, choice, here]) hcount
    · exact (hm.counted hplace).pop hcount frames
  | @resume f _ _ success frames counts =>
    rw [frames] at hlayered
    have hne := (hm.places.2 f (by rw [frames]; exact List.mem_cons_self)).1
    refine ⟨hplaces, fun c' hc' => ?_, hlayered.2, fun hplace => (hm.counted hplace).pop (by rw [counts]) frames⟩
    obtain rfl := Phase.walk.inj hc'
    exact hlayered.1.1.proceed hne
  | @again f _ _ id q body next frames choice here counts =>
    rw [frames] at hlayered
    obtain ⟨⟨hover, hunbounded⟩, hrest⟩ := hlayered
    refine ⟨hplaces, fun c' hc' => ?_, hrest, fun hplace => (hm.counted hplace).pop (by rw [counts]) frames⟩
    obtain rfl := Phase.walk.inj hc'
    exact (hover.move (Cursor.outlook_descend_kept here _) fun x hx => .inl hx).enter
      fun id' q' body' next' heq _ hmax => absurd (hunbounded choice _ _ _ _ heq) hmax
  | settle frames choice opens counts => exact hm.settleForLess hnodup frames opens hplaces choice counts
  | oneMore frames choice here opens counts => exact hm.oneMore hnodup frames opens here hplaces choice counts

end

/-! ## Searches -/

/-- The states that the attempts of a search come to, at whatever offsets they are made. -/
inductive Setting.Meets (s : Setting) : Phase → Machine → Prop
  | first (pos : Nat) : s.Meets (.walk (.start s.pattern.tree pos)) (Machine.ready {})
  | turn {phase phase' : Phase} {m m' : Machine} (met : s.Meets phase m)
      (going : s.turn m phase = .going phase' m') : s.Meets phase' m'
  | next {phase : Phase} {m m' : Machine} {v : Verdict} (met : s.Meets phase m)
      (decided : s.turn m phase = .over v m') (pos : Nat) : s.Meets (.walk (.start s.pattern.tree pos)) m'.ready

namespace Setting

variable {s : Setting} {phase phase' : Phase} {m m' : Machine}

theorem Meets.reaches (hm : s.Meets phase m) (h : s.Reaches phase m phase' m') : s.Meets phase' m' := by
  induction h with
  | refl => exact hm
  | turn first _ ih => exact ih (hm.turn first)

theorem meets_after (n : Nat) {phase : Phase} {m : Machine} (hm : s.Meets phase m)
    (h : s.after n phase m = some (phase', m')) : s.Meets phase' m' :=
  hm.reaches (reaches_after n h)

theorem counts_of_over {v : Verdict} (h : s.turn m phase = .over v m') : m'.counts = m.counts := by
  cases phase with
  | settle success =>
    simp only [turn, Machine.settle] at h
    split at h
    · obtain ⟨-, rfl⟩ := Turn.over.inj h
      rfl
    · cases h
  | walk c =>
    simp only [turn] at h
    split at h
    · cases h
    · split at h
      · obtain ⟨-, rfl⟩ := Turn.over.inj h
        rfl
      · cases h

theorem tallied_start {tree : Chain} (hcounts : m'.counts = m.counts) (pos : Nat) (h : ∀ {id q body next above},
    (.box id (.loop q) body next, above) ∈ tree.places [] → Counted m id q above) :
    m'.ready.Tallied tree (.walk (.start tree pos)) where
  places := ⟨fun _ heq => Phase.walk.inj heq ▸ Cursor.stands_start tree pos, fun _ hf => absurd hf List.not_mem_nil⟩
  walk c heq := by
    obtain rfl := Phase.walk.inj heq
    exact ⟨fun _ hg => absurd hg List.not_mem_nil, fun hmem => absurd hmem List.not_mem_nil⟩
  layered := trivial
  counted {id _ _ _ _} hplace := (h hplace).same (congrArg (·.get id) hcounts) (Nat.zero_le _)
    fun _ hf => absurd hf List.not_mem_nil

theorem Meets.tallied (hnodup : s.pattern.tree.ids.Nodup) (h : s.Meets phase m) :
    m.Tallied s.pattern.tree phase := by
  induction h with
  | first pos =>
    exact tallied_start (m := {}) rfl pos fun _ => ⟨Nat.zero_le _, fun _ => Nat.zero_le _, fun _ _ hf =>
      absurd hf List.not_mem_nil⟩
  | turn _ going ih => exact tallied_turn hnodup going ih
  | next _ hover pos ih => exact tallied_start (counts_of_over hover) pos ih.counted

end Setting

/-- In every state of a search, a loop owes at most its minimum, and an unbounded loop has nothing to spare.
A bounded loop has to spare at most what lies between its bounds, and can be given a repetition back, if its
bounds are equal or no loop around it, up to the nearest look, runs more than once. -/
theorem counts_bounded {o : Pattern.Options} {cs : List Char} {s : Setting}
    (h : Pattern.compile o cs = .ok s.pattern) {phase : Phase} {m : Machine} (hm : s.Meets phase m) {id : Nat}
    {q : Quantifier} {body next : Chain} {above : List Chain}
    (hplace : (.box id (.loop q) body next, above) ∈ s.pattern.tree.places []) :
    (m.counts.get id).due ≤ q.min ∧ (q.max = none → (m.counts.get id).spare = 0) ∧
    ∀ max, q.max = some max → q.min = max ∨ lone above = true →
      (m.counts.get id).spare.toNat ≤ max.toNat - q.min.toNat ∧
      ∀ f below, m.frames = f :: below → f.choice = .giveBack → f.cursor.chain.head? = some id →
        ((m.counts.get id).spare + 1).toNat = (m.counts.get id).spare.toNat + 1 := by
  have hnodup := (Pattern.numbered_of_compile h).nodup
  have hcounted := (hm.tallied hnodup).counted hplace
  refine ⟨UInt32.le_iff_toNat_le.2 (Nat.le_trans hcounted.due (Nat.sub_le _ _)), fun hmax => ?_,
    fun max hmax hcase => ?_⟩
  · exact (hcounted.of_spare_zero (by simp [Quantifier.spare, hmax])).1
  · have hsheltered : q.Sheltered id above := by
      rcases hcase with hmin | hlone
      · exact .inl (Quantifier.spare_exact (hmin ▸ hmax))
      · exact .inr (Pattern.notMem_aheadOf_of_lone hnodup hplace hlone id List.mem_cons_self)
    have hspare := hcounted.spare hsheltered
    rw [Quantifier.spare_toNat hmax] at hspare
    refine ⟨Nat.le_trans (Nat.le_add_right _ _) hspare, fun f below hframes hchoice hhead => ?_⟩
    have hroom := hcounted.room hsheltered hframes (by simp [Frame.counts, hchoice, hhead])
    have hlt := q.spare.toNat_lt
    rw [UInt32.toNat_add, UInt32.toNat_one, Nat.mod_eq_of_lt (by omega)]

/-! ## A loop that is entered once -/

namespace OnceSomeAs

/-- The loop `a{1,3}`, with the `b` after it. -/
def someAs : Chain :=
  .box 2 (.loop ⟨1, some 3, false⟩) (.leaf 0 (.unit (.literal 97)) .nil) (.leaf 1 (.unit (.literal 98)) .nil)

/-- The pattern `(?:a{1,3}b)?c`. -/
def pattern : Pattern where
  options := {}
  names := .empty
  body :=
    .box 5 (.loop ⟨0, some 1, false⟩) (.box 3 (.group none) someAs .nil) (.leaf 4 (.unit (.literal 99)) .nil)
  rootId := 6

/-- The search of `aab`. -/
def search : Setting :=
  ({ pattern } : Matcher).setting { text := #[97, 97, 98], mode := .anchored }

/-- The state at which a third `a` has been looked for in vain. -/
def refused : Phase × Machine :=
  (search.after 14 (.walk (.start pattern.tree 0)) (Machine.ready {})).getD default

end OnceSomeAs

open OnceSomeAs in
/-- In `aab` there is no third `a`, so the loop is given back the repetition that it took for it. -/
theorem counts_bounded_onceSomeAs :
    Pattern.compile {} "(?:a\x7b1,3\x7db)?c".toList = .ok pattern ∧ search.Meets refused.1 refused.2 ∧
    (∃ f below, refused.2.frames = f :: below ∧ f.choice = .giveBack ∧ f.cursor.chain.head? = some 2) ∧
    (refused.2.counts.get 2).due ≤ 1 ∧ (refused.2.counts.get 2).spare.toNat ≤ 3 - 1 ∧
    ((refused.2.counts.get 2).spare + 1).toNat = (refused.2.counts.get 2).spare.toNat + 1 := by
  have hp : Pattern.compile {} "(?:a\x7b1,3\x7db)?c".toList = .ok pattern := by decide +kernel
  have hmet : search.Meets refused.1 refused.2 := Setting.meets_after 14 (.first 0) (by decide +kernel)
  have hplace : (someAs, [.box 3 (.group none) someAs .nil, pattern.body, pattern.tree]) ∈ pattern.tree.places [] := by
    decide +kernel
  have htop : ∃ f below, refused.2.frames = f :: below ∧ f.choice = .giveBack ∧ f.cursor.chain.head? = some 2 :=
    ⟨refused.2.frames.headD default, refused.2.frames.tail, by decide +kernel, by decide +kernel, by decide +kernel⟩
  obtain ⟨hdue, -, hbounds⟩ := counts_bounded hp hmet hplace
  obtain ⟨hspare, hroom⟩ := hbounds 3 rfl (.inr (by decide))
  obtain ⟨f, below, hframes, hchoice, hhead⟩ := htop
  exact ⟨hp, hmet, ⟨f, below, hframes, hchoice, hhead⟩, hdue, hspare, hroom f below hframes hchoice hhead⟩

/-! ## A loop that is entered again and again -/

namespace DashedPairs

/-- The loop `(?:a|a-a-)?`, with the `-` after it. -/
def pairs : Chain :=
  .box 8 (.loop ⟨0, some 1, false⟩)
    (.box 6 (.group none)
      (.box 5 .alternative (.leaf 0 (.unit (.literal 97)) .nil)
        (.leaf 1 (.unit (.literal 97)) (.leaf 2 (.unit (.literal 45)) (.leaf 3 (.unit (.literal 97))
          (.leaf 4 (.unit (.literal 45)) .nil))))) .nil)
    (.leaf 7 (.unit (.literal 45)) .nil)

/-- The pattern `(?:(?:a|a-a-)?-)*c`. -/
def pattern : Pattern where
  options := {}
  names := .empty
  body := .box 11 (.loop ⟨0, none, false⟩) (.box 9 (.group none) pairs .nil) (.leaf 10 (.unit (.literal 99)) .nil)
  rootId := 12

/-- The text `a-a-aa-c`. -/
def query : Query := { text := #[97, 45, 97, 45, 97, 97, 45, 99], mode := .anchored }

/-- The search of the text. -/
def search : Setting := ({ pattern } : Matcher).setting query

/-- The state at which the third round has failed, and the second one has given its repetition back. -/
def overdrawn : Phase × Machine :=
  (search.after 49 (.walk (.start pattern.tree 0)) (Machine.ready {})).getD default

end DashedPairs

namespace AllTheAs

/-- The loop `a{0,4294967295}`, with the `b` after it. -/
def allAs : Chain :=
  .box 2 (.loop ⟨0, some 4294967295, false⟩) (.leaf 0 (.unit (.literal 97)) .nil)
    (.leaf 1 (.unit (.literal 98)) .nil)

/-- The pattern `(?:a{0,4294967295}b)*c`. -/
def pattern : Pattern where
  options := {}
  names := .empty
  body := .box 5 (.loop ⟨0, none, false⟩) (.box 3 (.group none) allAs .nil) (.leaf 4 (.unit (.literal 99)) .nil)
  rootId := 6

/-- The search of `ab`. -/
def search : Setting := ({ pattern } : Matcher).setting { text := #[97, 98], mode := .anchored }

/-- The state at which the second round has failed, and the first one is to give a repetition back. -/
def full : Phase × Machine :=
  (search.after 19 (.walk (.start pattern.tree 0)) (Machine.ready {})).getD default

end AllTheAs

/-- The rounds of a loop share the count of a loop inside, which each of them sets anew. In `a-a-aa-c` the second
round gives its repetition back after the third one has set the count, which lets the inner loop run twice: the
search answers the whole text, which is no match. In `ab` the first round gives a repetition back to a count that
is the largest there is. -/
theorem counts_overrun :
    (open DashedPairs in
      Pattern.compile {} "(?:(?:a|a-a-)?-)*c".toList = .ok pattern ∧
      (∃ above, (pairs, above) ∈ pattern.tree.places []) ∧ search.Meets overdrawn.1 overdrawn.2 ∧
      (overdrawn.2.counts.get 8).spare = 2 ∧
      (({ pattern } : Matcher).exec 200 query).map (fun r => r.1.map Match.span) = some (some ⟨0, 8⟩) ∧
      ∀ e, ¬ search.Matches pattern.body 0 e) ∧
    (open AllTheAs in
      Pattern.compile {} "(?:a\x7b0,4294967295\x7db)*c".toList = .ok pattern ∧
      (∃ above, (allAs, above) ∈ pattern.tree.places []) ∧ search.Meets full.1 full.2 ∧
      (∃ f below, full.2.frames = f :: below ∧ f.choice = .giveBack ∧ f.cursor.chain.head? = some 2) ∧
      (full.2.counts.get 2).spare + 1 = 0) := by
  constructor
  · open DashedPairs in
    have hplace : (pairs, [.box 9 (.group none) pairs .nil, pattern.body, pattern.tree]) ∈
        pattern.tree.places [] := by decide +kernel
    have hmet : search.Meets overdrawn.1 overdrawn.2 := Setting.meets_after 49 (.first 0) (by decide +kernel)
    refine ⟨by decide +kernel, ⟨_, hplace⟩, hmet, by decide +kernel, by decide +kernel, fun e => ?_⟩
    have hends : search.ends pattern.body 0 = [] := by decide +kernel
    rw [← Setting.mem_ends search pattern.body 0 (Nat.zero_le _) e, hends]
    exact List.not_mem_nil
  · open AllTheAs in
    have hplace : (allAs, [.box 3 (.group none) allAs .nil, pattern.body, pattern.tree]) ∈
        pattern.tree.places [] := by decide +kernel
    have hmet : search.Meets full.1 full.2 := Setting.meets_after 19 (.first 0) (by decide +kernel)
    have htop : full.2.frames = full.2.frames.headD default :: full.2.frames.tail := by decide +kernel
    exact ⟨by decide +kernel, ⟨_, hplace⟩, hmet, ⟨_, _, htop, by decide +kernel, by decide +kernel⟩,
      by decide +kernel⟩

end SpanRegex
