import SpanRegex.Proofs.Numbering
import SpanRegex.Proofs.Yields

/-! # Chains as sources of results

* `Cursor.into`: the cursor at the first of some siblings, or back at their container.
* `Setting.ChainYields`: from an offset on, a chain is left at a list of offsets that satisfies a
  condition, wherever it stands and whatever the machine.
* `chainYields_nil`, `chainYields_leaf`, `chainYields_group`, `chainYields_alternative`,
  `chainYields_look`: one rule for each kind of node; loops have a module of their own.
-/

namespace SpanRegex
set_option autoImplicit false

open Pattern (Chain Container Leaf Look Slot)

/-! ## Places -/

/-- The cursor at the first of the siblings; without siblings, back at the container. -/
def Cursor.into (c : Chain) (above : List Chain) (pos : Nat) : Cursor :=
  (⟨.nil, above, pos, false⟩ : Cursor).leave c pos

theorem Cursor.into_of_ne_nil {c : Chain} (h : c ≠ .nil) (above : List Chain) (pos : Nat) :
    Cursor.into c above pos = ⟨c, above, pos, true⟩ := by
  cases c with
  | nil => exact absurd rfl h
  | leaf id op next => rfl
  | box id op body next => rfl

/-- The machine after the visit of a node has been counted. -/
def Machine.visited (m : Machine) : Machine := { m with visits := m.visits + 1 }

theorem Setting.turn_visit {s : Setting} (hlimit : s.limit = none) (m : Machine) {c : Cursor}
    (hc : c.chain ≠ .nil) :
    s.turn m (.walk c) = .going (s.visit m.visited c).1 (s.visit m.visited c).2 := by
  obtain ⟨chain, above, pos, entering⟩ := c
  cases chain with
  | nil => exact absurd rfl hc
  | leaf id op next => simp [turn, exceeds, hlimit, Machine.visited]
  | box id op body next => simp [turn, exceeds, hlimit, Machine.visited]

/-! ## Chains -/

/-- The terms of a chain: it may write the values of its own nodes. -/
def Pattern.Chain.terms (c : Chain) (low asks : Nat → Prop) (pins : Prop) : Terms :=
  ⟨fun i => i ∈ c.ids, low, asks, fun i => asks i ∧ i ∉ c.ids, pins⟩

/-- From the offset on, the chain is left at offsets that satisfy `spec`. -/
def Setting.ChainYields (s : Setting) (low : Nat → Prop) (pins : Prop) (asks : Nat → Prop)
    (c : Chain) (pos : Nat) (spec : List Nat → Prop) : Prop :=
  ∀ above m, s.Yields (c.terms low asks pins) (Cursor.into .nil above) m
    (.walk (Cursor.into c above pos)) m spec

section

variable {s : Setting} {low asks : Nat → Prop} {pins : Prop} {c body next : Chain} {id pos : Nat}
  {spec specBody : List Nat → Prop}

theorem Setting.ChainYields.imp {spec' : List Nat → Prop} (h : s.ChainYields low pins asks c pos spec)
    (hspec : ∀ l, spec l → spec' l) : s.ChainYields low pins asks c pos spec' :=
  fun above m => (h above m).imp hspec

/-- The siblings after a node, from a machine that differs from `base` in values of that node. -/
theorem Setting.ChainYields.resume (h : s.ChainYields low pins asks c pos spec) (above : List Chain)
    {t : Terms} {base m : Machine} (hown : ∀ i ∈ c.ids, t.own i) (hlow : t.low = low)
    (hasks : ∀ i, asks i → t.asks i) (hgives : ∀ i, t.gives i → asks i ∧ i ∉ c.ids)
    (hpins : pins → t.pins) (hrestores : base.Restores m) (hkeeps : base.Keeps t.low t.gives m) :
    s.Yields t (Cursor.into .nil above) base (.walk (Cursor.into c above pos)) m spec :=
  ((h above m).weaken hown hlow hasks hgives hpins).rebase
    ⟨hrestores.frames, hrestores.covers, hkeeps⟩ fun i _ => by rw [hrestores.guards]

theorem chainYields_nil (hspec : spec [pos]) : s.ChainYields low pins asks .nil pos spec :=
  fun _ m => .one (fun _ hi => hi.1) (.refl _ _ m) (fun _ _ => rfl) hspec

/-- A leaf that can be left at `e` is followed by its siblings from `e` on. -/
theorem chainYields_leaf (hlimit : s.limit = none) {op : Leaf} (hpin : ∀ edge, op = .pin edge → pins)
    (hnone : ∀ captures, s.read? captures pos op = none → spec [])
    (hsome : ∀ captures e, s.read? captures pos op = some e →
      s.ChainYields low pins asks next e spec) :
    s.ChainYields low pins asks (.leaf id op next) pos spec := by
  intro above m
  have hturn := s.turn_visit hlimit m (c := ⟨.leaf id op next, above, pos, true⟩) (by simp)
  have hvisited : m.Writes ((Chain.leaf id op next).terms low asks pins) m.visited :=
    .of_eq rfl rfl rfl rfl
  cases hread : s.read? m.captures pos op with
  | none =>
    have hvisit : s.visit m.visited ⟨.leaf id op next, above, pos, true⟩ =
        (.settle false, m.visited) := by
      simp only [Setting.visit, Setting.visitLeaf, Machine.visited, hread]
    rw [hvisit] at hturn
    exact .done (.turn hturn (.refl _ _)) hvisited ⟨rfl, .of_eq rfl rfl, .of_eq rfl⟩ (hnone _ hread)
  | some e =>
    obtain ⟨m', hvisit, hrestores, hcounts, hwrites⟩ : ∃ m',
        s.visit m.visited ⟨.leaf id op next, above, pos, true⟩ =
          (.walk (Cursor.into next above e), m') ∧ m.Restores m' ∧ m'.counts = m.counts ∧
        m.Writes ((Chain.leaf id op next).terms low asks pins) m' := by
      simp only [Setting.visit, Setting.visitLeaf, Machine.visited, hread]
      cases op with
      | pin edge =>
        have hp : pins := hpin edge rfl
        cases edge <;>
          exact ⟨_, rfl, ⟨rfl, rfl, rfl⟩, rfl, fun _ _ => rfl, fun _ _ => rfl, fun _ _ h => h, .inl hp⟩
      | empty => exact ⟨_, rfl, ⟨rfl, rfl, rfl⟩, rfl, hvisited⟩
      | unit test => exact ⟨_, rfl, ⟨rfl, rfl, rfl⟩, rfl, hvisited⟩
      | assertion condition => exact ⟨_, rfl, ⟨rfl, rfl, rfl⟩, rfl, hvisited⟩
      | reference slot => exact ⟨_, rfl, ⟨rfl, rfl, rfl⟩, rfl, hvisited⟩
      | cross target ignoreCase => exact ⟨_, rfl, ⟨rfl, rfl, rfl⟩, rfl, hvisited⟩
    rw [hvisit] at hturn
    refine ((hsome _ e hread).resume above ?_ rfl (fun _ h => h) ?_ (fun h => h) hrestores
      (.of_eq hcounts)).after (.turn hturn (.refl _ _)) hwrites
    · exact fun i hi => List.mem_cons_of_mem _ hi
    · exact fun i hi => ⟨hi.1, fun hmem => hi.2 (List.mem_cons_of_mem _ hmem)⟩

/-- What a node yields through its children is followed by its siblings. -/
theorem joins_next {op : Container} {own : Nat → Prop} (hown : ∀ i, own i → i = id ∨ i ∈ body.ids) :
    ((Chain.box id op body next).terms low asks pins).Joins
      ⟨own, low, fun i => asks i ∧ i ∉ next.ids, fun i => (asks i ∧ i ∉ next.ids) ∧ i ∉ body.ids, pins⟩
      (next.terms low asks pins) := by
  refine ⟨?_, ⟨rfl, rfl⟩, fun i hi => hi, fun i hi => hi, ?_, fun hp => hp.elim (fun h => h) fun h => h⟩
  · rintro i (hi | hi)
    · rcases hown i hi with rfl | hi
      · exact List.mem_cons_self
      · exact Chain.mem_ids_of_body hi
    · exact Chain.mem_ids_of_next hi
  · rintro i ⟨hi, hids⟩
    exact ⟨⟨hi, fun hmem => hids (Chain.mem_ids_of_next hmem)⟩,
      fun hmem => hids (Chain.mem_ids_of_body hmem)⟩

theorem chainYields_group (hlimit : s.limit = none) (hne : body ≠ .nil) {capture : Option Slot}
    {specNext : Nat → List Nat → Prop}
    (hbody : s.ChainYields low pins (fun i => asks i ∧ i ∉ next.ids) body pos specBody)
    (hnext : ∀ e, Setting.Yields.Reports specBody e →
      s.ChainYields low pins asks next e (specNext e)) :
    s.ChainYields low pins asks (.box id (.group capture) body next) pos
      (Chained specBody specNext) := by
  intro above m
  let group := Chain.box id (.group capture) body next
  let entered := { m.visited with starts := m.visited.starts.set id pos }
  have hturn := s.turn_visit hlimit m (c := ⟨group, above, pos, true⟩) (by simp [group])
  have henter : s.visit m.visited ⟨group, above, pos, true⟩ =
      (.walk (Cursor.into body (group :: above) pos), entered) := by
    rw [Cursor.into_of_ne_nil hne]
    rfl
  rw [henter] at hturn
  have hwrites : m.Writes (group.terms low asks pins) entered := by
    refine ⟨fun _ _ => rfl, fun i hi => ?_, fun _ _ h => h, .inr ⟨rfl, rfl⟩⟩
    have hne : ¬ id = i := fun h => hi (h ▸ List.mem_cons_self)
    simp [entered, Machine.visited, hne]
  have hjoins : (group.terms low asks pins).Joins
      (body.terms low (fun i => asks i ∧ i ∉ next.ids) pins) (next.terms low asks pins) :=
    joins_next fun _ hi => .inr hi
  have hleave : ∀ e m', Setting.Yields.Reports specBody e →
      s.Yields (next.terms low asks pins) (Cursor.into .nil above) m'
        (.walk (Cursor.into .nil (group :: above) e)) m' (specNext e) := by
    intro e m' he
    have hturn := s.turn_visit hlimit m' (c := ⟨group, above, e, false⟩) (by simp [group])
    obtain ⟨m'', hvisit, hrestores, hcounts, hw⟩ : ∃ m'', s.visit m'.visited ⟨group, above, e, false⟩ =
        (.walk (Cursor.into next above e), m'') ∧ m'.Restores m'' ∧ m''.counts = m'.counts ∧
          m'.Writes (next.terms low asks pins) m'' := by
      cases capture <;> exact ⟨_, rfl, ⟨rfl, rfl, rfl⟩, rfl, .of_eq rfl rfl rfl rfl⟩
    rw [hvisit] at hturn
    exact ((hnext e he).resume above (fun _ h => h) rfl (fun _ h => h) (fun _ h => h) (fun h => h)
      hrestores (.of_eq hcounts)).after (.turn hturn (.refl _ _)) hw
  have hsource := Setting.Yields.bind_any hjoins (hbody (group :: above) entered) hleave
  have hrebased : s.Yields (group.terms low asks pins) (Cursor.into .nil above) m
      (.walk (Cursor.into body (group :: above) pos)) entered (Chained specBody specNext) :=
    hsource.rebase ⟨rfl, .of_eq rfl rfl, .of_eq rfl⟩ fun _ _ => rfl
  exact hrebased.after (.turn hturn (.refl _ _)) hwrites

theorem Chained.of_single {spec : List Nat → Prop} {l : List Nat}
    (h : Chained spec (fun e l => l = [e]) l) : spec l := by
  obtain ⟨es, hes, heach⟩ := h
  have hl : l = es := by
    clear hes
    induction heach with
    | nil => rfl
    | cons head tail ih => rw [head, ih]; rfl
  exact hl ▸ hes

/-- The alternative comes first, then the ones after it. -/
theorem chainYields_alternative (hlimit : s.limit = none) (hne : body ≠ .nil)
    {specNext : List Nat → Prop} (hbody : s.ChainYields low pins asks body pos specBody)
    (hnext : s.ChainYields low pins asks next pos specNext) :
    s.ChainYields low pins asks (.box id .alternative body next) pos
      (Setting.Yields.Then specBody specNext) := by
  intro above m
  let choice := Chain.box id .alternative body next
  let t := choice.terms low asks pins
  let opened := m.visited.push ⟨choice, above, pos, true⟩ .skip
  have hturn := s.turn_visit hlimit m (c := ⟨choice, above, pos, true⟩) (by simp [choice])
  have henter : s.visit m.visited ⟨choice, above, pos, true⟩ =
      (.walk (Cursor.into body (choice :: above) pos), opened) := by
    rw [Cursor.into_of_ne_nil hne]
    rfl
  rw [henter] at hturn
  -- The children return to the alternative, which passes over the others.
  let first : Terms := { t with gives := fun i => asks i ∧ i ∉ body.ids }
  let leaving : Terms := ⟨fun _ => False, low, asks, asks, pins⟩
  have hjoins : first.Joins (body.terms low asks pins) leaving := by
    refine ⟨?_, ⟨rfl, rfl⟩, fun i hi => hi, fun i hi => hi, fun i hi => hi,
      fun hp => hp.elim (fun h => h) fun h => h⟩
    rintro i (hi | hi)
    · exact Chain.mem_ids_of_body hi
    · exact hi.elim
  have hleave : ∀ e m', Setting.Yields.Reports specBody e →
      s.Yields leaving (Cursor.into .nil above) m' (.walk (Cursor.into .nil (choice :: above) e)) m'
        (fun l => l = [e]) := by
    intro e m' _
    have hturn := s.turn_visit hlimit m' (c := ⟨choice, above, e, false⟩) (by simp [choice])
    have hone : s.Yields leaving (Cursor.into .nil above) m' (.walk (Cursor.into .nil above e))
        m'.visited (fun l => l = [e]) :=
      .one (fun _ h => h) ⟨rfl, .of_eq rfl rfl, .of_eq rfl⟩ (fun _ _ => rfl) rfl
    exact hone.after (.turn hturn (.refl _ _)) (.of_eq rfl rfl rfl rfl)
  have hfirst := (Setting.Yields.bind_any hjoins (hbody (choice :: above) opened) hleave).imp
    fun _ => Chained.of_single
  have hsource : s.Yields t (Cursor.into .nil above) m
      (.walk (Cursor.into body (choice :: above) pos)) opened
      (Setting.Yields.Then specBody specNext) := by
    have hpass : Choice.skip.passing := ⟨by decide, by decide⟩
    have hext : m.Extends t m.visited := .of_eq rfl (.of_eq rfl rfl) fun _ _ => rfl
    refine Setting.Yields.choice hpass hext hfirst fun m' hrestores hkeeps => ⟨.refl _ _, ?_⟩
    have hvisited : m.Keeps low t.gives m.visited := .of_eq rfl
    refine hnext.resume above ?_ rfl (fun _ h => h) ?_ (fun h => h)
      ⟨hrestores.frames, hrestores.trail, hrestores.guards⟩ (hvisited.trans (hkeeps.mono ?_))
    · exact fun i hi => Chain.mem_ids_of_next hi
    · exact fun i hi => ⟨hi.1, fun hmem => hi.2 (Chain.mem_ids_of_next hmem)⟩
    · exact fun i hi => ⟨hi.1, fun hmem => hi.2 (Chain.mem_ids_of_body hmem)⟩
  exact hsource.after (.turn hturn (.refl _ _)) (.of_eq rfl rfl rfl rfl)

/-! ## Looks -/

/-- What the children of a look yield, if they are found or if they are not; those that would start
before the text are not found. -/
def LookFinds (look : Look) (pos : Nat) (specBody : List Nat → Prop) : Bool → Prop
  | true => look.behind.getD 0 ≤ pos ∧ ∃ e l, specBody (e :: l)
  | false => look.behind.getD 0 ≤ pos → specBody []

/-- The walk goes on with the siblings of a look that passes, and fails at one that does not. -/
def afterLook (next : Chain) (above : List Chain) (pos : Nat) (passes : Bool) : Phase :=
  if passes then .walk (Cursor.into next above pos) else .settle false

/-- The children of a look have a first result, or none; either way the choice of the look is
carried out next, and only values of the children have changed. -/
theorem look_settles (hlimit : s.limit = none) (id : Nat) {look : Look} (next : Chain)
    (above : List Chain) (m : Machine) (hle : look.behind.getD 0 ≤ pos)
    (hbody : s.ChainYields low pins (fun _ => True) body (pos - look.behind.getD 0) specBody) :
    let box := Chain.box id (.look look) body next
    ∃ found m', LookFinds look pos specBody found ∧ m.Restores m' ∧
      m.Writes (body.terms low (fun _ => True) pins) m' ∧
      s.Reaches (.walk (Cursor.into body (box :: above) (pos - look.behind.getD 0)))
        (m.push ⟨box, above, pos, true⟩ (if look.negated then .refuse else .require))
        (afterLook next above pos (found != look.negated)) m' := by
  intro box
  let choice := if look.negated then Choice.refuse else Choice.require
  let c : Cursor := ⟨box, above, pos, true⟩
  have hpush : m.Writes (body.terms low (fun _ => True) pins) (m.push c choice) :=
    .of_eq rfl rfl rfl rfl
  have hretry : ∀ m' : Machine,
      m'.retry c choice = (afterLook next above pos (false != look.negated), m') := by
    intro m'
    simp only [choice]
    cases look.negated <;> rfl
  have haccept : ∀ m' : Machine,
      m'.accept c choice = (afterLook next above pos (true != look.negated), m') := by
    intro m'
    simp only [choice]
    cases look.negated <;> rfl
  rcases (hbody (box :: above) (m.push c choice)).first with
    ⟨hnil, m₁, hruns, hwrites, hback⟩ | ⟨e, ⟨l, hl⟩, m₁, hruns, hwrites, hext⟩
  · obtain ⟨m₂, hrestores, hcounts, hstarts, hstart, hstop, -, hsettle⟩ :=
      Machine.settle_push hback.frames hback.covers
    rw [hretry] at hsettle
    exact ⟨false, m₂, fun _ => hnil, hrestores,
      hpush.trans (hwrites.trans (.of_eq hcounts hstarts hstart hstop)), hruns.snoc hsettle⟩
  · have hturn := s.turn_visit hlimit m₁ (c := ⟨box, above, e, false⟩) (by simp [box])
    -- The choices that the children have left open pass the success on to that of the look.
    obtain ⟨opened, hframes, hopened⟩ := hext.frames
    obtain ⟨m₂, hpops, hframes₂, hcovers₂, hcounts₂, hstarts₂, hstart₂, hstop₂, -⟩ :=
      s.accept_passing opened m₁.visited hframes hopened hext.covers
    obtain ⟨m₃, hrestores, hcounts, hstarts, hstart, hstop, hsettle, -⟩ :=
      Machine.settle_push hframes₂ hcovers₂
    rw [haccept] at hsettle
    exact ⟨true, m₃, ⟨hle, e, l, hl⟩, hrestores, hpush.trans (hwrites.trans (.of_eq
      (hcounts.trans hcounts₂) (hstarts.trans hstarts₂) (hstart.trans hstart₂)
      (hstop.trans hstop₂))), ((hruns.snoc hturn).trans hpops).snoc hsettle⟩

/-- A look goes on with its siblings at the same offset, or is not left. -/
theorem chainYields_look (hlimit : s.limit = none) (hne : body ≠ .nil) {look : Look}
    (hbody : look.behind.getD 0 ≤ pos →
      s.ChainYields low pins (fun _ => True) body (pos - look.behind.getD 0) specBody)
    (hspec : ∀ found, LookFinds look pos specBody found →
      if found != look.negated then s.ChainYields low pins asks next pos spec else spec []) :
    s.ChainYields low pins asks (.box id (.look look) body next) pos spec := by
  intro above m
  let box := Chain.box id (.look look) body next
  let t := box.terms low asks pins
  have hturn := s.turn_visit hlimit m (c := ⟨box, above, pos, true⟩) (by simp [box])
  -- Whichever way the look ends, only values of its children have changed.
  have hfrom : ∀ found m', LookFinds look pos specBody found → m.Restores m' →
      m.Writes (body.terms low (fun _ => True) pins) m' →
      s.Reaches (.walk ⟨box, above, pos, true⟩) m (afterLook next above pos (found != look.negated)) m' →
      s.Yields t (Cursor.into .nil above) m (.walk ⟨box, above, pos, true⟩) m spec := by
    intro found m' hfinds hrestores hwrites hruns
    have hspec := hspec found hfinds
    have hkeeps : m.Keeps low t.gives m' :=
      hwrites.keeps fun i hi hmem => hi.2 (Chain.mem_ids_of_body hmem)
    have hown : m.Writes t m' := hwrites.mono (fun i hi => Chain.mem_ids_of_body hi) rfl fun h => h
    cases hpasses : found != look.negated with
    | false =>
      rw [hpasses] at hspec hruns
      exact .done hruns hown ⟨hrestores.frames, hrestores.covers, hkeeps⟩ hspec
    | true =>
      rw [hpasses] at hspec hruns
      have hsource : s.Yields t (Cursor.into .nil above) m (.walk (Cursor.into next above pos)) m'
          spec :=
        hspec.resume above (fun i hi => Chain.mem_ids_of_next hi) rfl (fun _ h => h)
          (fun i hi => ⟨hi.1, fun hmem => hi.2 (Chain.mem_ids_of_next hmem)⟩) (fun h => h)
          hrestores hkeeps
      exact hsource.after hruns hown
  by_cases hlt : pos < look.behind.getD 0
  · have hvisit : s.visit m.visited ⟨box, above, pos, true⟩ =
        (afterLook next above pos (false != look.negated), m.visited) := by
      simp only [Setting.visit, box, visitLook, if_true, if_pos hlt]
      cases look.negated <;> rfl
    rw [hvisit] at hturn
    exact hfrom false m.visited (fun hle => absurd hlt (Nat.not_lt_of_le hle)) ⟨rfl, rfl, rfl⟩
      (.of_eq rfl rfl rfl rfl) (.turn hturn (.refl _ _))
  · have hle : look.behind.getD 0 ≤ pos := Nat.le_of_not_lt hlt
    have hvisit : s.visit m.visited ⟨box, above, pos, true⟩ =
        (.walk (Cursor.into body (box :: above) (pos - look.behind.getD 0)),
          m.visited.push ⟨box, above, pos, true⟩ (if look.negated then .refuse else .require)) := by
      rw [Cursor.into_of_ne_nil hne]
      simp only [Setting.visit, box, visitLook, if_true, if_neg hlt]
      rfl
    rw [hvisit] at hturn
    obtain ⟨found, m', hfinds, hrestores, hwrites, hruns⟩ :=
      look_settles hlimit id next above m.visited hle (hbody hle)
    have hvisited : m.Writes (body.terms low (fun _ => True) pins) m.visited :=
      .of_eq rfl rfl rfl rfl
    exact hfrom found m' hfinds ⟨hrestores.frames, hrestores.trail, hrestores.guards⟩
      (hvisited.trans hwrites) (.turn hturn hruns)

end
end SpanRegex
