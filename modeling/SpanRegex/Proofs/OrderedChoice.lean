import SpanRegex.Proofs.Prefilter
import SpanRegex.Proofs.Spans
import SpanRegex.Proofs.Trials

/-! # Ordered choice

A search at one offset tries the alternatives of a pattern one after another and takes the first that can be left.
Where nothing is captured, what becomes of an alternative depends neither on those before it nor on its place, so that
a pattern of two patterns with a bar between them finds what the first finds, or else what the second finds.

* `Setting.Chooses`: the first of the alternatives that can be left; `Chooses.renumber`, `Chooses.of_renumber`.
* `Chooses.reaches`, `exists_chooses`: the walk through the alternatives takes that one.
* `Chooses.matches`, `Chooses.fails`, `chooses_of_attempt`: so does an attempt.
* `exec_alternation`: two patterns with a bar between them.
-/

namespace SpanRegex
set_option autoImplicit false

open Pattern (Chain Node Renumbers Sequence.chain Slot compile)

/-! ## The alternatives in their order -/

namespace Setting

variable {s s' : Setting} {pos : Nat} {r : Option Nat}

/-- The first alternative that can be left is left at the offset, or none can be left. -/
inductive Chooses (s : Setting) (pos : Nat) : List (List Node) → Option Nat → Prop
  | nil : s.Chooses pos [] none
  | here {run : List Node} (runs : List (List Node)) {e : Nat} (tries : s.Tries (.ofNodes run) pos (some e)) :
      s.Chooses pos (run :: runs) (some e)
  | later {run : List Node} {runs : List (List Node)} {r : Option Nat} (tries : s.Tries (.ofNodes run) pos none)
      (rest : s.Chooses pos runs r) : s.Chooses pos (run :: runs) r

variable {runs runs' : List (List Node)}

theorem Chooses.append_found {e : Nat} (h : s.Chooses pos runs (some e)) (runs' : List (List Node)) :
    s.Chooses pos (runs ++ runs') (some e) := by
  generalize hr : some e = r at h ⊢
  induction h with
  | nil => cases hr
  | here runs tries => exact .here (runs ++ runs') tries
  | later tries _ ih => exact .later tries (ih hr)

theorem Chooses.append_missed (h : s.Chooses pos runs none) (h' : s.Chooses pos runs' r) :
    s.Chooses pos (runs ++ runs') r := by
  generalize hr : none = missed at h
  induction h with
  | nil => exact h'
  | here => cases hr
  | later tries _ ih => exact .later tries (ih hr)

/-- What is chosen among renumbered alternatives and others tells what is chosen among the first as they were and, if
none of them can be left, among the others. -/
theorem Chooses.of_renumber (hsame : s.SameReads s') {ρ : Nat → Nat} (hρ : Renumbers ρ) :
    ∀ {runs : List (List Node)}, (∀ run ∈ runs, run ≠ [] ∧ ∀ node ∈ run, node.Full) →
      (∀ run ∈ runs, (Chain.ofNodes run).anonymous = true) →
      s'.Chooses pos (runs.map (List.map (Node.renumber ρ)) ++ runs') r →
      ∃ r₁, s.Chooses pos runs r₁ ∧ (r₁ = none → s'.Chooses pos runs' r) := by
  intro runs
  induction runs with
  | nil => exact fun _ _ h => ⟨none, .nil, fun _ => h⟩
  | cons run runs ih =>
    intro hfull hanonymous h
    obtain ⟨⟨hrun, hnodes⟩, hrest⟩ := List.forall_mem_cons.1 hfull
    obtain ⟨hfirst, hothers⟩ := List.forall_mem_cons.1 hanonymous
    have htries : ∀ {r}, s'.Tries (.ofNodes (run.map (Node.renumber ρ))) pos r →
        ∃ r', s.Tries (.ofNodes run) pos r' ∧ (r' = none ↔ r = none) := fun htries =>
      Tries.of_renumber (Chain.ofNodes_ne_nil hrun) (Chain.full_ofNodes hnodes) hfirst hsame hρ
        (Chain.renumber_ofNodes (ρ := ρ) run ▸ htries)
    rw [List.map_cons, List.cons_append] at h
    cases h with
    | here _ tries =>
      obtain ⟨r', htries, hnone⟩ := htries tries
      cases r' with
      | none => cases hnone.1 rfl
      | some e => exact ⟨some e, .here runs htries, by simp⟩
    | later tries rest =>
      obtain ⟨r', htries, hnone⟩ := htries tries
      obtain rfl := hnone.2 rfl
      obtain ⟨r₁, hchooses, hmissed⟩ := ih hrest hothers rest
      exact ⟨r₁, .later htries hchooses, hmissed⟩

theorem Chooses.renumber (h : s.Chooses pos runs r) (hfull : ∀ run ∈ runs, run ≠ [] ∧ ∀ node ∈ run, node.Full)
    (hsame : s.SameReads s') {ρ : Nat → Nat} (hρ : Renumbers ρ) :
    s'.Chooses pos (runs.map (List.map (Node.renumber ρ))) r := by
  have htries : ∀ {run r}, (run ≠ [] ∧ ∀ node ∈ run, node.Full) → s.Tries (.ofNodes run) pos r →
      s'.Tries (.ofNodes (run.map (Node.renumber ρ))) pos r := fun hrun htries =>
    Chain.renumber_ofNodes (ρ := ρ) _ ▸
      htries.renumber (Chain.ofNodes_ne_nil hrun.1) (Chain.full_ofNodes hrun.2) hsame hρ
  induction h with
  | nil => exact .nil
  | here runs tries => exact .here _ (htries (hfull _ List.mem_cons_self) tries)
  | later tries _ ih =>
    obtain ⟨hrun, hrest⟩ := List.forall_mem_cons.1 hfull
    exact .later (htries hrun tries) (ih hrest)

end Setting

/-! ## The walk through the alternatives -/

/-- No choice is open and nothing has been recorded. -/
structure Machine.Clear (m : Machine) : Prop where
  frames : m.frames = []
  trail : m.trail = #[]
  blank : m.Blank

theorem Machine.Blank.clear_unwind {m : Machine} (h : m.Blank) :
    (({ m with frames := [] } : Machine).unwind 0).Clear where
  frames := by simp
  trail := Array.eq_empty_of_size_eq_zero (({ m with frames := [] } : Machine).unwind_size (Nat.zero_le _))
  blank := ⟨by simp [h.captures], by simp [h.startPinned], by simp [h.stopPinned]⟩

/-- The choice is the only one, and still nothing has been recorded. -/
theorem Machine.Clear.push {m : Machine} (h : m.Clear) (c : Cursor) (choice : Choice) :
    (m.visited.push c choice).frames = [⟨c, choice, 0⟩] ∧ (m.visited.push c choice).trail = #[] ∧
      (m.visited.push c choice).Blank :=
  ⟨by simp [Machine.push, Machine.visited, h.frames, h.trail], h.trail,
    h.blank.captures, h.blank.startPinned, h.blank.stopPinned⟩

namespace Setting

variable {s : Setting} {m : Machine} {c : Cursor} {id pos : Nat} {body onto root : Chain}
  {runs : List (List Node)} {r : Option Nat}

section

variable (hlimit : s.limit = none)

include hlimit

theorem turn_into_alternative (here : c.chain = .box id .alternative body onto) (entering : c.entering = true)
    (m : Machine) : s.turn m (.walk c) = .going (.walk (c.descend body c.pos)) (m.visited.push c .skip) := by
  rw [turn_visit hlimit m (by simp [here])]
  simp [visit, here, visitAlternative, entering]

theorem turn_past_alternatives (here : c.chain = .box id .alternative body onto) (leaving : c.entering = false)
    (m : Machine) : s.turn m (.walk c) = .going (.walk (c.leave .nil c.pos)) m.visited := by
  rw [turn_visit hlimit m (by simp [here])]
  simp [visit, here, visitAlternative, leaving]

omit hlimit in
theorem turn_to_next_alternative (honto : onto ≠ .nil) {n : Nat}
    (hframes : m.frames = [⟨⟨.box id .alternative body onto, [root], pos, true⟩, .skip, n⟩]) :
    s.turn m (.settle false) =
      .going (.walk ⟨onto, [root], pos, true⟩) (({ m with frames := [] } : Machine).unwind n) := by
  have honward : (Cursor.mk (.box id .alternative body onto) [root] pos true).proceed =
      ⟨onto, [root], pos, true⟩ := by
    cases onto with
    | nil => exact absurd rfl honto
    | leaf | box => rfl
  simp [turn, Machine.settle, hframes, Machine.retry, honward]

section

variable (hne : body ≠ .nil) (hfull : body.Full)

include hne hfull

/-- The walk goes through an alternative that can be left and past the others. -/
theorem Tries.past_alternatives {e : Nat} (h : s.Tries body pos (some e)) (hm : m.Clear) :
    ∃ m', s.Reaches (.walk ⟨.box id .alternative body onto, [root], pos, true⟩) m (.walk ⟨root, [], e, false⟩) m' ∧
      m'.Blank := by
  let box := Chain.box id .alternative body onto
  have henter := turn_into_alternative hlimit (c := ⟨box, [root], pos, true⟩) rfl rfl m
  obtain ⟨-, htrail, hblank⟩ := hm.push ⟨box, [root], pos, true⟩ .skip
  obtain ⟨m', hreaches, -, hblank'⟩ := h.reaches hne hfull hlimit [box, root] htrail hblank
  have hleave := turn_past_alternatives hlimit (c := ⟨box, [root], e, false⟩) rfl rfl m'
  exact ⟨m'.visited, .turn henter (hreaches.snoc hleave), hblank'.captures, hblank'.startPinned, hblank'.stopPinned⟩

theorem Tries.to_next_alternative (h : s.Tries body pos none) (honto : onto ≠ .nil) (hm : m.Clear) :
    ∃ m', s.Reaches (.walk ⟨.box id .alternative body onto, [root], pos, true⟩) m
      (.walk ⟨onto, [root], pos, true⟩) m' ∧ m'.Clear := by
  let box := Chain.box id .alternative body onto
  have henter := turn_into_alternative hlimit (c := ⟨box, [root], pos, true⟩) rfl rfl m
  obtain ⟨hopen, htrail, hblank⟩ := hm.push ⟨box, [root], pos, true⟩ .skip
  obtain ⟨m', hreaches, hframes, hblank'⟩ := h.reaches hne hfull hlimit [box, root] htrail hblank
  have hnext := turn_to_next_alternative (s := s) honto ((hframes rfl).trans hopen)
  exact ⟨_, .turn henter (hreaches.snoc hnext), hblank'.clear_unwind⟩

end

end

variable (hlimit : s.limit = none) (hne : runs ≠ []) (hfull : ∀ run ∈ runs, run ≠ [] ∧ ∀ node ∈ run, node.Full)

include hlimit hne hfull

theorem Chooses.reaches (h : s.Chooses pos runs r) : ∀ {next : Nat} {m : Machine}, m.Clear →
    ∃ m', s.Reaches (.walk ⟨(Sequence.chain next runs).1, [root], pos, true⟩) m
      ((Phase.left r).graft (fun i => i) [root]) m' ∧ (r = none → m'.frames = []) ∧ m'.Blank := by
  induction h with
  | nil => exact absurd rfl hne
  | @here run runs e tries =>
    intro next m hm
    obtain ⟨hrun, hnodes⟩ := hfull run List.mem_cons_self
    have hbody := Chain.ofNodes_ne_nil hrun
    have hbodyFull := Chain.full_ofNodes hnodes
    cases runs with
    | nil =>
      obtain ⟨m', hreaches, -, hblank⟩ := tries.reaches hbody hbodyFull hlimit [root] hm.trail hm.blank
      exact ⟨m', hreaches, by simp, hblank⟩
    | cons second rest =>
      obtain ⟨m', hreaches, hblank⟩ := tries.past_alternatives hlimit hbody hbodyFull hm
      exact ⟨m', hreaches, by simp, hblank⟩
  | @later run runs r tries rest ih =>
    intro next m hm
    obtain ⟨⟨hrun, hnodes⟩, hrest⟩ := List.forall_mem_cons.1 hfull
    have hbody := Chain.ofNodes_ne_nil hrun
    have hbodyFull := Chain.full_ofNodes hnodes
    cases runs with
    | nil =>
      cases rest
      obtain ⟨m', hreaches, hframes, hblank⟩ := tries.reaches hbody hbodyFull hlimit [root] hm.trail hm.blank
      exact ⟨m', hreaches, fun hr => (hframes hr).trans hm.frames, hblank⟩
    | cons second others =>
      have honto := (Pattern.Sequence.chain_full (second :: others) hrest (next + 1)).2 (List.cons_ne_nil _ _)
      obtain ⟨m₁, hreaches, hclear⟩ := tries.to_next_alternative hlimit hbody hbodyFull honto hm
      obtain ⟨m', hreaches', hframes, hblank⟩ := ih (List.cons_ne_nil _ _) hrest hclear
      exact ⟨m', hreaches.trans hreaches', hframes, hblank⟩

theorem exists_chooses (hanonymous : ∀ run ∈ runs, (Chain.ofNodes run).anonymous = true) :
    ∀ {next fuel : Nat} {m : Machine} {res : Verdict × Machine}, m.Clear →
      s.run fuel (.walk ⟨(Sequence.chain next runs).1, [root], pos, true⟩) m = some res →
      ∃ r, s.Chooses pos runs r := by
  induction runs with
  | nil => exact absurd rfl hne
  | cons run runs ih =>
    intro next fuel m res hm hrun
    obtain ⟨⟨hnodes, hnodesFull⟩, hrest⟩ := List.forall_mem_cons.1 hfull
    obtain ⟨hfirst, hothers⟩ := List.forall_mem_cons.1 hanonymous
    have hbody := Chain.ofNodes_ne_nil hnodes
    have hbodyFull := Chain.full_ofNodes hnodesFull
    cases runs with
    | nil =>
      obtain ⟨r, -, -, htries, -⟩ := exists_tries hbody hbodyFull hlimit hfirst [root] hm.trail hm.blank hrun
      cases r with
      | none => exact ⟨none, .later htries .nil⟩
      | some e => exact ⟨some e, .here [] htries⟩
    | cons second others =>
      have honto := (Pattern.Sequence.chain_full (second :: others) hrest (next + 1)).2 (List.cons_ne_nil _ _)
      let box := (Sequence.chain next (run :: second :: others)).1
      obtain ⟨hopen, htrail, hblank⟩ := hm.push ⟨box, [root], pos, true⟩ .skip
      cases fuel with
      | zero => cases hrun
      | succ fuel =>
        have henter := turn_into_alternative hlimit (c := ⟨box, [root], pos, true⟩) rfl rfl m
        rw [Setting.run, henter] at hrun
        obtain ⟨r, fuel', m', htries, hrun', hframes, hblank'⟩ :=
          exists_tries hbody hbodyFull hlimit hfirst [box, root] htrail hblank hrun
        cases r with
        | some e => exact ⟨some e, .here _ htries⟩
        | none =>
          cases fuel' with
          | zero => cases hrun'
          | succ fuel' =>
            have hnext := turn_to_next_alternative (s := s) honto ((hframes rfl).trans hopen)
            simp only [Phase.left, Phase.graft, Setting.run, hnext] at hrun'
            obtain ⟨r, hchooses⟩ := ih (List.cons_ne_nil _ _) hrest hothers hblank'.clear_unwind hrun'
            exact ⟨r, .later htries hchooses⟩

omit hne hfull

/-! ## Attempts -/

theorem turn_into_root (pos : Nat) (m : Machine) :
    ∃ m₁, s.turn m.ready (.walk (.start s.pattern.tree pos)) =
      .going (.walk ⟨s.pattern.body, [s.pattern.tree], pos, true⟩) m₁ ∧ m₁.Clear :=
  ⟨_, s.turn_visit hlimit m.ready (c := .start s.pattern.tree pos) (by simp [Cursor.start, Pattern.tree]),
    rfl, rfl, rfl, rfl, rfl⟩

variable (hlists : s.pattern.Lists runs)

include hlists

theorem Chooses.fails (h : s.Chooses pos runs none) (m : Machine) :
    ∃ m', s.Ends (.walk (.start s.pattern.tree pos)) m.ready .failed m' := by
  obtain ⟨next, hbody⟩ := hlists.body
  obtain ⟨m₁, henter, hclear⟩ := turn_into_root hlimit pos m
  rw [hbody] at henter
  obtain ⟨m₂, hreaches, hframes, -⟩ := h.reaches hlimit hlists.ne_nil hlists.full hclear
  have hover : s.turn m₂ (.settle false) = .over .failed m₂ := by simp [turn, Machine.settle, hframes rfl]
  exact ⟨m₂, Reaches.ends (.turn henter hreaches) hover⟩

/-- The attempt matches up to where the first alternative is left that can be left. -/
theorem Chooses.matches (hnumbered : s.pattern.Numbered) {e : Nat} (h : s.Chooses pos runs (some e)) (m : Machine) :
    ∃ m', s.Ends (.walk (.start s.pattern.tree pos)) m.ready .matched m' ∧
      m'.captures = ({} : Captures).record Slot.whole ⟨pos, e⟩ false false := by
  obtain ⟨next, hbody⟩ := hlists.body
  obtain ⟨m₁, henter, hclear⟩ := turn_into_root hlimit pos m
  rw [hbody] at henter
  obtain ⟨m₂, hreaches, -, hblank⟩ := h.reaches hlimit hlists.ne_nil hlists.full hclear
  have hleft : s.Reaches (.walk (.start s.pattern.tree pos)) m.ready (.walk ⟨s.pattern.tree, [], e, false⟩) m₂ :=
    .turn henter hreaches
  -- The root is left, and its number has the offset of the attempt.
  have hstart : m₂.starts.get s.pattern.rootId = pos :=
    (hleft.starts_root hnumbered.rootId_notMem).resolve_left (by simp [Cursor.start])
  let m₃ := m₂.visited.record Slot.whole e s.pattern.rootId
  have hleave : s.turn m₂ (.walk ⟨s.pattern.tree, [], e, false⟩) = .going (.walk ⟨.nil, [], e, false⟩) m₃ :=
    s.turn_visit hlimit m₂ (c := ⟨s.pattern.tree, [], e, false⟩) (by simp [Pattern.tree])
  obtain ⟨m', hends, hcaptures⟩ := (hleft.snoc hleave).ends_off
  refine ⟨m', hends, hcaptures.trans ?_⟩
  simp [m₃, Machine.record, Machine.visited, hblank.captures, hblank.startPinned, hblank.stopPinned, hstart]

/-- An attempt that ends tells which alternative is left. -/
theorem chooses_of_attempt (hanonymous : ∀ run ∈ runs, (Chain.ofNodes run).anonymous = true) {fuel : Nat}
    {res : Verdict × Machine} (h : s.attempt fuel pos m = some res) : ∃ r, s.Chooses pos runs r := by
  obtain ⟨next, hbody⟩ := hlists.body
  obtain ⟨m₁, henter, hclear⟩ := turn_into_root hlimit pos m
  cases fuel with
  | zero => cases h
  | succ fuel =>
    rw [attempt, Setting.run, henter, hbody] at h
    exact exists_chooses hlimit hlists.ne_nil hlists.full hanonymous hclear h

end Setting

/-! ## Searches at one offset -/

/-- How an attempt at the offset ends that leaves an alternative at an offset, or none, and what it captures. -/
def attained (pos : Nat) (r : Option Nat) : Verdict × Captures :=
  r.elim (.failed, {}) fun e => (.matched, ({} : Captures).record Slot.whole ⟨pos, e⟩ false false)

theorem Setting.outcome_attempt {s : Setting} (hlimit : s.limit = none) {fuel : Nat} (hfuel : 3 ≤ fuel) (pos : Nat)
    (m : Machine) : s.outcome s.pattern.prefilter fuel 1 pos m =
      (s.attempt fuel pos m).map fun r => (r.1, if r.1 = .matched then r.2.captures else {}) := by
  have hanywhere : Pattern.Prefilter.accepts s.input pos .anywhere = true := rfl
  rw [outcome_unfiltered hlimit hfuel, outcome_step, if_pos hanywhere]
  cases s.attempt fuel pos m with
  | none => rfl
  | some r =>
    obtain ⟨v, m'⟩ := r
    cases v <;> rfl

theorem exists_answer_attained (m : Matcher) (pos e : Nat) :
    ∃ hit, (m.answer (attained pos (some e))).1 = some hit := by
  have hwhole : (({} : Captures).record Slot.whole ⟨pos, e⟩ false false).Whole := by
    intro edge
    cases edge <;> simp [Captures.edge?, Captures.record, Captures.get_set, Bounds.ordered_isSome]
  exact hwhole.ofCaptures

theorem Setting.Chooses.outcome {s : Setting} {pos : Nat} {runs : List (List Node)} {r : Option Nat}
    (hlimit : s.limit = none) (hlists : s.pattern.Lists runs) (hnumbered : s.pattern.Numbered)
    (h : s.Chooses pos runs r) :
    ∃ n, ∀ fuel, n ≤ fuel → s.outcome s.pattern.prefilter fuel 1 pos {} = some (attained pos r) := by
  cases r with
  | none =>
    obtain ⟨m', n, hends⟩ := h.fails hlimit hlists {}
    refine ⟨max n 3, fun fuel hfuel => ?_⟩
    have hattempt : s.attempt fuel pos {} = some (.failed, m') := hends fuel (by omega)
    rw [outcome_attempt hlimit (by omega), hattempt]
    rfl
  | some e =>
    obtain ⟨m', ⟨n, hends⟩, hcaptures⟩ := h.matches hlimit hlists hnumbered {}
    refine ⟨max n 3, fun fuel hfuel => ?_⟩
    have hattempt : s.attempt fuel pos {} = some (.matched, m') := hends fuel (by omega)
    rw [outcome_attempt hlimit (by omega), hattempt]
    simp [attained, hcaptures]

section

variable {m m' : Matcher} {q : Query} {runs : List (List Node)} {r : Option Nat} (hlimit : m.limit = none)
  (hlists : m.pattern.Lists runs) (hnumbered : m.pattern.Numbered) (hmode : q.mode = .anchored)
  (hstart : q.start ≤ q.bound)

include hlimit hlists hnumbered hmode hstart

theorem Setting.Chooses.answers (h : (m.setting q).Chooses q.start runs r) {found : Option Match}
    (hanswer : m.answer (attained q.start r) = (found, m')) : m.Answers q found m' := by
  obtain ⟨n, houtcome⟩ := h.outcome hlimit hlists hnumbered
  refine ⟨n, fun fuel hfuel => ?_⟩
  have hoffsets : q.offsets = 1 := by simp [Query.offsets, hmode]
  have houtcome' : (m.setting q).outcome m.pattern.prefilter fuel 1 q.start {} = some (attained q.start r) :=
    houtcome fuel hfuel
  rw [m.exec_outcome fuel hstart, hoffsets, houtcome', Option.map_some, hanswer]

theorem chooses_of_answers (hanonymous : ∀ run ∈ runs, (Chain.ofNodes run).anonymous = true)
    {found : Option Match} (h : m.Answers q found m') :
    ∃ r, (m.setting q).Chooses q.start runs r ∧ m.answer (attained q.start r) = (found, m') := by
  have hoffsets : q.offsets = 1 := by simp [Query.offsets, hmode]
  obtain ⟨n, hexec⟩ := h
  have hended := hexec (max n 3) (by omega)
  have hattempt := Setting.outcome_attempt (s := m.setting q) hlimit (Nat.le_max_right n 3) q.start {}
  rw [m.exec_outcome _ hstart, hoffsets] at hended
  obtain ⟨outcome, houtcome, -⟩ := Option.map_eq_some_iff.1 hended
  obtain ⟨res, hres, -⟩ := Option.map_eq_some_iff.1 (hattempt.symm.trans houtcome)
  obtain ⟨r, hchooses⟩ := Setting.chooses_of_attempt (s := m.setting q) hlimit hlists hanonymous hres
  obtain ⟨hfound, hmatcher⟩ := (hchooses.answers hlimit hlists hnumbered hmode hstart rfl).unique ⟨n, hexec⟩
  exact ⟨r, hchooses, Prod.ext hfound hmatcher⟩

end

/-! ## A bar between two patterns -/

/-- In the same text every leaf reads the same under patterns with the same options and the same names. -/
theorem Setting.sameReads_of_names {s s' : Setting} (hlimit : s.limit = none) (hlimit' : s'.limit = none)
    (hinput : s'.input = s.input) (hattached : s'.attached = s.attached)
    (hoptions : s'.pattern.options = s.pattern.options)
    (hnames : s'.pattern.names.defined = s.pattern.names.defined) : s.SameReads s' where
  limit := hlimit
  limit' := hlimit'
  reads captures pos op := by
    have hcross : ∀ target, s'.crossText? target = s.crossText? target := by
      intro target
      simp only [crossText?, hattached]
      cases target with
      | slot slot => cases slot <;> simp [Attachment.bounds?, Pattern.GroupNames.name?, hnames]
      | unresolved name => rfl
    cases op with
    | cross target ignoreCase => simp only [read?, hcross, hinput]
    | _ => simp only [read?, hinput, hoptions]

/-- What is attained tells the answer, whatever the pattern is. -/
theorem Matcher.answer_pattern {m m' : Matcher} {r : Verdict × Captures} {found : Option Match} {p p' : Pattern}
    (h : Matcher.answer { m with pattern := p } r = (found, m')) :
    Matcher.answer { m with pattern := p' } r = (found, { m' with pattern := p' }) := by
  obtain ⟨rfl, rfl⟩ := Prod.mk.inj h
  rfl

section

variable {m m' : Matcher} {s : Setting} {q : Query} {runs rest : List (List Node)} {r : Option Nat} {ρ : Nat → Nat}
  {found : Option Match} (hlimit : m.limit = none) (hlists : m.pattern.Lists runs)
  (hnumbered : m.pattern.Numbered) (hanonymous : m.pattern.body.anonymous = true) (hmode : q.mode = .anchored)
  (hstart : q.start ≤ q.bound) (hsame : (m.setting q).SameReads s) (hρ : Renumbers ρ)

include hlimit hlists hnumbered hanonymous hmode hstart hsame hρ

/-- What a search answers tells what is chosen among its alternatives under other numbers. -/
theorem Matcher.Answers.chooses_renumbered (h : m.Answers q found m') :
    ∃ r, s.Chooses q.start (runs.map (List.map (Node.renumber ρ))) r ∧
      m.answer (attained q.start r) = (found, m') := by
  obtain ⟨r, hchooses, hanswer⟩ :=
    chooses_of_answers hlimit hlists hnumbered hmode hstart (hlists.anonymous hanonymous) h
  exact ⟨r, hchooses.renumber hlists.full hsame hρ, hanswer⟩

/-- What is chosen among its alternatives under other numbers and others tells that a search has an answer. If this is
that nothing is found, the choice is made among the others. -/
theorem Setting.Chooses.exists_answers (h : s.Chooses q.start (runs.map (List.map (Node.renumber ρ)) ++ rest) r) :
    ∃ found m', m.Answers q found m' ∧ (found = none → s.Chooses q.start rest r) := by
  obtain ⟨r₁, hchooses, hmissed⟩ := of_renumber hsame hρ hlists.full (hlists.anonymous hanonymous) h
  refine ⟨_, _, hchooses.answers hlimit hlists hnumbered hmode hstart rfl, fun hnone => hmissed ?_⟩
  cases r₁ with
  | none => rfl
  | some e =>
    obtain ⟨hit, hfound⟩ := exists_answer_attained m q.start e
    cases hnone.symm.trans hfound

end

/-- Where no group has a slot, no leaf refers back and no edge is pinned, a search at one offset with a bar between
two patterns finds what the first one finds there, or else what the second one does. It ends only if the search of the
first one ends and, if that finds nothing, the search of the second one. -/
theorem exec_alternation {o : Pattern.Options} {xs ys : List Char} {px py : Pattern} (hx : compile o xs = .ok px)
    (hy : compile o ys = .ok py) (hxs : px.body.anonymous = true) (hys : py.body.anonymous = true) :
    ∃ p, compile o (xs ++ '|' :: ys) = .ok p ∧
      ∀ (m : Matcher) (q : Query), m.limit = none → q.mode = .anchored →
        (∀ hit mx, Matcher.Answers { m with pattern := px } q (some hit) mx →
          Matcher.Answers { m with pattern := p } q (some hit) { mx with pattern := p }) ∧
        (∀ mx found my, Matcher.Answers { m with pattern := px } q none mx →
          Matcher.Answers { m with pattern := py } q found my →
          Matcher.Answers { m with pattern := p } q found { my with pattern := p }) ∧
        ∀ found m', Matcher.Answers { m with pattern := p } q found m' →
          ∃ found' mx, Matcher.Answers { m with pattern := px } q found' mx ∧
            (found' = none → ∃ found'' my, Matcher.Answers { m with pattern := py } q found'' my) := by
  obtain ⟨p, runs, runs', ρ, ρ', hp, hlistsx, hlistsy, hρ, hρ', hnames, hlists⟩ := Pattern.compile_bar hx hy hxs
  refine ⟨p, hp, fun m q hlimit hmode => ?_⟩
  have hoptions := Pattern.options_of_compile hp
  have hsamex : Setting.SameReads ({ m with pattern := px }.setting q) ({ m with pattern := p }.setting q) :=
    Setting.sameReads_of_names hlimit hlimit rfl rfl (hoptions.trans (Pattern.options_of_compile hx).symm)
      ((hnames.trans (Pattern.names_of_anonymous hy hys)).trans (Pattern.names_of_anonymous hx hxs).symm)
  have hsamey : Setting.SameReads ({ m with pattern := py }.setting q) ({ m with pattern := p }.setting q) :=
    Setting.sameReads_of_names hlimit hlimit rfl rfl (hoptions.trans (Pattern.options_of_compile hy).symm) hnames
  rcases Nat.lt_or_ge q.bound q.start with hbehind | hstart
  · -- None of them finds anything.
    have hbehindx := Matcher.answers_behind { m with pattern := px } hbehind
    have hbehindy := Matcher.answers_behind { m with pattern := py } hbehind
    refine ⟨fun hit mx hit_x => ?_, fun mx found my _ hit_y => ?_, fun _ _ _ => ?_⟩
    · exact absurd (hbehindx.unique hit_x).1 (by simp)
    · obtain ⟨rfl, rfl⟩ := hbehindy.unique hit_y
      exact Matcher.answers_behind { m with pattern := p } hbehind
    · exact ⟨none, _, hbehindx, fun _ => ⟨none, _, hbehindy⟩⟩
  · have hnumbered := Pattern.numbered_of_compile hp
    have hchoosesx := fun found mx => @Matcher.Answers.chooses_renumbered { m with pattern := px } mx _ q
      runs ρ found hlimit hlistsx (Pattern.numbered_of_compile hx) hxs hmode hstart hsamex hρ
    have hchoosesy := fun found my => @Matcher.Answers.chooses_renumbered { m with pattern := py } my _ q
      runs' ρ' found hlimit hlistsy (Pattern.numbered_of_compile hy) hys hmode hstart hsamey hρ'
    refine ⟨fun hit mx hmx => ?_, fun mx found my hmx hmy => ?_, fun found m' hm' => ?_⟩
    · obtain ⟨r, hchooses, hanswer⟩ := hchoosesx _ _ hmx
      cases r with
      | none => cases congrArg Prod.fst hanswer
      | some e =>
        have hjoined := hchooses.append_found (runs'.map (List.map (Node.renumber ρ')))
        exact hjoined.answers (m := { m with pattern := p }) hlimit hlists hnumbered hmode hstart
          (Matcher.answer_pattern hanswer)
    · obtain ⟨r, hchooses, hanswer⟩ := hchoosesx _ _ hmx
      obtain ⟨r', hchooses', hanswer'⟩ := hchoosesy _ _ hmy
      cases r with
      | none =>
        have hjoined := hchooses.append_missed hchooses'
        exact hjoined.answers (m := { m with pattern := p }) hlimit hlists hnumbered hmode hstart
          (Matcher.answer_pattern hanswer')
      | some e =>
        obtain ⟨hit, hfound⟩ := exists_answer_attained { m with pattern := px } q.start e
        rw [hanswer] at hfound
        cases hfound
    · have hanonymous := List.forall_mem_append.2
        ⟨hlistsx.anonymous_renumber hxs ρ, hlistsy.anonymous_renumber hys ρ'⟩
      obtain ⟨r, hchooses, -⟩ := chooses_of_answers (m := { m with pattern := p }) hlimit hlists hnumbered hmode
        hstart hanonymous hm'
      obtain ⟨found', mx, hmx, hmissed⟩ := hchooses.exists_answers (m := { m with pattern := px }) hlimit hlistsx
        (Pattern.numbered_of_compile hx) hxs hmode hstart hsamex hρ
      refine ⟨found', mx, hmx, fun hnone => ?_⟩
      have hrest := hmissed hnone
      rw [← List.append_nil (runs'.map _)] at hrest
      obtain ⟨found'', my, hmy, -⟩ := hrest.exists_answers (m := { m with pattern := py }) hlimit hlistsy
        (Pattern.numbered_of_compile hy) hys hmode hstart hsamey hρ'
      exact ⟨found'', my, hmy⟩

/-- The pattern `ab|a`. -/
def abOrA : Pattern where
  options := {}
  names := .empty
  body :=
    .box 3 .alternative (.leaf 0 (.unit (.literal 97)) (.leaf 1 (.unit (.literal 98)) .nil))
      (.leaf 2 (.unit (.literal 97)) .nil)
  rootId := 4

/-- The pattern `c*`. -/
def someCs : Pattern where
  options := {}
  names := .empty
  body := .box 1 (.loop ⟨0, none, false⟩) (.leaf 0 (.unit (.literal 99)) .nil) .nil
  rootId := 2

/-- In `abc` the pattern `ab|a|c*` finds what `ab|a` finds, in `cc` what `c*` finds. -/
theorem exec_alternation_abOrA_someCs :
    compile {} "ab|a".toList = .ok abOrA ∧ compile {} "c*".toList = .ok someCs ∧
    abOrA.body.anonymous = true ∧ someCs.body.anonymous = true ∧
    ∃ p, compile {} "ab|a|c*".toList = .ok p ∧
      (∃ hit m', ({ pattern := p } : Matcher).Answers { text := #[97, 98, 99], mode := .anchored } (some hit) m' ∧
        hit.span = ⟨0, 2⟩) ∧
      ∃ hit m', ({ pattern := p } : Matcher).Answers { text := #[99, 99], mode := .anchored } (some hit) m' ∧
        hit.span = ⟨0, 2⟩ := by
  let abc : Query := { text := #[97, 98, 99], mode := .anchored }
  let cc : Query := { text := #[99, 99], mode := .anchored }
  have hx : compile {} "ab|a".toList = .ok abOrA := by decide +kernel
  have hy : compile {} "c*".toList = .ok someCs := by decide +kernel
  have hxs : abOrA.body.anonymous = true := Pattern.anonymous_of_written hx (by decide +kernel)
  have hys : someCs.body.anonymous = true := Pattern.anonymous_of_written hy (by decide +kernel)
  obtain ⟨p, hp, halternation⟩ := exec_alternation hx hy hxs hys
  refine ⟨hx, hy, hxs, hys, p, hp, ?_, ?_⟩
  · have hspan : ((({ pattern := abOrA } : Matcher).exec 100 abc).bind (·.1)).map Match.span = some ⟨0, 2⟩ := by
      decide +kernel
    obtain ⟨hit, hhit, hspan⟩ := Option.map_eq_some_iff.1 hspan
    obtain ⟨⟨_, m'⟩, hexec, rfl⟩ := Option.bind_eq_some_iff.1 hhit
    obtain ⟨hfirst, -, -⟩ := halternation { pattern := p } abc rfl rfl
    exact ⟨hit, _, hfirst hit m' (Matcher.answers_of_exec hexec), hspan⟩
  · have hnone : (({ pattern := abOrA } : Matcher).exec 100 cc).map (fun r => r.1.isNone) = some true := by
      decide +kernel
    have hspan : ((({ pattern := someCs } : Matcher).exec 100 cc).bind (·.1)).map Match.span = some ⟨0, 2⟩ := by
      decide +kernel
    obtain ⟨⟨found, mx⟩, hexecx, hfound⟩ := Option.map_eq_some_iff.1 hnone
    obtain rfl := Option.isNone_iff_eq_none.1 hfound
    obtain ⟨hit, hhit, hspan⟩ := Option.map_eq_some_iff.1 hspan
    obtain ⟨⟨_, my⟩, hexecy, rfl⟩ := Option.bind_eq_some_iff.1 hhit
    obtain ⟨-, hsecond, -⟩ := halternation { pattern := p } cc rfl rfl
    exact ⟨hit, _, hsecond mx _ my (Matcher.answers_of_exec hexecx) (Matcher.answers_of_exec hexecy), hspan⟩

end SpanRegex
