import SpanRegex.Proofs.Building
import SpanRegex.Proofs.Marks
import SpanRegex.Proofs.Renumbering
import SpanRegex.Proofs.Replacement
import SpanRegex.Proofs.TokenRows

/-! # The slots of groups and names

What a text writes, in order, decides which groups have a slot and to which slot each name refers.

* `Written`, `Token.written`: the groups, leaves and references that a text writes; `nameless_of_read`: no leaf
  of a token means a name.
* `scopeOf`: the groups that have been opened by what is written; `slot?_append`: their slots stay.
* `markOf`: the mark that each of them makes after the others; `Marked`, `Builder.Tracks`: they have been made.
* `SlotsFit`, `slots_of_compile`: the slots of a compiled pattern.
-/

namespace SpanRegex.Pattern
set_option autoImplicit false

/-! ## What is written -/

/-- A group, a leaf or a reference in a text. -/
inductive Written
  | opening (kind : Opening)
  | leaf (op : Leaf)
  | reference (name : String)
  | cross (name : String) (ignoreCase : Bool)
  deriving DecidableEq

/-- What a token writes. A look has no slot; a character above U+FFFF is a group of its two units. -/
def Token.written : Token → List Written
  | .opening (.look _) => []
  | .opening kind => [.opening kind]
  | .literal c =>
    match CodeUnit.ofChar c with
    | [u] => [.leaf (.unit (.literal u))]
    | units => .opening .silent :: units.map fun u => .leaf (.unit (.literal u))
  | .leaf op => if op = .empty then [] else [.leaf op]
  | .referenceName name => [.reference name]
  | .crossName name ignoreCase => [.cross name ignoreCase]
  | .closing | .bar | .quantifier _ => []

/-- The name of a group; an empty name is none. -/
def Written.name? : Written → Option String
  | .opening (.named name) => if name = "" then none else some name
  | _ => none

/-- The leaf refers to no name, neither in this pattern nor in the attached match. -/
def Leaf.nameless : Leaf → Bool
  | .reference (.named _) | .cross (.slot (.named _)) _ | .cross (.unresolved _) _ => false
  | _ => true

theorem nameless_of_scanLetter {width : Nat} {c : Char} {cs : List Char} {op : Leaf}
    (h : Token.scanLetter c cs = some (.leaf op, width)) : op.nameless = true := by
  unfold Token.scanLetter at h
  split at h
  · obtain ⟨found, -, hfound⟩ := Option.map_eq_some_iff.1 h
    cases (Prod.mk.inj hfound).1
  · split at h
    · unfold Token.scanCross at h
      split at h
      · cases (Prod.mk.inj (Option.some.inj h)).1
      · simp only [bind, Option.bind_eq_some_iff] at h
        obtain ⟨slot, -, hslot⟩ := h
        cases (Prod.mk.inj (Option.some.inj hslot)).1
        rfl
    · split at h
      · obtain ⟨slot, -, hslot⟩ := Option.map_eq_some_iff.1 h
        cases (Prod.mk.inj hslot).1
        rfl
      · obtain ⟨found, -, hfound⟩ := Option.map_eq_some_iff.1 h
        cases (Prod.mk.inj hfound).1
        rfl

theorem nameless_of_scan {o : Options} {pos width : Nat} {c : Char} {cs : List Char} {op : Leaf}
    (h : Token.scan o pos c cs = .ok (.leaf op, width)) : op.nameless = true := by
  have hquantified : ∀ {min : UInt32} {max : Option UInt32} {start : Nat},
      Token.quantified min max start cs ≠ (.leaf op, width) := by
    intro min max start heq
    unfold Token.quantified at heq
    split at heq <;> cases (Prod.mk.inj heq).1
  cases Token.scan_eq_ok.1 h with
  | opening read =>
    unfold Token.scanOpening Token.scanBehind at read
    split at read <;> (try split at read) <;> cases read
  | quantifier _ read => exact absurd read hquantified
  | braces _ read => exact absurd read hquantified
  | set => rfl
  | escape read =>
    obtain ⟨d, rest, -, ⟨op', hescaped, hop, -⟩ | ⟨inside, -, hletter, -⟩⟩ := Token.scanEscape_eq_ok read
    · obtain rfl := Token.leaf.inj hop
      unfold Token.escaped? at hescaped
      split at hescaped <;> first | cases hescaped; rfl | cases hescaped
    · exact nameless_of_scanLetter hletter
  | leaf sign =>
    unfold Token.leafOf? at sign
    split at sign <;> cases sign <;> rfl

/-- No leaf that a text writes refers to a name. -/
theorem nameless_of_read {o : Options} {cs : List Char} {op : Leaf}
    (h : .leaf op ∈ (Token.read o cs).1.flatMap fun entry => entry.2.written) : op.nameless = true := by
  obtain ⟨entry, hentry, hwritten⟩ := List.mem_flatMap.1 h
  obtain ⟨-, c, lit, post, -, -, -, -, -, hscan, -⟩ := (Token.row_iff.1 (Prod.eta _).symm).split entry hentry
  cases htoken : entry.2 with
  | leaf op' =>
    rw [htoken] at hscan
    simp only [htoken, Token.written] at hwritten
    split at hwritten
    · cases hwritten
    · obtain rfl := Written.leaf.inj (List.mem_singleton.1 hwritten)
      exact nameless_of_scan hscan
  | opening kind =>
    rw [htoken] at hwritten
    cases kind <;> simp [Token.written] at hwritten
  | literal c =>
    simp only [htoken, Token.written] at hwritten
    split at hwritten
    · obtain rfl := Written.leaf.inj (List.mem_singleton.1 hwritten)
      rfl
    · simp only [List.mem_cons, reduceCtorEq, List.mem_map, Written.leaf.injEq, false_or] at hwritten
      obtain ⟨u, -, rfl⟩ := hwritten
      rfl
  | closing => simp [htoken, Token.written] at hwritten
  | bar => simp [htoken, Token.written] at hwritten
  | quantifier q => simp [htoken, Token.written] at hwritten
  | referenceName name => simp [htoken, Token.written] at hwritten
  | crossName name ignoreCase => simp [htoken, Token.written] at hwritten

/-! ## The groups that have been opened -/

/-- The groups that are opened by what is written. -/
def scopeOf (ws : List Written) : Scope :=
  ⟨ws.count (.opening .plain), (ws.filterMap Written.name?).eraseDups⟩

theorem mem_scopeOf_names {ws : List Written} {name : String} :
    name ∈ (scopeOf ws).names ↔ name ≠ "" ∧ .opening (.named name) ∈ ws := by
  simp only [scopeOf, List.mem_eraseDups, List.mem_filterMap]
  constructor
  · rintro ⟨w, hw, hname⟩
    unfold Written.name? at hname
    split at hname
    · split at hname
      · cases hname
      · rename_i hne
        cases hname
        exact ⟨hne, hw⟩
    · cases hname
  · rintro ⟨hne, hw⟩
    exact ⟨_, hw, by simp [Written.name?, hne]⟩

theorem scopeOf_names_append (ws ws' : List Written) :
    ∃ more, (scopeOf (ws ++ ws')).names = (scopeOf ws).names ++ more := by
  simp only [scopeOf, List.filterMap_append, List.eraseDups_append]
  exact ⟨_, rfl⟩

theorem scopeOf_names_named {ws : List Written} {name : String} (hne : name ≠ "") :
    (scopeOf (ws ++ [.opening (.named name)])).names =
      if name ∈ (scopeOf ws).names then (scopeOf ws).names else (scopeOf ws).names ++ [name] := by
  have hnew : (scopeOf (ws ++ [.opening (.named name)])).names =
      (scopeOf ws).names ++ ([name].removeAll (ws.filterMap Written.name?)).eraseDups := by
    simp only [scopeOf, List.filterMap_append, List.eraseDups_append, List.filterMap_cons, Written.name?, if_neg hne,
      List.filterMap_nil]
  have hmem : name ∈ (scopeOf ws).names ↔ name ∈ ws.filterMap Written.name? := List.mem_eraseDups
  rw [hnew]
  by_cases hin : name ∈ ws.filterMap Written.name?
  · rw [if_pos (hmem.2 hin), List.removeAll, List.filter_cons_of_neg (by simpa using hin)]
    exact List.append_nil _
  · rw [if_neg (hin ∘ hmem.1), List.removeAll, List.filter_cons_of_pos (by simpa using hin)]
    rfl

/-- Groups without a name, leaves and references open no name. -/
theorem scopeOf_append {ws ws' : List Written} (h : ∀ w ∈ ws', w.name? = none) :
    (scopeOf (ws ++ ws')).names = (scopeOf ws).names := by
  have hnone : ws'.filterMap Written.name? = [] := List.filterMap_eq_nil_iff.2 h
  simp only [scopeOf, List.filterMap_append, hnone, List.append_nil]

theorem nodup_scopeOf (ws : List Written) : (scopeOf ws).names.Nodup := by
  induction ws using List.reverseRecOn with
  | nil => exact List.nodup_nil
  | append_singleton ws w ih =>
    by_cases hname : w.name? = none
    · rwa [scopeOf_append (by simpa using hname)]
    · unfold Written.name? at hname
      split at hname
      · split at hname
        · exact absurd rfl hname
        · rename_i hne
          rw [scopeOf_names_named hne]
          split
          · exact ih
          · rename_i hnew
            exact List.nodup_append.2 ⟨ih, List.pairwise_singleton _ _, fun a ha b hb heq =>
              hnew ((heq.trans (List.mem_singleton.1 hb)) ▸ ha)⟩
      · exact absurd rfl hname

/-- The slot of a name is its place among the first ten. -/
theorem slot?_scopeOf {ws : List Written} {name : String} {slot : SlotIndex} :
    (scopeOf ws).slot? name = some slot ↔ (scopeOf ws).names[slot.val]? = some name := by
  have htake : ((scopeOf ws).names.take 10)[slot.val]? = (scopeOf ws).names[slot.val]? :=
    List.getElem?_take_of_lt slot.isLt
  have hnodup : ((scopeOf ws).names.take 10).Nodup := (nodup_scopeOf ws).sublist (List.take_sublist _ _)
  rw [← htake, Scope.slot?, Option.map_eq_some_iff]
  constructor
  · rintro ⟨i, hi, rfl⟩
    rw [← (List.finIdxOf?_eq_some_iff.1 hi).1]
    exact List.getElem?_eq_getElem i.isLt
  · intro hslot
    obtain ⟨hlt, hname⟩ := List.getElem?_eq_some_iff.1 hslot
    refine ⟨⟨slot.val, hlt⟩, List.finIdxOf?_eq_some_iff.2 ⟨hname, fun j hj heq => ?_⟩, rfl⟩
    have hsame : j.val = slot.val := (List.getElem_inj hnodup).1 (heq.trans hname.symm)
    exact absurd hsame (Nat.ne_of_lt hj)

/-- A name that has been opened keeps its slot, or has none for good. -/
theorem slot?_append {ws ws' : List Written} {name : String} (hmem : name ∈ (scopeOf ws).names) :
    (scopeOf (ws ++ ws')).slot? name = (scopeOf ws).slot? name := by
  obtain ⟨more, hmore⟩ := scopeOf_names_append ws ws'
  have hnodup : ((scopeOf ws).names ++ more).Nodup := hmore ▸ nodup_scopeOf (ws ++ ws')
  obtain ⟨i, hi, hname⟩ := List.mem_iff_getElem.1 hmem
  apply Option.ext
  intro slot
  rw [slot?_scopeOf, slot?_scopeOf, hmore]
  constructor
  · intro hslot
    have hfirst : ((scopeOf ws).names ++ more)[i]? = some name := by
      rw [List.getElem?_append_left hi, List.getElem?_eq_getElem hi, hname]
    obtain ⟨hlt, hat⟩ := List.getElem?_eq_some_iff.1 hslot
    obtain ⟨hlt', hat'⟩ := List.getElem?_eq_some_iff.1 hfirst
    have hsame : slot.val = i := (List.getElem_inj hnodup).1 (hat.trans hat'.symm)
    rw [hsame, List.getElem?_eq_getElem hi, hname]
  · intro hslot
    obtain ⟨hlt, -⟩ := List.getElem?_eq_some_iff.1 hslot
    rwa [List.getElem?_append_left hlt]

theorem mem_of_slot? {ws : List Written} {name : String} {slot : SlotIndex}
    (h : (scopeOf ws).slot? name = some slot) : name ∈ (scopeOf ws).names :=
  List.mem_of_getElem? (slot?_scopeOf.1 h)

/-! ## The mark of each -/

/-- The slot of the plain group with this number, from 1 on: nine have one. -/
def Slot.ofNumber? (n : Nat) : Option Slot := if h : n < 10 then some (.numbered ⟨n, h⟩) else none

/-- The mark that is made after what stands before. A reference to a name without a slot makes none. -/
def markOf (before : List Written) : Written → Option Mark
  | .opening .plain => some (.group (Slot.ofNumber? (before.count (.opening .plain) + 1)))
  | .opening (.named name) =>
    some (.group (((scopeOf (before ++ [.opening (.named name)])).slot? name).map .named))
  | .opening _ => some (.group none)
  | .leaf op => some (.leaf op)
  | .reference name => ((scopeOf before).slot? name).map fun slot => .leaf (.reference (.named slot))
  | .cross name ignoreCase => some (.leaf (.cross ((scopeOf before).target name) ignoreCase))

/-- The marks are those of what is written, one for each. -/
structure Marked (marks : List Mark) (ws : List Written) : Prop where
  length : marks.length = ws.length
  mark : ∀ i w, ws[i]? = some w → ∃ mark, marks[i]? = some mark ∧ markOf (ws.take i) w = some mark

namespace Marked

variable {marks : List Mark} {ws : List Written}

theorem concat (h : Marked marks ws) {w : Written} {mark : Mark} (hmark : markOf ws w = some mark) :
    Marked (marks ++ [mark]) (ws ++ [w]) := by
  refine ⟨by simp [h.length], fun i w' hw => ?_⟩
  rcases Nat.lt_or_ge i ws.length with hlt | hge
  · rw [List.getElem?_append_left hlt] at hw
    rw [List.getElem?_append_left (h.length ▸ hlt), List.take_append_of_le_length (Nat.le_of_lt hlt)]
    exact h.mark i w' hw
  · obtain ⟨hlt, hat⟩ := List.getElem?_eq_some_iff.1 hw
    obtain rfl : i = ws.length := by
      rw [List.length_append, List.length_singleton] at hlt
      omega
    rw [List.getElem_concat_length rfl] at hat
    subst hat
    refine ⟨mark, ?_, by rwa [List.take_left]⟩
    rw [← h.length, List.getElem?_concat_length]

theorem units (units : List CodeUnit) : ∀ {marks : List Mark} {ws : List Written}, Marked marks ws →
    Marked (marks ++ units.map fun u => .leaf (.unit (.literal u)))
      (ws ++ units.map fun u => .leaf (.unit (.literal u))) := by
  induction units with
  | nil => simp
  | cons u units ih =>
    intro marks ws h
    rw [List.map_cons, List.map_cons, List.append_cons, List.append_cons ws]
    exact ih (h.concat rfl)

/-- A character makes its units, in a group if there are two. -/
theorem literal (h : Marked marks ws) (c : Char) :
    Marked (marks ++ Builder.literalMarks c) (ws ++ (Token.literal c).written) := by
  simp only [Builder.literalMarks, Token.written]
  generalize CodeUnit.ofChar c = units
  have hgroup : Marked (marks ++ .group none :: units.map fun u => .leaf (.unit (.literal u)))
      (ws ++ .opening .silent :: units.map fun u => .leaf (.unit (.literal u))) := by
    rw [List.append_cons, List.append_cons ws]
    exact Marked.units units (h.concat rfl)
  cases units with
  | nil => exact hgroup
  | cons u units =>
    cases units with
    | nil => exact h.concat rfl
    | cons v units => exact hgroup

end Marked

/-! ## Builders -/

/-- The builder has met the groups that are opened, and has made the marks of what is written. -/
structure Builder.Tracks (b : Builder) (ws : List Written) : Prop where
  knows : b.Knows (scopeOf ws)
  marked : Marked b.marks ws

namespace Builder

variable {b b' : Builder} {ws : List Written}

theorem Tracks.lookup (h : b.Tracks ws) (name : String) : b.names.lookup name = (scopeOf ws).slot? name :=
  GroupNames.lookup_eq h.knows.names name

/-- Nothing that is written opens a group with a slot. -/
theorem Knows.written (h : b.Knows (scopeOf ws)) {ws' : List Written} (hgroups : b'.groups = b.groups)
    (hnames : b'.names.defined = b.names.defined) (hplain : .opening .plain ∉ ws')
    (hnamed : ∀ w ∈ ws', w.name? = none) : b'.Knows (scopeOf (ws ++ ws')) := by
  refine ⟨?_, ?_⟩
  · rw [hgroups, h.groups]
    simp [scopeOf, List.count_eq_zero.2 hplain]
  · rw [hnames, h.names, scopeOf_append hnamed]

theorem Tracks.same (h : b.Tracks ws) (hgroups : b'.groups = b.groups)
    (hnames : b'.names.defined = b.names.defined) (hmarks : b'.marks = b.marks) : b'.Tracks ws :=
  ⟨⟨hgroups.trans h.knows.groups, hnames.trans h.knows.names⟩, hmarks ▸ h.marked⟩

theorem Tracks.addLeaf (h : b.Tracks ws) {op : Leaf} {w : Written} (hop : op ≠ .empty)
    (hw : markOf ws w = some (.leaf op)) (hplain : w ≠ .opening .plain) (hname : w.name? = none) :
    (b.addLeaf op).Tracks (ws ++ [w]) where
  knows := h.knows.written rfl rfl (by simpa using hplain.symm) (by simpa using hname)
  marked := by
    rw [marks_addLeaf, Leaf.marks, if_neg hop]
    exact h.marked.concat hw

theorem Tracks.addLiteral (h : b.Tracks ws) (c : Char) :
    (b.addLiteral c).Tracks (ws ++ (Token.literal c).written) where
  knows := by
    apply h.knows.written
    · unfold Builder.addLiteral
      split <;> rfl
    · rw [addLiteral_names]
    · simp only [Token.written]
      split <;> simp
    · simp only [Token.written]
      split <;> simp [Written.name?]
  marked := by
    rw [marks_addLiteral]
    exact h.marked.literal c

theorem Tracks.openPlain (h : b.Tracks ws) : (b.openGroup .plain).Tracks (ws ++ [.opening .plain]) := by
  have hgroups : b.groups = min 9 (ws.count (.opening .plain)) := h.knows.groups
  have hnames : (scopeOf (ws ++ [.opening .plain])).names = (scopeOf ws).names :=
    scopeOf_append (by simp [Written.name?])
  have hcount : (scopeOf (ws ++ [.opening .plain])).groups = ws.count (.opening .plain) + 1 := by
    simp [scopeOf]
  by_cases hroom : b.groups + 1 < 10
  · have hsame : b.groups = ws.count (.opening .plain) := by omega
    have hslot : Slot.ofNumber? (ws.count (.opening .plain) + 1) = some (.numbered ⟨b.groups + 1, hroom⟩) := by
      simp only [Slot.ofNumber?, ← hsame, dif_pos hroom]
    rw [Builder.openGroup, dif_pos hroom]
    refine ⟨⟨?_, hnames ▸ h.knows.names⟩, ?_⟩
    · have hnext : b.groups + 1 = min 9 (ws.count (.opening .plain) + 1) := by omega
      exact hcount ▸ hnext
    · rw [marks_push]
      exact h.marked.concat (by rw [markOf, hslot])
  · have hfull : ¬ ws.count (.opening .plain) + 1 < 10 := by omega
    rw [Builder.openGroup, dif_neg hroom]
    refine ⟨⟨?_, hnames ▸ h.knows.names⟩, ?_⟩
    · have hstays : b.groups = min 9 (ws.count (.opening .plain) + 1) := by omega
      exact hcount ▸ hstays
    · rw [marks_push]
      exact h.marked.concat (by rw [markOf, Slot.ofNumber?, dif_neg hfull])

theorem Tracks.openNamed (h : b.Tracks ws) (name : String) :
    (b.openGroup (.named name)).Tracks (ws ++ [.opening (.named name)]) := by
  have hcount : (scopeOf (ws ++ [.opening (.named name)])).groups = (scopeOf ws).groups := by
    simp [scopeOf]
  by_cases hempty : name = ""
  · subst hempty
    have hnone : ∀ w ∈ [Written.opening (.named "")], w.name? = none := by simp [Written.name?]
    have hslot : (scopeOf (ws ++ [.opening (.named "")])).slot? "" = none := by
      apply Option.eq_none_iff_forall_ne_some.2
      intro slot hslot
      exact absurd rfl (mem_scopeOf_names.1 (mem_of_slot? hslot)).1
    refine ⟨h.knows.written rfl rfl (by simp) hnone, ?_⟩
    exact marks_push b _ ▸ h.marked.concat (by rw [markOf, hslot, Option.map_none])
  · have hdefined : (b.names.define name).1.defined =
        (scopeOf (ws ++ [.opening (.named name)])).names.take 10 := by
      rw [GroupNames.define_take h.knows.names, scopeOf_names_named hempty]
    have hslot := GroupNames.define_lookup b.names name
    rw [GroupNames.lookup_eq hdefined] at hslot
    have hopen : b.openGroup (.named name) =
        Builder.push { b with names := (b.names.define name).1 }
          (.group (((scopeOf (ws ++ [.opening (.named name)])).slot? name).map .named)) := by
      have hsome : name.isEmpty = false := by simpa using hempty
      simp only [Builder.openGroup, hsome, Bool.false_eq_true, if_false, hslot]
    rw [hopen]
    refine ⟨⟨?_, hdefined⟩, ?_⟩
    · exact h.knows.groups.trans (congrArg (min 9) hcount.symm)
    · exact marks_push _ _ ▸ h.marked.concat rfl

theorem Tracks.add (h : b.Tracks ws) {token : Token} (htakes : b.Takes token b') :
    b'.Tracks (ws ++ token.written) := by
  cases htakes with
  | opening kind =>
    cases kind with
    | plain => exact h.openPlain
    | silent =>
      exact ⟨h.knows.written rfl rfl (by simp [Token.written]) (by simp [Token.written, Written.name?]),
        marks_push b _ ▸ h.marked.concat rfl⟩
    | named name => exact h.openNamed name
    | look look =>
      rw [Token.written, List.append_nil]
      exact h.same rfl rfl ((marks_push b _).trans (List.append_nil _))
  | closing innermost =>
    rw [Token.written, List.append_nil]
    exact h.same rfl rfl (marks_close innermost (Sequence.assemble_marks _ _) _ _)
  | bar =>
    rw [Token.written, List.append_nil]
    exact h.same rfl rfl (marks_addItem b rfl)
  | quantifier q =>
    rw [Token.written, List.append_nil]
    exact h.same rfl rfl (marks_addItem b rfl)
  | literal c => exact h.addLiteral c
  | leaf op =>
    by_cases hop : op = .empty
    · subst hop
      rw [Token.written, if_pos rfl, List.append_nil]
      exact h.same rfl rfl ((marks_addLeaf b _).trans (List.append_nil _))
    · rw [Token.written, if_neg hop]
      exact h.addLeaf hop rfl (by simp) rfl
  | reference known =>
    rw [h.lookup] at known
    exact h.addLeaf (by simp) (by rw [markOf, known, Option.map_some]) (by simp) rfl
  | cross ignoreCase known =>
    rw [h.lookup] at known
    exact h.addLeaf (by simp) (by rw [markOf, Scope.target, known]) (by simp) rfl
  | @want name ignoreCase unknown =>
    rw [h.lookup] at unknown
    have hwant : Builder.Tracks { b with names := b.names.want name } ws :=
      h.same rfl (GroupNames.want_defined b.names name) rfl
    exact hwant.addLeaf (by simp) (by rw [markOf, Scope.target, unknown]) (by simp) rfl

theorem Tracks.addAll (tokens : List (Nat × Token)) : ∀ {b b' : Builder} {ws : List Written}, b.Tracks ws →
    b.addAll tokens = .ok b' → b'.Tracks (ws ++ tokens.flatMap fun entry => entry.2.written) := by
  induction tokens with
  | nil =>
    intro b b' ws h hadd
    obtain rfl := Except.ok.inj hadd
    rwa [List.flatMap_nil, List.append_nil]
  | cons entry tokens ih =>
    intro b b' ws h hadd
    obtain ⟨b₁, htakes, hrest⟩ := addAll_cons.1 hadd
    rw [List.flatMap_cons, ← List.append_assoc]
    exact ih (h.add htakes) hrest

theorem tracks_start : Tracks {} [] := ⟨⟨rfl, rfl⟩, rfl, by simp⟩

end Builder

/-- The names and the marks of a compiled pattern are those of what its text writes. -/
theorem marked_of_compile {o : Options} {cs : List Char} {p : Pattern} (hp : compile o cs = .ok p) :
    ∃ tokens, Token.read o cs = (tokens, none) ∧
      p.names.defined = (scopeOf (tokens.flatMap fun entry => entry.2.written)).names.take 10 ∧
      Marked p.body.marks (tokens.flatMap fun entry => entry.2.written) := by
  obtain ⟨tokens, b, hread, hadd, hfinish⟩ := tokens_of_compile hp
  obtain ⟨hmarks, hnames⟩ := Builder.marks_of_finish hfinish
  have htracks := Builder.tracks_start.addAll tokens hadd
  exact ⟨tokens, hread, hnames ▸ htracks.knows.names, hmarks ▸ htracks.marked⟩

/-! ## The slots of a compiled pattern -/

/-- The groups and references of the pattern, in the order in which its text writes them, have the slots that
their kinds and names give them. -/
structure SlotsFit (p : Pattern) (ws : List Written) : Prop where
  /-- Only the root records the whole match. -/
  root : p.tree.marks = .group (some Slot.whole) :: p.body.marks ∧ .group (some Slot.whole) ∉ p.body.marks
  length : p.body.marks.length = ws.length
  /-- The plain groups are numbered in the order in which they open; those after the ninth record nothing. -/
  plain : ∀ i : Nat, ws[i]? = some (.opening .plain) →
    p.body.marks[i]? = some (.group (Slot.ofNumber? ((ws.take i).count (.opening .plain) + 1)))
  silent : ∀ i : Nat, ws[i]? = some (.opening .silent) → p.body.marks[i]? = some (.group none)
  /-- A named group has the slot of its name, or records nothing. -/
  named : ∀ (i : Nat) (name : String), ws[i]? = some (.opening (.named name)) →
    p.body.marks[i]? = some (.group ((p.names.lookup name).map .named))
  /-- Two named groups that have slots share them if they have the same name, and only then. -/
  shared : ∀ (i j : Nat) (name name' : String) (slot slot' : Slot),
    ws[i]? = some (.opening (.named name)) → ws[j]? = some (.opening (.named name')) →
    p.body.marks[i]? = some (.group (some slot)) → p.body.marks[j]? = some (.group (some slot')) →
    (slot = slot' ↔ name = name')
  /-- The leaves stand as they are written, and refer to no name. -/
  leaf : ∀ (i : Nat) (op : Leaf), ws[i]? = some (.leaf op) → p.body.marks[i]? = some (.leaf op) ∧ op.nameless = true
  /-- A reference has the slot of its name, whose group opens before. -/
  reference : ∀ (i : Nat) (name : String), ws[i]? = some (.reference name) → ∃ slot,
    p.body.marks[i]? = some (.leaf (.reference (.named slot))) ∧ p.names.name? slot = some name ∧
    .opening (.named name) ∈ ws.take i
  /-- A reference to the attached match has the slot of its name, or stands for the name. -/
  cross : ∀ (i : Nat) (name : String) (ignoreCase : Bool),
    ws[i]? = some (.cross name ignoreCase) → ∃ target,
    p.body.marks[i]? = some (.leaf (.cross target ignoreCase)) ∧
    (target = .unresolved name ∨ ∃ slot, target = .slot (.named slot) ∧ p.names.name? slot = some name)
  /-- The first ten names have slots, in the order in which they first open. -/
  names : p.names.defined = ((ws.filterMap Written.name?).eraseDups).take 10
  distinct : p.names.defined.length ≤ 10 ∧ p.names.defined.Nodup ∧ "" ∉ p.names.defined
  inverse : ∀ (name : String) (slot : SlotIndex), p.names.lookup name = some slot ↔ p.names.name? slot = some name

section

variable {p : Pattern} {ws : List Written}

theorem Marked.at {marks : List Mark} (h : Marked marks ws) {i : Nat} {w : Written} (hw : ws[i]? = some w) :
    marks[i]? = markOf (ws.take i) w := by
  obtain ⟨mark, hmark, hof⟩ := h.mark i w hw
  rw [hmark, hof]

theorem take_concat_drop {i : Nat} {w : Written} (h : ws[i]? = some w) :
    ws.take i ++ [w] ++ ws.drop (i + 1) = ws := by
  obtain ⟨hi, rfl⟩ := List.getElem?_eq_some_iff.1 h
  rw [List.append_assoc, List.singleton_append, List.getElem_cons_drop, List.take_append_drop]

/-- The slot that a name has where its group opens is the one that it has in the end. -/
theorem slot?_opening {i : Nat} {name : String} (h : ws[i]? = some (.opening (.named name))) :
    (scopeOf (ws.take i ++ [.opening (.named name)])).slot? name = (scopeOf ws).slot? name := by
  by_cases hempty : name = ""
  · have hnone : ∀ ws', (scopeOf ws').slot? name = none := by
      intro ws'
      apply Option.eq_none_iff_forall_ne_some.2
      exact fun slot hslot => (mem_scopeOf_names.1 (mem_of_slot? hslot)).1 hempty
    rw [hnone, hnone]
  · have hmem : name ∈ (scopeOf (ws.take i ++ [.opening (.named name)])).names :=
      mem_scopeOf_names.2 ⟨hempty, by simp⟩
    have hstays := @slot?_append _ (ws.drop (i + 1)) name hmem
    rw [take_concat_drop h] at hstays
    exact hstays.symm

/-- No group but the root records the whole match. -/
theorem Marked.whole_notMem {marks : List Mark} (h : Marked marks ws) : .group (some Slot.whole) ∉ marks := by
  intro hmem
  obtain ⟨i, hi, hat⟩ := List.mem_iff_getElem.1 hmem
  obtain ⟨w, hw⟩ : ∃ w, ws[i]? = some w := ⟨_, List.getElem?_eq_getElem (h.length ▸ hi)⟩
  obtain ⟨mark, hmark, hof⟩ := h.mark i w hw
  obtain rfl : mark = .group (some Slot.whole) := by
    rw [List.getElem?_eq_getElem hi, hat] at hmark
    exact (Option.some.inj hmark).symm
  cases w with
  | opening kind =>
    cases kind with
    | plain =>
      simp only [markOf, Slot.ofNumber?] at hof
      split at hof <;> simp [Slot.whole] at hof
    | silent => simp [markOf] at hof
    | look look => simp [markOf] at hof
    | named name => simp [markOf, Slot.whole] at hof
  | leaf op => simp [markOf] at hof
  | reference name => simp [markOf] at hof
  | cross name ignoreCase => simp [markOf] at hof

theorem SlotsFit.of_marked (hnames : p.names.defined = (scopeOf ws).names.take 10)
    (hmarked : Marked p.body.marks ws) (hleaf : ∀ op, .leaf op ∈ ws → op.nameless = true) : SlotsFit p ws := by
  have hlookup : ∀ name, p.names.lookup name = (scopeOf ws).slot? name := GroupNames.lookup_eq hnames
  have hname : ∀ slot, p.names.name? slot = (scopeOf ws).names[slot.val]? := by
    intro slot
    rw [GroupNames.name?, hnames, List.getElem?_take_of_lt slot.isLt]
  have hinverse : ∀ name slot, p.names.lookup name = some slot ↔ p.names.name? slot = some name := by
    intro name slot
    rw [hlookup, hname, slot?_scopeOf]
  -- A slot that a name has in some part of the text stays its slot.
  have hearlier : ∀ (i : Nat) name slot, (scopeOf (ws.take i)).slot? name = some slot →
      p.names.name? slot = some name := by
    intro i name slot hslot
    have hstays := @slot?_append _ (ws.drop i) name (mem_of_slot? hslot)
    rw [List.take_append_drop, ← hlookup, hslot] at hstays
    exact (hinverse name slot).1 hstays
  have hnamed : ∀ (i : Nat) name, ws[i]? = some (.opening (.named name)) →
      p.body.marks[i]? = some (.group ((p.names.lookup name).map .named)) := by
    intro i name hw
    rw [hmarked.at hw, markOf, slot?_opening hw, hlookup]
  constructor
  case root => exact ⟨by simp [tree, Chain.marks, Container.marks], hmarked.whole_notMem⟩
  case length => exact hmarked.length
  case plain => exact fun i hw => hmarked.at hw
  case silent => exact fun i hw => hmarked.at hw
  case named => exact hnamed
  case shared =>
    intro i j name name' slot slot' hi hj hslot hslot'
    rw [hnamed i name hi] at hslot
    rw [hnamed j name' hj] at hslot'
    obtain ⟨index, hindex, rfl⟩ := Option.map_eq_some_iff.1 (Mark.group.inj (Option.some.inj hslot))
    obtain ⟨index', hindex', rfl⟩ := Option.map_eq_some_iff.1 (Mark.group.inj (Option.some.inj hslot'))
    constructor
    · intro hsame
      obtain rfl := Slot.named.inj hsame
      exact Option.some.inj (((hinverse _ _).1 hindex).symm.trans ((hinverse _ _).1 hindex'))
    · intro hsame
      subst hsame
      exact congrArg Slot.named (Option.some.inj (hindex.symm.trans hindex'))
  case leaf => exact fun i op hw => ⟨hmarked.at hw, hleaf op (List.mem_of_getElem? hw)⟩
  case reference =>
    intro i name hw
    obtain ⟨mark, hmark, hof⟩ := hmarked.mark i _ hw
    obtain ⟨slot, hslot, rfl⟩ := Option.map_eq_some_iff.1 hof
    exact ⟨slot, hmark, hearlier i name slot hslot, (mem_scopeOf_names.1 (mem_of_slot? hslot)).2⟩
  case cross =>
    intro i name ignoreCase hw
    refine ⟨_, hmarked.at hw, ?_⟩
    unfold Scope.target
    split
    · rename_i slot hslot
      exact .inr ⟨slot, rfl, hearlier i name slot hslot⟩
    · exact .inl rfl
  case names => exact hnames
  case distinct =>
    refine ⟨p.names.fits, hnames ▸ (nodup_scopeOf ws).sublist (List.take_sublist _ _), fun hmem => ?_⟩
    rw [hnames] at hmem
    exact (mem_scopeOf_names.1 (List.mem_of_mem_take hmem)).1 rfl
  case inverse => exact hinverse

end

/-- Every pattern that compiles has the slots that its text gives. -/
theorem slots_of_compile {o : Options} {cs : List Char} {p : Pattern} (hp : compile o cs = .ok p) :
    ∃ tokens, Token.read o cs = (tokens, none) ∧ SlotsFit p (tokens.flatMap fun entry => entry.2.written) := by
  obtain ⟨tokens, hread, hnames, hmarked⟩ := marked_of_compile hp
  refine ⟨tokens, hread, .of_marked hnames hmarked fun op hop => ?_⟩
  have htokens : (Token.read o cs).1 = tokens := by rw [hread]
  exact nameless_of_read (htokens ▸ hop)

/-- The number of a slot among those of its kind. -/
def Slot.index : Slot → SlotIndex
  | .numbered index | .named index => index

def firstName : Slot := .named Slot.whole.index

/-- The pattern `(a)(?\x7bn\x7db)\p\x7bn\x7d(?\x7bn\x7dc)\y\x7bn\x7d`. -/
def namedPair : Pattern where
  options := {}
  names := (GroupNames.empty.define "n").1
  body :=
    .box 1 (.group (Slot.ofNumber? 1)) (.leaf 0 (.unit (.literal 97)) .nil)
      (.box 3 (.group (some firstName)) (.leaf 2 (.unit (.literal 98)) .nil)
        (.leaf 4 (.reference firstName)
          (.box 6 (.group (some firstName)) (.leaf 5 (.unit (.literal 99)) .nil)
            (.leaf 7 (.cross (.slot firstName) false) .nil))))
  rootId := 8

theorem slots_of_compile_namedPair :
    compile {} "(a)(?\x7bn\x7db)\\p\x7bn\x7d(?\x7bn\x7dc)\\y\x7bn\x7d".toList = .ok namedPair ∧
    ∃ tokens, Token.read {} "(a)(?\x7bn\x7db)\\p\x7bn\x7d(?\x7bn\x7dc)\\y\x7bn\x7d".toList = (tokens, none) ∧
      SlotsFit namedPair (tokens.flatMap fun entry => entry.2.written) :=
  have hcompile : compile {} "(a)(?\x7bn\x7db)\\p\x7bn\x7d(?\x7bn\x7dc)\\y\x7bn\x7d".toList = .ok namedPair := by
    decide +kernel
  ⟨hcompile, slots_of_compile hcompile⟩

end SpanRegex.Pattern
