import SpanRegex.Proofs.Slots

/-! # Two patterns with a bar between them

Where two pattern texts compile and the first has no group with a slot, they compile with a bar between them. The
alternatives are those of the first and then those of the second, with other numbers.

* `Chain.anonymous`: no group has a slot, and no leaf refers back or pins an edge; `anonymous_of_written`.
* `Pattern.Lists`: the children of the root are the alternatives in the list.
* `read_bar`: the tokens of the joined text.
* `compile_bar`: the pattern of the joined text.
-/

namespace SpanRegex.Pattern
set_option autoImplicit false

/-! ## Patterns without slots -/

/-- The group has no slot; the leaf neither reads a slot nor pins an edge. -/
def Mark.anonymous : Mark → Bool
  | .group capture => capture.isNone
  | .leaf (.reference _) | .leaf (.pin _) => false
  | .leaf _ => true

/-- No group has a slot, and no leaf refers back or pins an edge. -/
def Chain.anonymous (c : Chain) : Bool := c.marks.all Mark.anonymous

/-- What is written opens no group that may have a slot, refers to no group and pins no edge. -/
def Written.anonymous : Written → Bool
  | .opening .plain | .opening (.named _) | .reference _ | .leaf (.reference _) | .leaf (.pin _) => false
  | _ => true

theorem anonymous_markOf {before : List Written} {w : Written} {mark : Mark} (hmark : markOf before w = some mark)
    (h : w.anonymous = true) : mark.anonymous = true := by
  cases w with
  | opening kind =>
    cases kind with
    | silent | look => exact Option.some.inj hmark ▸ rfl
    | plain | named => cases h
  | leaf op =>
    obtain rfl := Option.some.inj hmark
    cases op with
    | reference | pin => cases h
    | _ => rfl
  | reference => cases h
  | cross => exact Option.some.inj hmark ▸ rfl

theorem anonymous_of_written {o : Options} {cs : List Char} {p : Pattern} (hp : compile o cs = .ok p)
    (h : ∀ w ∈ (Token.read o cs).1.flatMap fun entry => entry.2.written, w.anonymous = true) :
    p.body.anonymous = true := by
  obtain ⟨tokens, hread, -, hmarked⟩ := marked_of_compile hp
  rw [hread] at h
  refine List.all_eq_true.2 fun mark hmem => ?_
  obtain ⟨i, hi, rfl⟩ := List.getElem_of_mem hmem
  have hw := List.getElem?_eq_getElem (hmarked.length ▸ hi)
  obtain ⟨mark, hget, hmark⟩ := hmarked.mark i _ hw
  obtain rfl := Option.some.inj ((List.getElem?_eq_getElem hi).symm.trans hget)
  exact anonymous_markOf hmark (h _ (List.mem_of_getElem? hw))

theorem Chain.anonymous_renumber {ρ : Nat → Nat} (c : Chain) : (c.renumber ρ).anonymous = c.anonymous := by
  have hmarks : (c.renumber ρ).marks = c.marks := by
    induction c with
    | nil => rfl
    | leaf id op next ih => rw [renumber, marks, ih, marks]
    | box id op body next ihbody ihnext => rw [renumber, marks, ihbody, ihnext, marks]
  rw [anonymous, hmarks, anonymous]

/-- Where no group has a slot, no plain group and no name has been opened. -/
theorem Marked.scopeOf_anonymous {marks : List Mark} {ws : List Written} (h : Marked marks ws)
    (hall : marks.all Mark.anonymous = true) : (scopeOf ws).groups = 0 ∧ (scopeOf ws).names = [] := by
  have hmark : ∀ i w, ws[i]? = some w → ∃ mark, markOf (ws.take i) w = some mark ∧ mark.anonymous = true := by
    intro i w hw
    obtain ⟨mark, hi, hof⟩ := h.mark i w hw
    exact ⟨mark, hof, List.all_eq_true.1 hall mark (List.mem_of_getElem? hi)⟩
  constructor
  · -- The first plain group would have the first number.
    refine List.count_eq_zero.2 fun hmem => ?_
    obtain ⟨before, after, rfl, hnot⟩ := List.eq_append_cons_of_mem hmem
    obtain ⟨mark, hof, hanonymous⟩ := hmark before.length (.opening .plain) (by simp)
    rw [List.take_left, markOf, List.count_eq_zero.2 hnot] at hof
    obtain rfl := Option.some.inj hof
    simp [Mark.anonymous, Slot.ofNumber?] at hanonymous
  · -- The first name would have the first slot.
    cases hnames : (scopeOf ws).names with
    | nil => rfl
    | cons name names =>
      have hslot : (scopeOf ws).slot? name = some ⟨0, Nat.zero_lt_succ 9⟩ := slot?_scopeOf.2 (by rw [hnames]; rfl)
      obtain ⟨-, hopening⟩ := mem_scopeOf_names.1 (mem_of_slot? hslot)
      obtain ⟨i, hi⟩ := List.mem_iff_getElem?.1 hopening
      obtain ⟨mark, hof, hanonymous⟩ := hmark i _ hi
      rw [markOf, slot?_opening hi, hslot] at hof
      obtain rfl := Option.some.inj hof
      simp [Mark.anonymous] at hanonymous

/-! ## Alternatives -/

/-- The children of the root are the alternatives, none of which is empty. -/
structure Lists (p : Pattern) (runs : List (List Node)) : Prop where
  body : ∃ next, p.body = (Sequence.chain next runs).1
  ne_nil : runs ≠ []
  full : ∀ run ∈ runs, run ≠ [] ∧ ∀ node ∈ run, node.Full

theorem Lists.anonymous {p : Pattern} {runs : List (List Node)} (h : p.Lists runs)
    (hanonymous : p.body.anonymous = true) : ∀ run ∈ runs, (Chain.ofNodes run).anonymous = true := by
  intro run hrun
  obtain ⟨next, hbody⟩ := h.body
  rw [hbody, Chain.anonymous, Sequence.chain_marks, List.all_eq_true] at hanonymous
  rw [Chain.anonymous, Chain.marks_ofNodes, List.all_eq_true]
  intro mark hmark
  obtain ⟨node, hnode, hmark⟩ := List.mem_flatMap.1 hmark
  exact hanonymous mark (List.mem_flatMap.2 ⟨node, List.mem_flatten.2 ⟨run, hrun, hnode⟩, hmark⟩)

theorem Lists.anonymous_renumber {p : Pattern} {runs : List (List Node)} (h : p.Lists runs)
    (hanonymous : p.body.anonymous = true) (ρ : Nat → Nat) :
    ∀ run ∈ runs.map (List.map (Node.renumber ρ)), (Chain.ofNodes run).anonymous = true := by
  refine List.forall_mem_map.2 fun run hrun => ?_
  rw [← Chain.renumber_ofNodes, Chain.anonymous_renumber]
  exact h.anonymous hanonymous run hrun

theorem Builder.Sound.lists {b : Builder} (h : b.Sound) {o : Options} {pos : Nat} {p : Pattern}
    (hp : b.finish o pos = .ok p) :
    b.outer = [] ∧ p.names = b.names ∧ p.Lists (Sequence.alternatives b.next [] b.items.reverse).1 := by
  unfold Builder.finish at hp
  split at hp
  · rename_i houter
    obtain rfl := Except.ok.inj hp
    have hfull := Sequence.alternatives_full b.items.reverse
      (fun item hitem => h.items item (List.mem_reverse.1 hitem)) b.next [] (by simp)
    exact ⟨houter, rfl, ⟨_, rfl⟩, hfull.1, hfull.2⟩
  · cases hp

/-- The numbers below `n` become greater by `low`, the others by `high`. -/
def raise (n low high i : Nat) : Nat := if i < n then i + low else i + high

theorem renumbers_raise {n low high : Nat} (h : low ≤ high) : Renumbers (raise n low high) where
  injective i j hij := by
    unfold raise at hij
    split at hij <;> split at hij <;> omega
  le i := by
    unfold raise
    split <;> omega

theorem shifts_raise (n low high : Nat) : Sequence.Shifts (raise n low high) n (n + high) := by
  intro j
  rw [raise, if_neg (by omega)]
  omega

theorem Builder.Sound.lt_next {b : Builder} (h : b.Sound) {item : Item} (hitem : item ∈ b.items) {id : Nat}
    (hid : id ∈ item.ids) : id < b.next :=
  List.mem_range.1 (h.perm.mem_iff.1 (List.mem_append_left _ (List.mem_flatMap.2 ⟨item, hitem, hid⟩)))

theorem alternatives_raise {b : Builder} (h : b.Sound) (low high : Nat) :
    Sequence.alternatives (b.next + high) [] (b.items.reverse.map (Item.renumber (· + low))) =
      ((Sequence.alternatives b.next [] b.items.reverse).1.map (List.map (Node.renumber (raise b.next low high))),
        raise b.next low high (Sequence.alternatives b.next [] b.items.reverse).2) := by
  have hitems : b.items.reverse.map (Item.renumber (· + low)) =
      b.items.reverse.map (Item.renumber (raise b.next low high)) := by
    refine List.map_congr_left fun item hitem => Item.renumber_congr fun id hid => ?_
    rw [raise, if_pos (h.lt_next (List.mem_reverse.1 hitem) hid)]
  rw [hitems]
  exact Sequence.alternatives_renumber b.items.reverse (shifts_raise b.next low high) []

/-! ## The joined text -/

variable {o : Options} {xs ys : List Char} {px py : Pattern}

theorem read_bar {tokens tokens' : List (Nat × Token)} (hx : Token.read o xs = (tokens, none))
    (hy : Token.read o ys = (tokens', none)) :
    ∃ tokens'', Token.read o (xs ++ '|' :: ys) = (tokens ++ (xs.length, .bar) :: tokens'', none) ∧
      tokens''.map Prod.snd = tokens'.map Prod.snd := by
  have hcalm : Calm ('|' :: ys) := by
    intro c hc
    obtain rfl := Option.some.inj hc
    exact ⟨by decide, by decide⟩
  have hspace : CodeUnit.isSpaceChar '|' = false := by decide +kernel
  obtain ⟨tokens'', hrow, htokens⟩ := (Token.row_iff.1 hy).shift (0 + xs.length + 1)
  have hbar : Token.Row o (0 + xs.length) ('|' :: ([] ++ ys)) ((0 + xs.length, .bar) :: tokens'') none :=
    .token (by rw [hspace, Bool.and_false]) rfl hrow
  refine ⟨tokens'', ?_, htokens⟩
  rw [← Nat.zero_add xs.length]
  exact ((Token.row_iff.1 hx).append hcalm hbar).readFrom

theorem Builder.Tracks.anonymous {b : Builder} {ws : List Written} (h : b.Tracks ws)
    (hall : b.marks.all Mark.anonymous = true) : b.groups = 0 ∧ b.names.defined = [] := by
  obtain ⟨hgroups, hnames⟩ := h.marked.scopeOf_anonymous hall
  refine ⟨?_, ?_⟩
  · rw [h.knows.groups, hgroups]
    rfl
  · rw [h.knows.names, hnames, List.take_nil]

theorem names_of_anonymous (hx : compile o xs = .ok px) (hanonymous : px.body.anonymous = true) :
    px.names.defined = [] := by
  obtain ⟨tokens, -, hnames, hmarked⟩ := marked_of_compile hx
  rw [hnames, (hmarked.scopeOf_anonymous hanonymous).2, List.take_nil]

/-- The alternatives of a builder behind the items of another and a bar. -/
theorem alternatives_after {b c : Builder} (hb : b.Sound) (hc : c.Sound) (houter : c.outer = [])
    (names : GroupNames) :
    ∃ high, b.next ≤ high ∧
      (Sequence.alternatives (c.after names (.bar :: b.items) b.next).next []
        (c.after names (.bar :: b.items) b.next).items.reverse).1 =
      (Sequence.alternatives b.next [] b.items.reverse).1.map (List.map (Node.renumber (raise b.next 0 c.next))) ++
        (Sequence.alternatives c.next [] c.items.reverse).1.map
          (List.map (Node.renumber (raise c.next b.next high))) := by
  have hitems : (c.after names (.bar :: b.items) b.next).items.reverse =
      b.items.reverse.map (Item.renumber (· + 0)) ++ .bar :: c.items.reverse.map (Item.renumber (· + b.next)) := by
    have hsame : b.items.reverse.map (Item.renumber (· + 0)) = b.items.reverse :=
      List.map_id'' (fun item => Item.renumber_eq fun _ _ => rfl) _
    rw [hsame]
    simp [Builder.after, houter, stacked]
  have hnext : (c.after names (.bar :: b.items) b.next).next = b.next + c.next := Nat.add_comm _ _
  obtain ⟨j, hj⟩ := Nat.exists_eq_add_of_le (Sequence.alternatives_adds b.items.reverse b.next []).le
  refine ⟨b.next + j, Nat.le_add_right _ _, ?_⟩
  have hfirst := alternatives_raise hb 0 c.next
  rw [hj, shifts_raise b.next 0 c.next j, Nat.add_comm b.next c.next, Nat.add_assoc] at hfirst
  rw [hitems, hnext, Sequence.alternatives_append, Nat.add_comm b.next c.next, hfirst,
    alternatives_raise hc b.next (b.next + j)]

/-- Two texts compile with a bar between them, if the first opens no group with a slot. The alternatives of the
pattern are theirs with other numbers, and it knows the names of the second. -/
theorem compile_bar (hx : compile o xs = .ok px) (hy : compile o ys = .ok py)
    (hanonymous : px.body.anonymous = true) :
    ∃ p runs runs' ρ ρ', compile o (xs ++ '|' :: ys) = .ok p ∧ px.Lists runs ∧ py.Lists runs' ∧
      Renumbers ρ ∧ Renumbers ρ' ∧ p.names.defined = py.names.defined ∧
      p.Lists (runs.map (List.map (Node.renumber ρ)) ++ runs'.map (List.map (Node.renumber ρ'))) := by
  obtain ⟨tokens, b, hreadx, haddx, hfinishx⟩ := tokens_of_compile hx
  obtain ⟨tokens', c, hready, haddy, hfinishy⟩ := tokens_of_compile hy
  obtain ⟨tokens'', hread, htokens⟩ := read_bar hreadx hready
  have hb : b.Sound := Builder.Sound.empty.addAll haddx
  have hc : c.Sound := Builder.Sound.empty.addAll haddy
  obtain ⟨houterx, -, hlistsx⟩ := hb.lists hfinishx
  obtain ⟨houtery, hnamesy, hlistsy⟩ := hc.lists hfinishy
  -- After the bar, the builder is a new one behind the items of the first text.
  have hmarks : b.marks.all Mark.anonymous = true := (Builder.marks_of_finish hfinishx).1 ▸ hanonymous
  obtain ⟨hgroups, hnames⟩ := (Builder.tracks_start.addAll tokens haddx).anonymous hmarks
  have hbehind : Builder.Behind (.bar :: b.items) b.next {} { b with items := .bar :: b.items } :=
    ⟨b.names, hnames, by simp [Builder.after, stacked, hgroups, houterx]⟩
  obtain ⟨joined, haddjoined, names, hnames', rfl⟩ :=
    hbehind.addAll tokens'' (Builder.addAll_pos tokens' htokens.symm haddy)
  have hadd : Builder.addAll {} (tokens ++ (xs.length, .bar) :: tokens'') =
      .ok (c.after names (.bar :: b.items) b.next) := by
    rw [Builder.addAll_append _ haddx]
    exact haddjoined
  have hjoined := Builder.Sound.empty.addAll hadd
  obtain ⟨p, hfinish⟩ : ∃ p, (c.after names (.bar :: b.items) b.next).finish o (xs ++ '|' :: ys).length = .ok p :=
    ⟨_, by simp only [Builder.finish, Builder.after, houtery, stacked]; rfl⟩
  obtain ⟨-, hnamesp, hlists⟩ := hjoined.lists hfinish
  obtain ⟨high, hhigh, halternatives⟩ := alternatives_after hb hc houtery names
  refine ⟨p, _, _, _, _, ?_, hlistsx, hlistsy, renumbers_raise (Nat.zero_le c.next), renumbers_raise hhigh, ?_,
    halternatives ▸ hlists⟩
  · simp only [compile_eq, build, hread, hadd, hfinish]
  · rw [hnamesp, hnamesy]
    exact hnames'

end SpanRegex.Pattern
