import Mathlib.Data.List.Basic
import SpanRegex.Proofs.Drafts
import SpanRegex.Proofs.TokenRows

/-! # Where faults are reported

The position of an error is that of the character, or of the end of the text, that is to blame.

* `ClassMember.Stands`, `BrokenRange`: the characters of a class member, and of a range that is none.
* `Fault.Blames`: what stands where a fault is reported.
* `Error.Found`: an error of a text that begins at a position; `Error.Found.append`.
* `ClassLevel.found_of_scan`, `Token.found_of_scan`, `Token.found_of_row`: what the readers report.
* `compile_blames`: what stands at the position of a compile error.
-/

namespace SpanRegex.Pattern
set_option autoImplicit false

/-! ## Culprits -/

/-- The characters are read as the class member where the rest comes after them. -/
def ClassMember.Stands (member : ClassMember) (text rest : List Char) : Prop :=
  ∃ c cs, text = c :: cs ∧ ∀ pos, ClassMember.scan pos c (cs ++ rest) = .ok (member, text.length)

/-- The text begins with the range of a class, but its last member is a set or lies before the first. -/
def BrokenRange (text : List Char) : Prop :=
  ∃ low high rest first last, text = low ++ '-' :: (high ++ rest) ∧
    (ClassMember.unit first).Stands low ('-' :: (high ++ rest)) ∧ ClassMember.Stands last high rest ∧
    ∀ u, last = .unit u → u < first

/-- What stands at the position of a fault of the text. -/
def Fault.Blames (cs : List Char) (pos : Nat) : Fault → Prop
  | unclosedGroup => pos = cs.length
  | unclosedClass => pos = cs.length
  | unbalancedGroup => cs[pos]? = some ')'
  | malformedQuantifier => cs[pos]? = some '\x7b'
  | incompleteEscape => cs[pos]? = some '\\' ∧ pos + 1 = cs.length
  | invalidEscape => cs[pos]? = some '\\'
  | unknownGroupName name => ∃ rest, cs.drop pos = ['\\', 'p', '\x7b'] ++ (name.toList ++ '\x7d' :: rest)
  | invalidGroup => ∃ before rest, cs = before ++ '(' :: '?' :: rest ∧ pos = before.length + 2
  | wideClassMember => ∃ c, cs[pos]? = some c ∧ 0xFFFF < c.toNat
  | invalidRange => pos < cs.length ∧ BrokenRange (cs.drop pos)

theorem Fault.Blames.append {fault : Fault} {cs : List Char} {pos : Nat} (h : fault.Blames cs pos)
    (pre : List Char) : fault.Blames (pre ++ cs) (pre.length + pos) := by
  have hdrop : (pre ++ cs).drop (pre.length + pos) = cs.drop pos := by
    rw [List.drop_append, List.drop_of_length_le (Nat.le_add_right _ _), List.nil_append, Nat.add_sub_cancel_left]
  have hget : (pre ++ cs)[pre.length + pos]? = cs[pos]? := by
    rw [List.getElem?_append_right (Nat.le_add_right _ _), Nat.add_sub_cancel_left]
  cases fault with
  | unclosedGroup => exact (congrArg (pre.length + ·) h).trans List.length_append.symm
  | unclosedClass => exact (congrArg (pre.length + ·) h).trans List.length_append.symm
  | unbalancedGroup => exact hget.trans h
  | malformedQuantifier => exact hget.trans h
  | incompleteEscape =>
    refine ⟨hget.trans h.1, ?_⟩
    rw [List.length_append, Nat.add_assoc, h.2]
  | invalidEscape => exact hget.trans h
  | unknownGroupName name =>
    obtain ⟨rest, hrest⟩ := h
    exact ⟨rest, hdrop.trans hrest⟩
  | invalidGroup =>
    obtain ⟨before, rest, rfl, rfl⟩ := h
    exact ⟨pre ++ before, rest, (List.append_assoc _ _ _).symm, by rw [List.length_append, Nat.add_assoc]⟩
  | wideClassMember =>
    obtain ⟨c, hc, hwide⟩ := h
    exact ⟨c, hget.trans hc, hwide⟩
  | invalidRange =>
    obtain ⟨hlt, hbroken⟩ := h
    refine ⟨?_, hdrop ▸ hbroken⟩
    rw [List.length_append]
    omega

/-- The error is one of the text, whose first character is at `pos`, and its culprit stands where it is
reported. -/
def Error.Found (pos : Nat) (cs : List Char) (e : Error) : Prop :=
  ∃ k, e.position = pos + k ∧ k ≤ cs.length ∧ e.fault.Blames cs k

namespace Error.Found

variable {pos : Nat} {cs : List Char} {e : Error}

theorem here {fault : Fault} (h : fault.Blames cs 0) : Found pos cs ⟨fault, pos⟩ := ⟨0, rfl, Nat.zero_le _, h⟩

theorem append {n : Nat} (pre : List Char) (h : Found n cs e) (hn : n = pos + pre.length) :
    Found pos (pre ++ cs) e := by
  obtain ⟨k, hposition, hk, hblames⟩ := h
  refine ⟨pre.length + k, ?_, ?_, hblames.append pre⟩
  · rw [hposition, hn, Nat.add_assoc]
  · rw [List.length_append]
    omega

theorem cons (c : Char) (h : Found (pos + 1) cs e) : Found pos (c :: cs) e := h.append [c] rfl

end Error.Found

/-! ## Classes -/

section

variable {pos : Nat} {c : Char} {cs : List Char} {e : Error}

theorem wide_of_ofChar (h : ∀ u, CodeUnit.ofChar c ≠ [u]) : 0xFFFF < c.toNat := by
  apply Nat.lt_of_not_le
  intro hle
  apply h c.toNat.toUInt16
  rw [CodeUnit.ofChar, if_pos (Nat.lt_succ_of_le hle)]

theorem ClassMember.found_of_scan (h : ClassMember.scan pos c cs = .error e) : e.Found pos (c :: cs) := by
  unfold ClassMember.scan at h
  split at h
  · split at h
    · cases h
    · rename_i hwide
      obtain rfl := Except.error.inj h
      exact .here ⟨c, rfl, wide_of_ofChar fun u hu => hwide u hu⟩
  · rename_i hescape
    obtain rfl : c = '\\' := by simpa using hescape
    split at h
    · obtain rfl := Except.error.inj h
      exact ⟨1, rfl, Nat.le_refl _, rfl⟩
    · split at h
      · cases h
      · split at h
        · cases h
        · split at h
          · cases h
          · obtain rfl := Except.error.inj h
            exact .here rfl

theorem ClassMember.le_of_scan {member : ClassMember} {width : Nat}
    (h : ClassMember.scan pos c cs = .ok (member, width)) : width ≤ cs.length + 1 := by
  unfold ClassMember.scan at h
  split at h
  · split at h
    · obtain ⟨-, rfl⟩ := Prod.mk.inj (Except.ok.inj h)
      omega
    · cases h
  · split at h
    · cases h
    · rename_i d more
      have hlength : (d :: more).length = more.length + 1 := List.length_cons
      split at h
      · obtain ⟨-, rfl⟩ := Prod.mk.inj (Except.ok.inj h)
        omega
      · split at h
        · obtain ⟨-, rfl⟩ := Prod.mk.inj (Except.ok.inj h)
          omega
        · split at h
          · rename_i hunit
            have hle := Escape.le_of_unit hunit
            obtain ⟨-, rfl⟩ := Prod.mk.inj (Except.ok.inj h)
            omega
          · cases h

theorem ClassMember.stands_of_scan {member : ClassMember} {width : Nat}
    (h : ClassMember.scan pos c cs = .ok (member, width)) :
    ∃ a r, cs = a ++ r ∧ (c :: a).length = width ∧ member.Stands (c :: a) r := by
  have hone := ClassMember.one_le h
  have hle := ClassMember.le_of_scan h
  obtain ⟨a, r, rfl, rfl⟩ : ∃ a r, cs = a ++ r ∧ a.length + 1 = width :=
    ⟨cs.take (width - 1), cs.drop (width - 1), (List.take_append_drop _ _).symm, by
      rw [List.length_take]; omega⟩
  exact ⟨a, r, rfl, rfl, c, a, rfl, ClassMember.scan_append h (.refl r)⟩

theorem ClassPiece.found_of_ranged {u : CodeUnit} {a r : List Char}
    (hu : (ClassMember.unit u).Stands (c :: a) r) (h : ranged pos u (c :: a).length r = .error e) :
    e.Found pos (c :: (a ++ r)) := by
  unfold ranged at h
  split at h
  · rename_i d more
    -- What is reported if a last member has been read that does not end a range.
    have hbroken : ∀ {last width}, ClassMember.scan (pos + (c :: a).length + 1) d more = .ok (last, width) →
        (∀ v, last = .unit v → v < u) → Error.Found pos (c :: (a ++ '-' :: d :: more)) ⟨.invalidRange, pos⟩ := by
      intro last width hlast hless
      obtain ⟨b, rest, rfl, -, hstands⟩ := ClassMember.stands_of_scan hlast
      exact .here ⟨Nat.zero_lt_succ _, c :: a, d :: b, rest, u, last, rfl, hu, hstands, hless⟩
    split at h
    · cases h
    · split at h
      · rename_i v width hlast
        split at h
        · cases h
        · rename_i hless
          obtain rfl := Except.error.inj h
          refine hbroken hlast fun w hw => ?_
          obtain rfl := ClassMember.unit.inj hw
          exact UInt16.not_le.1 hless
      · rename_i members width hlast
        obtain rfl := Except.error.inj h
        exact hbroken hlast fun w hw => by cases hw
      · rename_i e' hlast
        obtain rfl := Except.error.inj h
        have hfound : e'.Found pos (c :: a ++ ['-'] ++ d :: more) :=
          (ClassMember.found_of_scan hlast).append (c :: a ++ ['-']) (by rw [List.length_append]; rfl)
        rwa [List.append_assoc] at hfound
  · cases h

theorem ClassPiece.found_of_scan (h : ClassPiece.scan pos c cs = .error e) : e.Found pos (c :: cs) := by
  rw [scan_eq] at h
  split at h
  · cases h
  · unfold single at h
    split at h
    · cases h
    · rename_i u width hfirst
      obtain ⟨a, r, rfl, rfl, hstands⟩ := ClassMember.stands_of_scan hfirst
      rw [List.length_cons, Nat.add_sub_cancel, List.drop_left] at h
      exact found_of_ranged hstands h
    · obtain rfl := Except.error.inj h
      exact ClassMember.found_of_scan ‹_›

/-- What is reported of a class stands in its text, or is the end of it. -/
theorem ClassLevel.found_of_scan {ignoreCase : Bool} (cs : List Char) :
    ∀ (outer : List (ClassJoin × ClassLevel)) (inner : ClassLevel) (skip pos : Nat),
      ClassLevel.scan ignoreCase outer inner skip pos cs = .error e → e.Found pos cs := by
  induction cs with
  | nil =>
    intro outer inner skip pos h
    obtain rfl := Except.error.inj h
    exact .here rfl
  | cons c cs ih =>
    intro outer inner skip pos h
    cases skip with
    | succ skip => exact (ih _ _ _ _ h).cons c
    | zero =>
      rw [scan_cons] at h
      split at h
      · obtain rfl := Except.error.inj h
        exact ClassPiece.found_of_scan ‹_›
      · split at h
        · cases h
        · exact (ih _ _ _ _ h).cons c

end

/-! ## Tokens -/

namespace Token

variable {o : Options} {pos : Nat} {c : Char} {cs : List Char} {e : Error}

theorem found_of_scanOpening (h : scanOpening pos cs = .error e) : e.Found pos ('(' :: cs) := by
  have hgroup : ∀ rest, Error.Found pos ('(' :: '?' :: rest) ⟨.invalidGroup, pos + 2⟩ := fun rest =>
    ⟨2, rfl, Nat.le_add_left _ _, [], rest, rfl, rfl⟩
  have hbehind : ∀ {negated mark rest}, scanBehind negated (pos + 2) rest = .error e →
      e.Found pos ('(' :: '?' :: mark :: rest) := by
    intro negated mark rest h
    unfold scanBehind at h
    split at h
    · cases h
    · obtain rfl := Except.error.inj h
      exact hgroup _
  unfold scanOpening at h
  split at h
  · cases h
  · cases h
  · cases h
  · exact hbehind h
  · exact hbehind h
  · split at h
    · cases h
    · obtain rfl := Except.error.inj h
      exact hgroup _
  · obtain rfl := Except.error.inj h
    exact hgroup _
  · cases h

theorem found_of_scanEscape (h : scanEscape pos cs = .error e) : e.Found pos ('\\' :: cs) := by
  cases cs with
  | nil =>
    obtain rfl := Except.error.inj h
    exact .here ⟨rfl, rfl⟩
  | cons c cs =>
    rw [scanEscape_cons] at h
    split at h
    · cases h
    · split at h
      · cases h
      · obtain rfl := Except.error.inj h
        exact .here rfl

/-- What is reported of a token stands in its text, or is the end of the pattern. -/
theorem found_of_scan (h : scan o pos c cs = .error e) : e.Found pos (c :: cs) := by
  unfold scan at h
  split at h
  · exact found_of_scanOpening h
  · cases h
  · cases h
  · cases h
  · cases h
  · cases h
  · split at h
    · cases h
    · obtain rfl := Except.error.inj h
      exact .here rfl
  · simp only at h
    split at h
    · cases h
    · obtain rfl := Except.error.inj h
      exact (ClassLevel.found_of_scan _ _ _ _ _ ‹_›).cons _
  · exact found_of_scanEscape h
  · cases h
  · cases h
  · cases h
  · cases h
  · cases h

theorem found_of_row {tokens : List (Nat × Token)} (h : Row o pos cs tokens (some e)) : e.Found pos cs := by
  generalize hfault : some e = fault at h
  induction h with
  | done => cases hfault
  | space _ _ ih => exact (ih hfault).cons _
  | @token _ c lit _ _ _ _ _ _ _ ih =>
    refine (ih hfault).append (c :: lit) ?_
    rw [List.length_cons]
    omega
  | stuck _ scanned =>
    obtain rfl := Option.some.inj hfault
    exact found_of_scan scanned

/-! ### Tokens that may not fit -/

/-- How a token is written that is an error in the wrong place. -/
def Spells (c : Char) (cs : List Char) : Token → Prop
  | closing => c = ')'
  | referenceName name => c = '\\' ∧ ∃ rest, cs = 'p' :: '\x7b' :: (name.toList ++ '\x7d' :: rest)
  | _ => True

theorem name_eq_some {s : String} {width : Nat} (h : Escape.name cs = some (s, width)) :
    ∃ rest, cs = s.toList ++ '\x7d' :: rest := by
  simp only [Escape.name] at h
  split at h
  · rename_i hlt
    obtain ⟨rfl, -⟩ := Prod.mk.inj (Option.some.inj h)
    have hsplit := List.takeWhile_append_dropWhile (p := (· != '\x7d')) (l := cs)
    cases hrest : cs.dropWhile (· != '\x7d') with
    | nil =>
      rw [hrest, List.append_nil] at hsplit
      rw [hsplit] at hlt
      exact absurd hlt (Nat.lt_irrefl _)
    | cons d rest =>
      have hd := List.head?_dropWhile_not (· != '\x7d') cs
      rw [hrest] at hd
      obtain rfl : d = '\x7d' := by simpa using hd
      exact ⟨rest, by rw [String.toList_ofList, ← hrest, hsplit]⟩
  · cases h

theorem spells_of_scanOpening {t : Token} {width : Nat} (h : scanOpening pos cs = .ok (t, width)) :
    Spells '(' cs t := by
  have hopening : ∀ {kind width'}, (Except.ok (opening kind, width') : Except Error (Token × Nat)) = .ok (t, width) →
      Spells '(' cs t := by
    intro kind width' h
    obtain rfl := (Prod.mk.inj (Except.ok.inj h)).1
    trivial
  have hbehind : ∀ {negated rest}, scanBehind negated (pos + 2) rest = .ok (t, width) → Spells '(' cs t := by
    intro negated rest h
    unfold scanBehind at h
    split at h
    · exact hopening h
    · cases h
  unfold scanOpening at h
  split at h
  · exact hopening h
  · exact hopening h
  · exact hopening h
  · exact hbehind h
  · exact hbehind h
  · split at h
    · exact hopening h
    · cases h
  · cases h
  · exact hopening h

theorem spells_of_scanLetter {t : Token} {width : Nat} (h : scanLetter c cs = some (t, width)) :
    Spells '\\' (c :: cs) t := by
  unfold scanLetter at h
  split at h
  · rename_i hp
    obtain ⟨⟨name, width'⟩, hname, heq⟩ := Option.map_eq_some_iff.1 h
    obtain ⟨rfl, -⟩ := Prod.mk.inj heq
    obtain rfl := beq_iff_eq.1 hp
    refine ⟨rfl, ?_⟩
    unfold scanName at hname
    split at hname
    · obtain ⟨⟨name', _⟩, hinner, heq⟩ := Option.map_eq_some_iff.1 hname
      obtain ⟨rfl, -⟩ := Prod.mk.inj heq
      obtain ⟨rest, rfl⟩ := name_eq_some hinner
      exact ⟨rest, rfl⟩
    · cases hname
  · split at h
    · unfold scanCross at h
      split at h
      · obtain ⟨rfl, -⟩ := Prod.mk.inj (Option.some.inj h)
        trivial
      · simp only [bind, Option.bind_eq_some_iff] at h
        obtain ⟨slot, -, heq⟩ := h
        obtain ⟨rfl, -⟩ := Prod.mk.inj (Option.some.inj heq)
        trivial
    · split at h
      · obtain ⟨slot, -, heq⟩ := Option.map_eq_some_iff.1 h
        obtain ⟨rfl, -⟩ := Prod.mk.inj heq
        trivial
      · obtain ⟨answer, -, heq⟩ := Option.map_eq_some_iff.1 h
        obtain ⟨rfl, -⟩ := Prod.mk.inj heq
        trivial

theorem spells_of_scan {t : Token} {width : Nat} (h : scan o pos c cs = .ok (t, width)) : Spells c cs t := by
  have hquantified : ∀ {c min max start}, quantified min max start cs = (t, width) → Spells c cs t := by
    intro c min max start h
    unfold quantified at h
    split at h <;> (obtain ⟨rfl, -⟩ := Prod.mk.inj h; trivial)
  cases scan_eq_ok.1 h with
  | opening read => exact spells_of_scanOpening read
  | closing => rfl
  | bar => trivial
  | quantifier _ read => exact hquantified read
  | braces _ read => exact hquantified read
  | set => trivial
  | escape read =>
    obtain ⟨d, rest, rfl, ⟨op, -, rfl, -⟩ | ⟨inside, -, hletter, -⟩⟩ := scanEscape_eq_ok read
    · trivial
    · exact spells_of_scanLetter hletter
  | leaf => trivial
  | literal => trivial

end Token

/-! ## Patterns -/

section

variable {o : Options} {cs : List Char} {e : Error}

theorem Builder.found_of_add {b : Builder} {c : Char} {rest : List Char} {entry : Nat × Token} {width : Nat}
    (hscan : Token.scan o entry.1 c rest = .ok (entry.2, width)) (h : b.add entry.1 entry.2 = .error e) :
    e.Found entry.1 (c :: rest) := by
  obtain ⟨pos, token⟩ := entry
  have hspells := Token.spells_of_scan hscan
  cases token with
  | closing =>
    simp only [add] at h
    split at h
    · obtain rfl := Except.error.inj h
      obtain rfl : c = ')' := hspells
      exact .here rfl
    · cases h
  | referenceName name =>
    simp only [add] at h
    split at h
    · cases h
    · obtain rfl := Except.error.inj h
      obtain ⟨rfl, more, rfl⟩ := hspells
      exact .here ⟨more, rfl⟩
  | crossName name ignoreCase =>
    simp only [add] at h
    split at h <;> cases h
  | opening kind => cases h
  | bar => cases h
  | quantifier q => cases h
  | literal c => cases h
  | leaf op => cases h

theorem Builder.exists_of_addAll {tokens : List (Nat × Token)} : ∀ {b : Builder}, b.addAll tokens = .error e →
    ∃ (b' : Builder) (entry : Nat × Token), entry ∈ tokens ∧ b'.add entry.1 entry.2 = .error e := by
  induction tokens with
  | nil => intro b h; cases h
  | cons entry tokens ih =>
    intro b h
    simp only [addAll] at h
    split at h
    · obtain ⟨b', entry', hmem, hadd⟩ := ih h
      exact ⟨b', entry', List.mem_cons_of_mem _ hmem, hadd⟩
    · obtain rfl := Except.error.inj h
      exact ⟨b, entry, List.mem_cons_self, ‹_›⟩

theorem found_of_compile (h : compile o cs = .error e) : e.Found 0 cs := by
  rw [compile_eq] at h
  unfold build at h
  split at h
  rename_i tokens fault hread
  split at h
  · rename_i hadd
    obtain rfl := Except.error.inj h
    obtain ⟨b, entry, hmem, hadd⟩ := Builder.exists_of_addAll hadd
    obtain ⟨pre, c, lit, post, -, -, rfl, -, hpos, hscan, -⟩ := (Token.row_iff.1 hread).split entry hmem
    exact (Builder.found_of_add hscan hadd).append pre hpos
  · obtain rfl := Except.error.inj h
    exact Token.found_of_row (Token.row_iff.1 hread)
  · rename_i b _
    unfold Builder.finish at h
    split at h
    · cases h
    · obtain rfl := Except.error.inj h
      exact ⟨cs.length, (Nat.zero_add _).symm, Nat.le_refl _, rfl⟩

/-- A compile error is reported at a place of the text, and what is wrong stands there. -/
theorem compile_blames (h : compile o cs = .error e) :
    e.position ≤ cs.length ∧ e.fault.Blames cs e.position := by
  obtain ⟨k, hposition, hk, hblames⟩ := found_of_compile h
  rw [Nat.zero_add] at hposition
  rw [hposition]
  exact ⟨hk, hblames⟩

/-- The range that ends in a set stands in an inner class. -/
theorem compile_blames_brokenRange :
    compile {} "(?:\\w|[^a-z&&[c-\\d]])".toList = .error ⟨.invalidRange, 14⟩ ∧ 14 ≤ 21 ∧
      Fault.Blames "(?:\\w|[^a-z&&[c-\\d]])".toList 14 .invalidRange := by
  have h : compile {} "(?:\\w|[^a-z&&[c-\\d]])".toList = .error ⟨.invalidRange, 14⟩ := by decide +kernel
  exact ⟨h, compile_blames h⟩

end

end SpanRegex.Pattern
