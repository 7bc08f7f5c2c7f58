import SpanRegex.Proofs.Readers

/-! # Classes before another rest

A class is read up to the bracket that closes it. No piece of it looks further than that bracket.

* `ClassPiece.scan_eq`: a piece is a bracket, or one member, or two as a range.
* `ClassPiece.scan_within`: a piece is read again before another rest if the class is closed first.
* `ClassLevel.exists_of_scan`: where a class ends.
* `ClassLevel.scan_append`: a class is read again before another rest and at another position.
-/

namespace SpanRegex.Pattern
set_option autoImplicit false

variable {a r r' : List Char}

section

variable {pos : Nat} {c : Char} {cs : List Char}

theorem ClassMember.scan_append {member : ClassMember}
    (h : ClassMember.scan pos c (a ++ r) = .ok (member, a.length + 1)) (hr : Follows r r') (pos' : Nat) :
    ClassMember.scan pos' c (a ++ r') = .ok (member, a.length + 1) := by
  unfold ClassMember.scan at h ⊢
  by_cases hplain : (c != '\\') = true
  · rw [if_pos hplain] at h ⊢
    split at h
    · exact h
    · cases h
  · rw [if_neg hplain] at h ⊢
    cases a with
    | nil =>
      exfalso
      rw [List.nil_append] at h
      split at h
      · cases h
      · split at h
        · cases h
        · split at h
          · cases h
          · split at h <;> simp at h
    | cons e b =>
      simp only [List.cons_append] at h ⊢
      cases hnamed : ClassMember.named? e with
      | some members => simpa only [hnamed] using h
      | none =>
        simp only [hnamed] at h ⊢
        by_cases hb : (e == 'b') = true
        · rw [if_pos hb] at h ⊢
          exact h
        · rw [if_neg hb] at h ⊢
          split at h
          · rename_i u width hunit
            obtain ⟨rfl, hwidth⟩ := Prod.mk.inj (Except.ok.inj h)
            obtain rfl : width = b.length := by
              simpa using hwidth
            rw [Escape.unit_append hunit hr, List.length_cons]
          · cases h

theorem ClassMember.one_le {member : ClassMember} {width : Nat}
    (h : ClassMember.scan pos c cs = .ok (member, width)) : 1 ≤ width := by
  unfold ClassMember.scan at h
  split at h
  · split at h
    · obtain ⟨-, rfl⟩ := Prod.mk.inj (Except.ok.inj h)
      omega
    · cases h
  · split at h
    · cases h
    · split at h
      · obtain ⟨-, rfl⟩ := Prod.mk.inj (Except.ok.inj h)
        omega
      · split at h
        · obtain ⟨-, rfl⟩ := Prod.mk.inj (Except.ok.inj h)
          omega
        · split at h
          · obtain ⟨-, rfl⟩ := Prod.mk.inj (Except.ok.inj h)
            omega
          · cases h

/-- A member within a longer text: what comes after the text has no influence. -/
theorem ClassMember.scan_within {member : ClassMember} {width : Nat}
    (h : ClassMember.scan pos c (a ++ r) = .ok (member, width)) (hwidth : width ≤ a.length) (pos' : Nat)
    (r' : List Char) : ClassMember.scan pos' c (a ++ r') = .ok (member, width) := by
  obtain ⟨n, rfl⟩ : ∃ n, width = n + 1 := ⟨width - 1, by have := ClassMember.one_le h; omega⟩
  obtain ⟨b, d, e, rfl, rfl⟩ : ∃ b d e, a = b ++ d :: e ∧ b.length = n := by
    obtain ⟨d, e, hdrop⟩ := List.exists_cons_of_ne_nil (l := a.drop n) (by rw [Ne, List.drop_eq_nil_iff]; omega)
    exact ⟨a.take n, d, e, by rw [← hdrop, List.take_append_drop], by rw [List.length_take]; omega⟩
  have hr : Follows (d :: e ++ r) (d :: e ++ r') := fun _ hd _ => hd
  rw [List.append_assoc] at h ⊢
  exact ClassMember.scan_append h hr pos'

/-- The bracket that the characters begin with, if any. -/
def ClassPiece.bracket? (c : Char) (cs : List Char) : Option (ClassPiece × Nat) :=
  match c, cs with
  | ']', _ => some (.finish, 1)
  | '[', cs => some (nested .union 1 cs)
  | '&', '&' :: '[' :: cs => some (nested .inter 3 cs)
  | '-', '[' :: cs => some (nested .diff 2 cs)
  | _, _ => none

/-- What a unit becomes that has been read, with its width, before these characters. -/
def ClassPiece.ranged (pos : Nat) (u : CodeUnit) (width : Nat) : List Char → Except Error (ClassPiece × Nat)
  | '-' :: d :: more =>
    if d == ']' || d == '[' then .ok (.range u u, width)
    else
      match ClassMember.scan (pos + width + 1) d more with
      | .ok (.unit v, more) =>
        if u ≤ v then .ok (.range u v, width + 1 + more) else .error ⟨.invalidRange, pos⟩
      | .ok (.named _, _) => .error ⟨.invalidRange, pos⟩
      | .error e => .error e
  | _ => .ok (.range u u, width)

theorem ClassPiece.ranged_dash {u : CodeUnit} {width : Nat} (d : Char) (more : List Char) :
    ranged pos u width ('-' :: d :: more) =
      if d == ']' || d == '[' then .ok (.range u u, width)
      else
        match ClassMember.scan (pos + width + 1) d more with
        | .ok (.unit v, more) =>
          if u ≤ v then .ok (.range u v, width + 1 + more) else .error ⟨.invalidRange, pos⟩
        | .ok (.named _, _) => .error ⟨.invalidRange, pos⟩
        | .error e => .error e := rfl

theorem ClassPiece.ranged_other {u : CodeUnit} {width : Nat} (h : ∀ d more, cs = '-' :: d :: more → False) :
    ranged pos u width cs = .ok (.range u u, width) := by
  rw [ranged]
  exact h

/-- A piece that is no bracket: one member, or two of them as a range. -/
def ClassPiece.single (pos : Nat) (c : Char) (cs : List Char) : Except Error (ClassPiece × Nat) :=
  match ClassMember.scan pos c cs with
  | .ok (.named members, width) => .ok (.named members, width)
  | .ok (.unit u, width) => ranged pos u width (cs.drop (width - 1))
  | .error e => .error e

theorem ClassPiece.scan_eq (pos : Nat) (c : Char) (cs : List Char) :
    ClassPiece.scan pos c cs =
      match bracket? c cs with
      | some answer => .ok answer
      | none => single pos c cs := by
  unfold ClassPiece.scan
  split
  · rfl
  · rfl
  · rfl
  · rfl
  · rename_i hfinish hunion hinter hdiff
    have hnone : bracket? c cs = none := by
      unfold bracket?
      split
      · exact (hfinish rfl).elim
      · exact (hunion rfl).elim
      · exact (hinter _ rfl rfl).elim
      · exact (hdiff _ rfl rfl).elim
      · rfl
    simp only [hnone, single, bind, Except.bind]
    cases ClassMember.scan pos c cs with
    | error e => rfl
    | ok answer =>
      obtain ⟨first, width⟩ := answer
      cases first with
      | named members => rfl
      | unit u =>
        generalize hafter : cs.drop (width - 1) = after
        simp only [hafter]
        split
        · rename_i d more
          rw [ranged_dash]
          split
          · rfl
          · cases ClassMember.scan (pos + width + 1) d more with
            | error e => rfl
            | ok answer =>
              obtain ⟨last, more⟩ := answer
              cases last <;> rfl
        · rename_i hother
          rw [ranged_other hother]
          rfl

theorem ClassPiece.nested_within (join : ClassJoin) (width : Nat) (hclosed : ']' ∈ a) (r r' : List Char) :
    nested join width (a ++ r') = nested join width (a ++ r) := by
  obtain ⟨d, ds, rfl⟩ := List.exists_cons_of_ne_nil (List.ne_nil_of_mem hclosed)
  rfl

/-- Whether a bracket stands in a class, and which, shows before the class is closed. -/
theorem ClassPiece.bracket_within (hclosed : ']' ∈ a) (r r' : List Char) :
    bracket? c (a ++ r') = bracket? c (a ++ r) := by
  by_cases hfinish : c = ']'
  · subst hfinish
    rfl
  by_cases hunion : c = '['
  · subst hunion
    exact congrArg some (nested_within .union 1 hclosed r r')
  obtain ⟨d, ds, rfl⟩ := List.exists_cons_of_ne_nil (List.ne_nil_of_mem hclosed)
  by_cases hdiff : c = '-' ∧ d = '['
  · obtain ⟨rfl, rfl⟩ := hdiff
    have hrest : ']' ∈ ds := by simpa using hclosed
    exact congrArg some (nested_within .diff 2 hrest r r')
  by_cases hinter : c = '&' ∧ d = '&'
  · obtain ⟨rfl, rfl⟩ := hinter
    have hrest : ']' ∈ ds := by simpa using hclosed
    obtain ⟨e, es, rfl⟩ := List.exists_cons_of_ne_nil (List.ne_nil_of_mem hrest)
    by_cases hbracket : e = '['
    · subst hbracket
      have hinside : ']' ∈ es := by simpa using hrest
      exact congrArg some (nested_within .inter 3 hinside r r')
    · simp [bracket?, hbracket]
  have hnone : ∀ cs : List Char, bracket? c (d :: cs) = none := by
    intro cs
    unfold bracket?
    split <;> simp_all
  rw [List.cons_append, List.cons_append, hnone, hnone]

theorem ClassPiece.le_of_ranged {u : CodeUnit} {start width : Nat} {piece : ClassPiece}
    (h : ranged pos u start cs = .ok (piece, width)) : start ≤ width := by
  unfold ranged at h
  split at h
  · split at h
    · exact Nat.le_of_eq (Prod.mk.inj (Except.ok.inj h)).2
    · split at h
      · split at h
        · obtain ⟨-, rfl⟩ := Prod.mk.inj (Except.ok.inj h)
          omega
        · cases h
      · cases h
      · cases h
  · exact Nat.le_of_eq (Prod.mk.inj (Except.ok.inj h)).2

theorem ClassPiece.ranged_within {u : CodeUnit} {start width : Nat} {piece : ClassPiece}
    (h : ranged pos u start (a ++ r) = .ok (piece, width)) (hclosed : ']' ∈ a.drop (width - start)) (pos' : Nat)
    (r' : List Char) : ranged pos' u start (a ++ r') = .ok (piece, width) := by
  have hmem := List.mem_of_mem_drop hclosed
  obtain ⟨d, ds, rfl⟩ := List.exists_cons_of_ne_nil (List.ne_nil_of_mem hmem)
  by_cases hdash : d = '-'
  · subst hdash
    have hrest : ']' ∈ ds := by simpa using hmem
    obtain ⟨e, es, rfl⟩ := List.exists_cons_of_ne_nil (List.ne_nil_of_mem hrest)
    simp only [List.cons_append, ranged_dash] at h ⊢
    split at h
    · rename_i hbracket
      rw [if_pos hbracket]
      exact h
    · rename_i hbracket
      rw [if_neg hbracket]
      split at h
      · rename_i v more hlast
        split at h
        · rename_i hordered
          obtain ⟨rfl, rfl⟩ := Prod.mk.inj (Except.ok.inj h)
          have hone := ClassMember.one_le hlast
          have hdrop : ('-' :: e :: es).drop (start + 1 + more - start) = es.drop (more - 1) := by
            rw [show start + 1 + more - start = more - 1 + 1 + 1 by omega]
            rfl
          rw [hdrop] at hclosed
          have hlength := List.length_pos_of_mem hclosed
          rw [List.length_drop] at hlength
          have hlast' := ClassMember.scan_within hlast (by omega) (pos' + start + 1) r'
          simp only [hlast', if_pos hordered]
        · cases h
      · cases h
      · cases h
  · have hother : ∀ cs e more, d :: cs = '-' :: e :: more → False := fun _ _ _ heq =>
      hdash (List.cons.inj heq).1
    rw [List.cons_append, ranged_other (hother _)] at h ⊢
    exact h

theorem ClassPiece.single_within {piece : ClassPiece} {width : Nat}
    (h : single pos c (a ++ r) = .ok (piece, width)) (hclosed : ']' ∈ a.drop (width - 1)) (pos' : Nat)
    (r' : List Char) : single pos' c (a ++ r') = .ok (piece, width) := by
  have hlength := List.length_pos_of_mem hclosed
  rw [List.length_drop] at hlength
  unfold single at h ⊢
  split at h
  · rename_i members start hfirst
    obtain ⟨rfl, rfl⟩ := Prod.mk.inj (Except.ok.inj h)
    simp only [ClassMember.scan_within hfirst (by omega) pos' r']
  · rename_i u start hfirst
    have hone := ClassMember.one_le hfirst
    have hle := le_of_ranged h
    simp only [ClassMember.scan_within hfirst (by omega) pos' r']
    rw [List.drop_append_of_le_length (by omega)] at h ⊢
    refine ranged_within h ?_ pos' r'
    rwa [List.drop_drop, show start - 1 + (width - start) = width - 1 by omega]
  · cases h

/-- The first piece of a text in which the class is closed after it. -/
theorem ClassPiece.scan_within {piece : ClassPiece} {width : Nat}
    (h : ClassPiece.scan pos c (a ++ r) = .ok (piece, width)) (hclosed : ']' ∈ a.drop (width - 1)) (pos' : Nat)
    (r' : List Char) : ClassPiece.scan pos' c (a ++ r') = .ok (piece, width) := by
  rw [scan_eq] at h ⊢
  rw [bracket_within (List.mem_of_mem_drop hclosed) r r']
  cases hbracket : bracket? c (a ++ r) with
  | some answer => simpa only [hbracket] using h
  | none =>
    simp only [hbracket] at h ⊢
    exact single_within h hclosed pos' r'

end

section

variable {ignoreCase : Bool} {l : ClassLevel}

theorem ClassLevel.finish_of_next {outer : List (ClassJoin × ClassLevel)} {inner : ClassLevel}
    {piece : ClassPiece} (h : next? ignoreCase outer inner piece = none) : piece = .finish := by
  cases piece with
  | finish => rfl
  | nest join negated => cases h
  | range first last => cases h
  | named members => cases h

theorem ClassPiece.closes_of_finish {pos : Nat} {c : Char} {cs : List Char} {width : Nat}
    (h : ClassPiece.scan pos c cs = .ok (.finish, width)) : c = ']' := by
  have hranged : ∀ {u start cs}, ranged pos u start cs ≠ .ok (.finish, width) := by
    intro u start cs h
    unfold ranged at h
    split at h
    · split at h
      · cases h
      · split at h
        · split at h <;> cases h
        · cases h
        · cases h
    · cases h
  have hnested : ∀ {join start cs}, nested join start cs ≠ (.finish, width) := by
    intro join start cs h
    unfold nested at h
    split at h <;> cases h
  rw [scan_eq] at h
  split at h
  · rename_i answer hbracket
    obtain rfl := Except.ok.inj h
    unfold bracket? at hbracket
    split at hbracket
    · rfl
    · exact absurd (Option.some.inj hbracket) hnested
    · exact absurd (Option.some.inj hbracket) hnested
    · exact absurd (Option.some.inj hbracket) hnested
    · cases hbracket
  · unfold single at h
    split at h
    · cases h
    · exact absurd h hranged
    · cases h

/-- A class ends after a bracket that closes, behind the characters that have been read. -/
theorem ClassLevel.exists_of_scan (cs : List Char) : ∀ (outer : List (ClassJoin × ClassLevel)) (inner : ClassLevel)
    (skip pos stop : Nat), ClassLevel.scan ignoreCase outer inner skip pos cs = .ok (l, stop) →
      ∃ a r, cs = a ++ ']' :: r ∧ skip ≤ a.length ∧ stop = pos + a.length + 1 := by
  induction cs with
  | nil => intro outer inner skip pos stop h; cases h
  | cons c cs ih =>
    intro outer inner skip pos stop h
    have hlater : ∀ {outer inner skip}, ClassLevel.scan ignoreCase outer inner skip (pos + 1) cs = .ok (l, stop) →
        ∃ a r, c :: cs = a ++ ']' :: r ∧ skip + 1 ≤ a.length ∧ stop = pos + a.length + 1 := by
      intro outer inner skip h
      obtain ⟨a, r, rfl, hskip, rfl⟩ := ih _ _ _ _ _ h
      refine ⟨c :: a, r, rfl, Nat.succ_le_succ hskip, ?_⟩
      rw [List.length_cons]
      omega
    cases skip with
    | succ skip => exact hlater h
    | zero =>
      rw [scan_cons] at h
      split at h
      · cases h
      · rename_i piece width hpiece
        split at h
        · rename_i hnext
          obtain rfl := finish_of_next hnext
          obtain rfl := ClassPiece.closes_of_finish hpiece
          obtain ⟨-, rfl⟩ := Prod.mk.inj (Except.ok.inj h)
          exact ⟨[], cs, rfl, Nat.le_refl 0, rfl⟩
        · obtain ⟨a, r, htext, -, hstop⟩ := hlater h
          exact ⟨a, r, htext, Nat.zero_le _, hstop⟩

theorem ClassLevel.scan_append (r' a : List Char) : ∀ (outer : List (ClassJoin × ClassLevel)) (inner : ClassLevel)
    (skip pos : Nat), ClassLevel.scan ignoreCase outer inner skip pos (a ++ ']' :: r) = .ok (l, pos + a.length + 1) →
      ∀ pos' : Nat, ClassLevel.scan ignoreCase outer inner skip pos' (a ++ ']' :: r') =
        .ok (l, pos' + a.length + 1) := by
  induction a with
  | nil =>
    intro outer inner skip pos h pos'
    obtain ⟨b, r₁, -, hskip, hstop⟩ := exists_of_scan _ _ _ _ _ _ h
    obtain rfl : skip = 0 := by
      rw [List.length_nil] at hstop
      omega
    have hfinish : ∀ pos cs, ClassPiece.scan pos ']' cs = .ok (.finish, 1) := fun _ _ => rfl
    simp only [List.nil_append, scan_cons, hfinish] at h ⊢
    split at h
    · obtain ⟨rfl, -⟩ := Prod.mk.inj (Except.ok.inj h)
      rfl
    · -- A bracket that closes an inner class is not the last.
      obtain ⟨b, r₁, -, -, hstop⟩ := exists_of_scan _ _ _ _ _ _ h
      rw [List.length_nil] at hstop
      omega
  | cons c a ih =>
    intro outer inner skip pos h pos'
    have hmove : ∀ pos : Nat, pos + (c :: a).length + 1 = pos + 1 + a.length + 1 := by
      intro pos
      rw [List.length_cons]
      omega
    rw [hmove] at h ⊢
    cases skip with
    | succ skip => exact ih _ _ _ _ h _
    | zero =>
      rw [List.cons_append, scan_cons] at h ⊢
      cases hpiece : ClassPiece.scan pos c (a ++ ']' :: r) with
      | error e => simp [hpiece] at h
      | ok answer =>
        obtain ⟨piece, width⟩ := answer
        simp only [hpiece] at h
        cases hnext : next? ignoreCase outer inner piece with
        | none =>
          simp only [hnext] at h
          obtain ⟨-, hstop⟩ := Prod.mk.inj (Except.ok.inj h)
          omega
        | some opened =>
          simp only [hnext] at h
          obtain ⟨b, r₁, -, hwidth, hstop⟩ := exists_of_scan _ _ _ _ _ _ h
          have hclosed : ']' ∈ (a ++ [']']).drop (width - 1) := by
            rw [List.drop_append_of_le_length (by omega)]
            exact List.mem_append_right _ (List.mem_singleton.2 rfl)
          rw [List.append_cons] at hpiece
          rw [List.append_cons, ClassPiece.scan_within hpiece hclosed pos' r']
          simp only [hnext, ← List.append_cons]
          exact ih _ _ _ _ h _

end

end SpanRegex.Pattern
