import SpanRegex.Proofs.TokenReading

/-! # The widths of tokens

No reader answers a width that passes the end of the characters.

* `Escape.le_of_decimal`, `Escape.le_of_name`, `Escape.le_of_unit`: numbers, names and units.
* `Token.width_le_of_scan`, `Token.exists_of_scan`: whole tokens.
* `Token.scan_pos`: a token is the same at another position.
-/

namespace SpanRegex.Pattern
set_option autoImplicit false

variable {cs : List Char} {w : Nat}

/-! ## Numbers, names and units -/

theorem length_takeWhile_le (p : Char → Bool) (cs : List Char) : (cs.takeWhile p).length ≤ cs.length :=
  (List.takeWhile_prefix p).length_le

namespace Escape

theorem le_of_decimal {n : UInt32} (h : decimal cs = some (n, w)) : w ≤ cs.length := by
  simp only [decimal] at h
  split at h
  · cases h
  · obtain ⟨-, rfl⟩ := Prod.mk.inj (Option.some.inj h)
    exact length_takeWhile_le _ cs

theorem le_of_name {s : String} (h : name cs = some (s, w)) : w ≤ cs.length := by
  simp only [name] at h
  split at h
  · obtain ⟨-, rfl⟩ := Prod.mk.inj (Option.some.inj h)
    assumption
  · cases h

theorem le_of_hexadecimal {u : CodeUnit} (h : hexadecimal cs = some (u, w)) : w ≤ cs.length := by
  by_cases hbrace : cs.head? = some '\x7b'
  · obtain ⟨rest, rfl⟩ := List.head?_eq_some_iff.1 hbrace
    rw [hexadecimal_braced] at h
    split at h
    · cases h
    · rename_i hclose
      obtain ⟨-, rfl⟩ := Prod.mk.inj (Option.some.inj h)
      simp only [Bool.or_eq_true, not_or, bne_iff_ne, ne_eq, Decidable.not_not] at hclose
      have hinside := (List.getElem?_eq_some_iff.1 ((List.head?_drop ..).symm.trans hclose.2)).1
      rw [List.length_cons]
      omega
  · rw [hexadecimal_bare hbrace] at h
    split at h
    · rename_i htwo
      obtain ⟨-, rfl⟩ := Prod.mk.inj (Option.some.inj h)
      have hle := length_takeWhile_le (fun c => (hexDigit? c).isSome) cs
      rw [beq_iff_eq, hexRun, List.length_take] at htwo
      omega
    · cases h

theorem le_of_unit {c : Char} {u : CodeUnit} (h : Escape.unit c cs = some (u, w)) : w ≤ cs.length := by
  have hnone : ∀ {v : CodeUnit}, some (v, 0) = some (u, w) → w ≤ cs.length := by
    intro v h
    obtain ⟨-, rfl⟩ := Prod.mk.inj (Option.some.inj h)
    exact Nat.zero_le _
  unfold Escape.unit at h
  split at h
  · exact hnone h
  · split at h
    · exact le_of_hexadecimal h
    · split at h
      · obtain ⟨-, rfl⟩ := Prod.mk.inj (Option.some.inj h)
        have hle := length_takeWhile_le isOctal cs
        rw [List.length_take]
        omega
      · split at h
        · exact hnone h
        · cases h

end Escape

/-! ## Tokens -/

namespace Token

variable {o : Options} {pos : Nat} {t : Token}

theorem quantified_le {min : UInt32} {max : Option UInt32} {width : Nat} (hwidth : 1 ≤ width)
    (hle : width ≤ cs.length + 1) (h : quantified min max width cs = (t, w)) : w ≤ cs.length + 1 := by
  unfold quantified at h
  split at h
  · rename_i hmark
    obtain ⟨-, rfl⟩ := Prod.mk.inj h
    rw [beq_iff_eq, List.head?_drop] at hmark
    have hinside := (List.getElem?_eq_some_iff.1 hmark).1
    omega
  · obtain ⟨-, rfl⟩ := Prod.mk.inj h
    exact hle

theorem le_of_boundsAfter {min min' : UInt32} {max : Option UInt32} {start : Nat}
    (h : boundsAfter min start cs = some (min', max, w)) : w ≤ start + cs.length := by
  unfold boundsAfter at h
  split at h
  · obtain ⟨-, -, rfl⟩ := by simpa using h
    simp
  · obtain ⟨-, -, rfl⟩ := by simpa using h
    simp
  · rename_i rest _
    cases hbound : Escape.decimal rest with
    | none => simp [hbound] at h
    | some answer =>
      obtain ⟨bound, more⟩ := answer
      simp only [hbound, bind, Option.bind] at h
      split at h
      · rename_i hclose
        obtain ⟨-, -, rfl⟩ := by simpa using h
        rw [Bool.and_eq_true, beq_iff_eq, List.head?_drop] at hclose
        have hinside := (List.getElem?_eq_some_iff.1 hclose.1).1
        rw [List.length_cons]
        omega
      · cases h
  · cases h

theorem le_of_scanBounds {min : UInt32} {max : Option UInt32} (h : scanBounds cs = some (min, max, w)) :
    w ≤ cs.length := by
  rw [scanBounds_eq] at h
  cases hmin : Escape.decimal cs with
  | none => simp [hmin] at h
  | some answer =>
    simp only [hmin] at h
    have hstart := Escape.le_of_decimal hmin
    have hle := le_of_boundsAfter h
    rw [List.length_drop] at hle
    omega

theorem le_of_scanOpening (h : scanOpening pos cs = .ok (t, w)) : w ≤ cs.length + 1 := by
  have hbehind : ∀ {negated : Bool} {rest : List Char}, scanBehind negated (pos + 2) rest = .ok (t, w) →
      w ≤ rest.length + 3 := by
    intro negated rest h
    unfold scanBehind at h
    split at h
    · rename_i hdecimal
      obtain ⟨-, rfl⟩ := Prod.mk.inj (Except.ok.inj h)
      exact Nat.add_le_add_right (Escape.le_of_decimal hdecimal) 3
    · cases h
  have hmark : ∀ {t' : Token} {rest : List Char}, (Except.ok (t', 3) : Except Error (Token × Nat)) = .ok (t, w) →
      w ≤ rest.length + 3 := by
    intro t' rest h
    obtain ⟨-, rfl⟩ := Prod.mk.inj (Except.ok.inj h)
    exact Nat.le_add_left 3 _
  unfold scanOpening at h
  split at h
  · exact hmark h
  · exact hmark h
  · exact hmark h
  · exact hbehind h
  · exact hbehind h
  · split at h
    · rename_i hname
      obtain ⟨-, rfl⟩ := Prod.mk.inj (Except.ok.inj h)
      exact Nat.add_le_add_right (Escape.le_of_name hname) 3
    · cases h
  · cases h
  · obtain ⟨-, rfl⟩ := Prod.mk.inj (Except.ok.inj h)
    exact Nat.le_add_left 1 _

theorem le_of_scanName {name : String} (h : scanName cs = some (name, w)) : w ≤ cs.length := by
  unfold scanName at h
  split at h
  · obtain ⟨answer, hname, hanswer⟩ := Option.map_eq_some_iff.1 h
    obtain ⟨-, rfl⟩ := Prod.mk.inj hanswer
    exact Nat.add_le_add_right (Escape.le_of_name hname) 1
  · cases h

theorem le_of_scanCross {ignoreCase : Bool} (h : scanCross ignoreCase cs = some (t, w)) : w ≤ cs.length := by
  unfold scanCross at h
  split at h
  · rename_i hname
    obtain ⟨-, rfl⟩ := Prod.mk.inj (Option.some.inj h)
    exact le_of_scanName hname
  · cases cs with
    | nil => cases h
    | cons c cs =>
      obtain ⟨slot, -, hslot⟩ := Option.bind_eq_some_iff.1 h
      obtain ⟨-, rfl⟩ := Prod.mk.inj (Option.some.inj hslot)
      exact Nat.le_add_left 1 _

theorem le_of_scanLetter {c : Char} (h : scanLetter c cs = some (t, w)) : w ≤ cs.length := by
  unfold scanLetter at h
  split at h
  · obtain ⟨answer, hname, hanswer⟩ := Option.map_eq_some_iff.1 h
    obtain ⟨-, rfl⟩ := Prod.mk.inj hanswer
    exact le_of_scanName hname
  · split at h
    · exact le_of_scanCross h
    · split at h
      · obtain ⟨slot, -, hslot⟩ := Option.map_eq_some_iff.1 h
        obtain ⟨-, rfl⟩ := Prod.mk.inj hslot
        exact Nat.zero_le _
      · obtain ⟨answer, hunit, hanswer⟩ := Option.map_eq_some_iff.1 h
        obtain ⟨-, rfl⟩ := Prod.mk.inj hanswer
        exact Escape.le_of_unit hunit

theorem width_le_of_scan {c : Char} (h : scan o pos c cs = .ok (t, w)) : w ≤ cs.length + 1 := by
  cases scan_eq_ok.1 h with
  | opening read => exact le_of_scanOpening read
  | closing => exact Nat.le_add_left 1 _
  | bar => exact Nat.le_add_left 1 _
  | quantifier _ read => exact quantified_le (Nat.le_refl 1) (Nat.le_add_left 1 _) read
  | braces bounds read =>
    exact quantified_le (Nat.le_add_left 1 _) (Nat.add_le_add_right (le_of_scanBounds bounds) 1) read
  | set read =>
    obtain ⟨a, r, rfl, -, rfl⟩ := ClassLevel.exists_of_scan _ _ _ _ _ _ read
    rw [List.length_append, List.length_cons]
    omega
  | escape read =>
    obtain ⟨c, rest, rfl, ⟨op, -, -, rfl⟩ | ⟨inside, -, hletter, rfl⟩⟩ := scanEscape_eq_ok read
    · exact Nat.le_add_left 2 _
    · exact Nat.add_le_add_right (le_of_scanLetter hletter) 2
  | leaf => exact Nat.le_add_left 1 _
  | literal => exact Nat.le_add_left 1 _

/-- The characters of a token, and those after it. -/
theorem exists_of_scan {c : Char} (h : scan o pos c cs = .ok (t, w)) :
    ∃ a r, cs = a ++ r ∧ w = a.length + 1 := by
  have hone := one_le_of_scan h
  have hle := width_le_of_scan h
  refine ⟨cs.take (w - 1), cs.drop (w - 1), (List.take_append_drop _ _).symm, ?_⟩
  rw [List.length_take]
  omega

theorem scan_pos {c : Char} (h : scan o pos c cs = .ok (t, w)) (pos' : Nat) :
    scan o pos' c cs = .ok (t, w) := by
  obtain ⟨a, r, rfl, rfl⟩ := exists_of_scan h
  exact scan_append h (.refl r) pos'

end Token

end SpanRegex.Pattern
