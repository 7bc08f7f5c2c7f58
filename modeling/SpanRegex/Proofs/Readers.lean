import SpanRegex.Proofs.Lexemes

/-! # Numbers and units before another rest

What is read of a text depends on the characters that are read and, at most, on the one after them. Only a
digit there, or a question mark, could have made it longer.

* `Follows`: one rest of a text may stand for another after what has been read.
* `takeWhile_within`, `takeWhile_exact`: characters that are taken while a test holds.
* `Escape.decimal_append`, `Escape.name_append`, `Escape.unit_append`: numbers, names and units.
-/

namespace SpanRegex.Pattern
set_option autoImplicit false

/-- What goes on with a number, or changes the quantifier or the parenthesis before it, stood in the place of
`rest'` already in `rest`. -/
def Follows (rest rest' : List Char) : Prop :=
  ∀ c, rest'.head? = some c → c = '?' ∨ c.isDigit = true → rest.head? = some c

theorem Follows.refl (rest : List Char) : Follows rest rest := fun _ h _ => h

theorem Follows.append {rest rest' : List Char} (h : Follows rest rest') (cs : List Char) :
    Follows (cs ++ rest) (cs ++ rest') := by
  cases cs with
  | nil => exact h
  | cons c cs => exact fun _ hd _ => hd

theorem Calm.follows {rest' : List Char} (h : Calm rest') (rest : List Char) : Follows rest rest' := by
  intro c hc hmark
  obtain ⟨hquestion, hdigit⟩ := h c hc
  rcases hmark with rfl | hmark
  · exact absurd rfl hquestion
  · rw [hdigit] at hmark
    cases hmark

variable {a r r' : List Char}

/-! ## Numbers, names and units -/

/-- What is taken while a test holds ends within `a`, whatever comes after it. -/
theorem takeWhile_within {p : Char → Bool} (h : ((a ++ r).takeWhile p).length < a.length) (r' : List Char) :
    (a ++ r').takeWhile p = (a ++ r).takeWhile p := by
  have hpart : (a.takeWhile p).length ≠ a.length := by
    intro hall
    rw [List.takeWhile_append, if_pos hall, List.length_append] at h
    omega
  rw [List.takeWhile_append, List.takeWhile_append, if_neg hpart, if_neg hpart]

/-- What is taken while a test holds is `a`, also before another rest that does not go on with it. -/
theorem takeWhile_exact {p : Char → Bool} (h : ((a ++ r).takeWhile p).length = a.length)
    (hr : ∀ c, r'.head? = some c → p c = true → r.head? = some c) :
    (a ++ r').takeWhile p = (a ++ r).takeWhile p := by
  have hall : (a.takeWhile p).length = a.length := by
    rw [List.takeWhile_append] at h
    split at h
    · assumption
    · exact h
  have hstop : r.takeWhile p = [] := by
    rw [List.takeWhile_append, if_pos hall, List.length_append] at h
    exact List.eq_nil_of_length_eq_zero (by omega)
  have hstop' : r'.takeWhile p = [] := by
    cases r' with
    | nil => rfl
    | cons c r' =>
      apply List.takeWhile_cons_of_neg
      intro hc
      cases r with
      | nil => cases hr c rfl hc
      | cons d r =>
        obtain rfl := Option.some.inj (hr c rfl hc)
        rw [List.takeWhile_cons_of_pos hc] at hstop
        cases hstop
  rw [List.takeWhile_append, List.takeWhile_append, if_pos hall, if_pos hall, hstop, hstop']

/-- The first characters while a test holds lie within `a`. -/
theorem take_takeWhile {p : Char → Bool} {k : Nat} (h : k ≤ a.length) (r' : List Char) :
    ((a ++ r').takeWhile p).take k = ((a ++ r).takeWhile p).take k := by
  rw [List.take_takeWhile, List.take_takeWhile, List.take_append_of_le_length h, List.take_append_of_le_length h]

theorem take_takeWhile_within {p : Char → Bool} {k : Nat}
    (h : (((a ++ r).takeWhile p).take k).length < a.length) (r' : List Char) :
    ((a ++ r').takeWhile p).take k = ((a ++ r).takeWhile p).take k := by
  by_cases hk : k ≤ a.length
  · exact take_takeWhile hk r'
  · rw [List.length_take] at h
    have hwithin : ((a ++ r).takeWhile p).length < a.length := by omega
    rw [takeWhile_within hwithin r']

theorem take_takeWhile_exact {p : Char → Bool} {k : Nat}
    (h : (((a ++ r).takeWhile p).take k).length = a.length)
    (hr : ∀ c, r'.head? = some c → p c = true → r.head? = some c) :
    ((a ++ r').takeWhile p).take k = ((a ++ r).takeWhile p).take k := by
  by_cases hk : k ≤ a.length
  · exact take_takeWhile hk r'
  · rw [List.length_take] at h
    have hexact : ((a ++ r).takeWhile p).length = a.length := by omega
    rw [takeWhile_exact hexact hr]

namespace Escape

theorem decimal_append {n : UInt32} (h : decimal (a ++ r) = some (n, a.length)) (hr : Follows r r') :
    decimal (a ++ r') = some (n, a.length) := by
  have hlength : ((a ++ r).takeWhile Char.isDigit).length = a.length := by
    simp only [decimal] at h
    split at h
    · cases h
    · exact (Prod.mk.inj (Option.some.inj h)).2
  rw [← h]
  simp only [decimal, takeWhile_exact hlength fun c hc hdigit => hr c hc (.inr hdigit)]

theorem decimal_within {n : UInt32} {w : Nat} (h : decimal (a ++ r) = some (n, w)) (hw : w < a.length)
    (r' : List Char) : decimal (a ++ r') = some (n, w) := by
  have hlength : ((a ++ r).takeWhile Char.isDigit).length = w := by
    simp only [decimal] at h
    split at h
    · cases h
    · exact (Prod.mk.inj (Option.some.inj h)).2
  rw [← h]
  simp only [decimal, takeWhile_within (hlength ▸ hw) r']

theorem name_append {s : String} (h : name (a ++ r) = some (s, a.length)) (r' : List Char) :
    name (a ++ r') = some (s, a.length) := by
  have hlength : ((a ++ r).takeWhile (· != '\x7d')).length + 1 = a.length := by
    simp only [name] at h
    split at h
    · exact (Prod.mk.inj (Option.some.inj h)).2
    · cases h
  have hinside : ∀ r : List Char, ((a ++ r).takeWhile (· != '\x7d')).length + 1 = a.length →
      ((a ++ r).takeWhile (· != '\x7d')).length < (a ++ r).length := by
    intro r hlength
    rw [List.length_append]
    omega
  have hwithin : ((a ++ r).takeWhile (· != '\x7d')).length < a.length := by omega
  have hsame := takeWhile_within hwithin r'
  rw [← h]
  simp only [name]
  rw [if_pos (hinside r hlength), if_pos (hinside r' (hsame ▸ hlength)), hsame]

/-- The first hexadecimal digits, at most `k`. -/
def hexRun (k : Nat) (cs : List Char) : List Char := (cs.takeWhile fun c => (hexDigit? c).isSome).take k

theorem hexadecimal_braced (cs : List Char) : hexadecimal ('\x7b' :: cs) =
    if (hexRun 4 cs).isEmpty || (cs.drop (hexRun 4 cs).length).head? != some '\x7d' then none
    else some ((value 16 (hexRun 4 cs)).toUInt16, (hexRun 4 cs).length + 2) := rfl

theorem hexadecimal_bare {cs : List Char} (h : cs.head? ≠ some '\x7b') : hexadecimal cs =
    if (hexRun 2 cs).length == 2 then some ((value 16 (hexRun 2 cs)).toUInt16, 2) else none := by
  cases cs with
  | nil => rfl
  | cons c cs =>
    rw [hexadecimal]
    · rfl
    · rintro more heq
      obtain ⟨rfl, -⟩ := List.cons.inj heq
      exact h rfl

theorem hexadecimal_append {u : CodeUnit} (h : hexadecimal (a ++ r) = some (u, a.length)) (r' : List Char) :
    hexadecimal (a ++ r') = some (u, a.length) := by
  by_cases hbrace : (a ++ r).head? = some '\x7b'
  · obtain ⟨cs, hcs⟩ := List.head?_eq_some_iff.1 hbrace
    have hwidth := h
    rw [hcs, hexadecimal_braced] at hwidth
    split at hwidth
    · cases hwidth
    · cases a with
      | nil => simp at hwidth
      | cons c b =>
        obtain ⟨rfl, rfl⟩ := List.cons.inj hcs
        have hlength : (hexRun 4 (b ++ r)).length + 2 = b.length + 1 := (Prod.mk.inj (Option.some.inj hwidth)).2
        have hwithin : (hexRun 4 (b ++ r)).length < b.length := by omega
        have hrun : hexRun 4 (b ++ r') = hexRun 4 (b ++ r) := take_takeWhile_within hwithin r'
        have hclose : ((b ++ r').drop (hexRun 4 (b ++ r)).length).head? =
            ((b ++ r).drop (hexRun 4 (b ++ r)).length).head? := by
          rw [List.head?_drop, List.head?_drop, List.getElem?_append_left hwithin, List.getElem?_append_left hwithin]
        rw [← h]
        simp only [List.cons_append, hexadecimal_braced, hrun, hclose]
  · have hwidth := h
    rw [hexadecimal_bare hbrace] at hwidth
    split at hwidth
    · have hlength : 2 = a.length := (Prod.mk.inj (Option.some.inj hwidth)).2
      have hrun : hexRun 2 (a ++ r') = hexRun 2 (a ++ r) := take_takeWhile (by omega) r'
      have hbrace' : (a ++ r').head? ≠ some '\x7b' := by
        cases a with
        | nil => cases hlength
        | cons c b => exact hbrace
      rw [← h, hexadecimal_bare hbrace, hexadecimal_bare hbrace', hrun]
    · cases hwidth

theorem octal_append {first : Char} {u : CodeUnit} (h : octal first (a ++ r) = (u, a.length))
    (hr : Follows r r') : octal first (a ++ r') = (u, a.length) := by
  have hlength : (((a ++ r).takeWhile isOctal).take 2).length = a.length := (Prod.mk.inj h).2
  rw [← h]
  simp only [octal, take_takeWhile_exact hlength fun c hc hoctal => hr c hc (.inr (isDigit_of_isOctal hoctal))]

theorem unit_append {c : Char} {u : CodeUnit} (h : Escape.unit c (a ++ r) = some (u, a.length))
    (hr : Follows r r') : Escape.unit c (a ++ r') = some (u, a.length) := by
  unfold Escape.unit at h ⊢
  cases hcontrol : control? c with
  | some v => simpa only [hcontrol] using h
  | none =>
    simp only [hcontrol] at h ⊢
    by_cases hx : (c == 'x') = true
    · rw [if_pos hx] at h ⊢
      exact hexadecimal_append h r'
    · rw [if_neg hx] at h ⊢
      by_cases hoctal : isOctal c = true
      · rw [if_pos hoctal] at h ⊢
        exact congrArg some (octal_append (Option.some.inj h) hr)
      · rw [if_neg hoctal] at h ⊢
        exact h

end Escape

end SpanRegex.Pattern
