import SpanRegex.Proofs.ClassReading

/-! # Tokens before another rest

* `scanBounds_append`, `scanOpening_append`, `scanEscape_append`: quantifiers, parentheses and escapes.
* `Scanned`, `scan_eq_ok`: what a token is read from, one case for each kind of first character.
* `scan_append`: a token is read again before another rest and at another position.
* `one_le_of_scan`: a token has at least one character.
-/

namespace SpanRegex.Pattern
set_option autoImplicit false

variable {a r r' : List Char}

namespace Token

variable {o : Options} {pos : Nat} {t : Token}

theorem quantified_append {min : UInt32} {max : Option UInt32} {width : Nat} (hwidth : 1 ≤ width)
    (h : quantified min max width (a ++ r) = (t, a.length + 1)) (hr : Follows r r') :
    quantified min max width (a ++ r') = (t, a.length + 1) := by
  have hle : width - 1 ≤ a.length := by
    unfold quantified at h
    split at h
    · have := (Prod.mk.inj h).2
      omega
    · have := (Prod.mk.inj h).2
      omega
  by_cases hinside : width - 1 < a.length
  · have hmark : ∀ s : List Char, ((a ++ s).drop (width - 1)).head? = a[width - 1]? := by
      intro s
      rw [List.head?_drop, List.getElem?_append_left hinside]
    rw [← h]
    simp only [quantified, hmark]
  · obtain rfl : width = a.length + 1 := by omega
    have hmark : ∀ s : List Char, ((a ++ s).drop (a.length + 1 - 1)).head? = s.head? := by
      intro s
      rw [Nat.add_sub_cancel, List.drop_left]
    unfold quantified at h ⊢
    rw [hmark] at h ⊢
    split at h
    · have := (Prod.mk.inj h).2
      omega
    · rename_i hplain
      rw [if_neg]
      · exact h
      · intro hmark'
        have hquestion : r'.head? = some '?' := by simpa using hmark'
        rw [hr '?' hquestion (.inl rfl)] at hplain
        exact hplain rfl

/-- The bounds of a quantifier after their least number, which has the given width. -/
def boundsAfter (min : UInt32) (width : Nat) (cs : List Char) : Option (UInt32 × Option UInt32 × Nat) :=
  match cs with
  | '\x7d' :: _ => some (min, some min, width + 1)
  | ',' :: '\x7d' :: _ => some (min, none, width + 2)
  | ',' :: rest => do
    let (max, more) ← Escape.decimal rest
    if (rest.drop more).head? == some '\x7d' && min ≤ max then
      some (min, some max, width + more + 2)
    else none
  | _ => none

theorem scanBounds_eq (cs : List Char) : scanBounds cs =
    match Escape.decimal cs with
    | some (min, width) => boundsAfter min width (cs.drop width)
    | none => none := by
  unfold scanBounds
  simp only [bind, Option.bind]
  cases Escape.decimal cs with
  | none => rfl
  | some answer =>
    obtain ⟨min, width⟩ := answer
    rfl

theorem boundsAfter_comma (min : UInt32) (start : Nat) {cs : List Char} (h : cs.head? ≠ some '\x7d') :
    boundsAfter min start (',' :: cs) =
      match Escape.decimal cs with
      | some (max, more) =>
        if (cs.drop more).head? == some '\x7d' && min ≤ max then some (min, some max, start + more + 2) else none
      | none => none := by
  rw [boundsAfter]
  · cases Escape.decimal cs <;> rfl
  · rintro rest rfl
    exact h rfl

theorem boundsAfter_append {min min' : UInt32} {max : Option UInt32} {start : Nat}
    (h : boundsAfter min start (a ++ r) = some (min', max, start + a.length)) (hne : a ≠ []) (r' : List Char) :
    boundsAfter min start (a ++ r') = some (min', max, start + a.length) := by
  obtain ⟨c, b, rfl⟩ := List.exists_cons_of_ne_nil hne
  rw [List.cons_append] at h ⊢
  by_cases hclose : c = '\x7d'
  · subst hclose
    exact h
  by_cases hcomma : c = ','
  · subst hcomma
    by_cases hopen : (b ++ r).head? = some '\x7d'
    · cases b with
      | nil =>
        obtain ⟨cs, hcs⟩ := List.head?_eq_some_iff.1 hopen
        rw [hcs] at h
        have hwidth := (Prod.mk.inj (Prod.mk.inj (Option.some.inj h)).2).2
        simp at hwidth
      | cons d b =>
        obtain rfl : d = '\x7d' := Option.some.inj hopen
        exact h
    · rw [boundsAfter_comma min start hopen] at h
      split at h
      · rename_i bound more hbound
        split at h
        · rename_i hvalid
          have hwidth : start + more + 2 = start + ((',' :: b).length) :=
            (Prod.mk.inj (Prod.mk.inj (Option.some.inj h)).2).2
          have hmore : more < b.length := by
            rw [List.length_cons] at hwidth
            omega
          have hopen' : (b ++ r').head? ≠ some '\x7d' := by
            obtain ⟨d, ds, rfl⟩ := List.exists_cons_of_ne_nil (List.ne_nil_of_length_pos (Nat.zero_lt_of_lt hmore))
            exact hopen
          have hend : ((b ++ r').drop more).head? = ((b ++ r).drop more).head? := by
            rw [List.head?_drop, List.head?_drop, List.getElem?_append_left hmore, List.getElem?_append_left hmore]
          rw [boundsAfter_comma min start hopen']
          simp only [Escape.decimal_within hbound hmore r', hend, if_pos hvalid]
          exact h
        · cases h
      · cases h
  · rw [boundsAfter] at h
    · cases h
    · exact fun _ heq => hclose (List.cons.inj heq).1
    · exact fun _ heq => hcomma (List.cons.inj heq).1
    · exact fun _ heq => hcomma (List.cons.inj heq).1

theorem lt_of_boundsAfter {min min' : UInt32} {max : Option UInt32} {width start : Nat} {cs : List Char}
    (h : boundsAfter min start cs = some (min', max, width)) : start < width := by
  unfold boundsAfter at h
  split at h
  · have := (Prod.mk.inj (Prod.mk.inj (Option.some.inj h)).2).2
    omega
  · have := (Prod.mk.inj (Prod.mk.inj (Option.some.inj h)).2).2
    omega
  · rename_i rest _
    cases hbound : Escape.decimal rest with
    | none => simp [hbound] at h
    | some answer =>
      simp only [hbound, bind, Option.bind] at h
      split at h
      · have := (Prod.mk.inj (Prod.mk.inj (Option.some.inj h)).2).2
        omega
      · cases h
  · cases h

theorem scanBounds_append {min : UInt32} {max : Option UInt32}
    (h : scanBounds (a ++ r) = some (min, max, a.length)) (r' : List Char) :
    scanBounds (a ++ r') = some (min, max, a.length) := by
  rw [scanBounds_eq] at h ⊢
  cases hmin : Escape.decimal (a ++ r) with
  | none => simp [hmin] at h
  | some answer =>
    obtain ⟨n, start⟩ := answer
    simp only [hmin] at h
    have hlt := lt_of_boundsAfter h
    simp only [Escape.decimal_within hmin hlt r']
    rw [List.drop_append_of_le_length (by omega)] at h ⊢
    have hlength : start + (a.drop start).length = a.length := by
      rw [List.length_drop]
      omega
    rw [← hlength] at h ⊢
    exact boundsAfter_append h (by rw [Ne, List.drop_eq_nil_iff]; omega) r'

theorem scanBehind_append {negated : Bool} (h : scanBehind negated pos (a ++ r) = .ok (t, a.length + 3))
    (hr : Follows r r') (pos' : Nat) : scanBehind negated pos' (a ++ r') = .ok (t, a.length + 3) := by
  unfold scanBehind at h ⊢
  split at h
  · rename_i n width hn
    obtain ⟨rfl, hwidth⟩ := Prod.mk.inj (Except.ok.inj h)
    obtain rfl : width = a.length := by omega
    simp only [Escape.decimal_append hn hr]
  · cases h

theorem scanOpening_plain {cs : List Char} (h : cs.head? ≠ some '?') :
    scanOpening pos cs = .ok (.opening .plain, 1) := by
  unfold scanOpening
  split <;> first | rfl | exact absurd rfl h

theorem three_le_of_opening {cs : List Char} {width : Nat}
    (h : scanOpening pos ('?' :: cs) = .ok (t, width)) : 3 ≤ width := by
  have hbehind : ∀ {negated cs}, scanBehind negated (pos + 2) cs = .ok (t, width) → 3 ≤ width := by
    intro negated cs h
    unfold scanBehind at h
    split at h
    · have := (Prod.mk.inj (Except.ok.inj h)).2
      omega
    · cases h
  unfold scanOpening at h
  split at h
  · exact Nat.le_of_eq (Prod.mk.inj (Except.ok.inj h)).2
  · exact Nat.le_of_eq (Prod.mk.inj (Except.ok.inj h)).2
  · exact Nat.le_of_eq (Prod.mk.inj (Except.ok.inj h)).2
  · exact hbehind h
  · exact hbehind h
  · split at h
    · have := (Prod.mk.inj (Except.ok.inj h)).2
      omega
    · cases h
  · cases h
  · rename_i hmark
    exact absurd rfl (hmark cs)

theorem scanOpening_append (h : scanOpening pos (a ++ r) = .ok (t, a.length + 1)) (hr : Follows r r')
    (pos' : Nat) : scanOpening pos' (a ++ r') = .ok (t, a.length + 1) := by
  by_cases hmark : (a ++ r).head? = some '?'
  · obtain ⟨cs, hcs⟩ := List.head?_eq_some_iff.1 hmark
    have hthree : 3 ≤ a.length + 1 := three_le_of_opening (hcs ▸ h)
    obtain ⟨c, d, b, rfl⟩ : ∃ c d b, a = c :: d :: b := by
      cases a with
      | nil => simp at hthree
      | cons c a =>
        cases a with
        | nil => simp at hthree
        | cons d b => exact ⟨c, d, b, rfl⟩
    obtain rfl : c = '?' := Option.some.inj hmark
    simp only [List.cons_append, List.length_cons] at h ⊢
    unfold scanOpening at h
    split at h
    · rename_i heq
      obtain ⟨rfl, rfl⟩ := List.cons.inj (List.cons.inj heq).2
      exact h
    · rename_i heq
      obtain ⟨rfl, rfl⟩ := List.cons.inj (List.cons.inj heq).2
      exact h
    · rename_i heq
      obtain ⟨rfl, rfl⟩ := List.cons.inj (List.cons.inj heq).2
      exact h
    · rename_i heq
      obtain ⟨rfl, rfl⟩ := List.cons.inj (List.cons.inj heq).2
      exact scanBehind_append h hr (pos' + 2)
    · rename_i heq
      obtain ⟨rfl, rfl⟩ := List.cons.inj (List.cons.inj heq).2
      exact scanBehind_append h hr (pos' + 2)
    · rename_i heq
      obtain ⟨rfl, rfl⟩ := List.cons.inj (List.cons.inj heq).2
      split at h
      · rename_i name width hname
        obtain ⟨rfl, hwidth⟩ := Prod.mk.inj (Except.ok.inj h)
        obtain rfl : width = b.length := by omega
        simp only [scanOpening, Escape.name_append hname r']
      · cases h
    · cases h
    · rename_i hplain
      exact absurd rfl (hplain _)
  · have hmark' : (a ++ r').head? ≠ some '?' := by
      cases a with
      | nil => exact fun hquestion => hmark (hr '?' hquestion (.inl rfl))
      | cons c b => exact hmark
    rw [scanOpening_plain hmark] at h
    rw [scanOpening_plain hmark']
    exact h

theorem scanName_append {name : String} (h : scanName (a ++ r) = some (name, a.length)) (r' : List Char) :
    scanName (a ++ r') = some (name, a.length) := by
  unfold scanName at h
  split at h
  · rename_i cs hcs
    obtain ⟨answer, hname, hwidth⟩ := Option.map_eq_some_iff.1 h
    obtain ⟨rfl, hlength⟩ := Prod.mk.inj hwidth
    cases a with
    | nil => cases hlength
    | cons c b =>
      obtain ⟨rfl, rfl⟩ := List.cons.inj hcs
      have hname : Escape.name (b ++ r) = some (answer.1, b.length) :=
        hname.trans (congrArg some (Prod.ext rfl (Nat.succ.inj hlength)))
      have hname' := Escape.name_append hname r'
      simp only [List.cons_append, scanName, hname', Option.map_some, List.length_cons]
  · cases h

theorem scanCross_append {ignoreCase : Bool} (h : scanCross ignoreCase (a ++ r) = some (t, a.length))
    (r' : List Char) : scanCross ignoreCase (a ++ r') = some (t, a.length) := by
  unfold scanCross at h ⊢
  split at h
  · rename_i name width hname
    obtain ⟨rfl, rfl⟩ := Prod.mk.inj (Option.some.inj h)
    simp only [scanName_append hname r']
  · simp only [bind, Option.bind_eq_some_iff] at h
    obtain ⟨slot, ⟨c, hc, hslot⟩, hwidth⟩ := h
    obtain ⟨rfl, hlength⟩ := Prod.mk.inj (Option.some.inj hwidth)
    cases a with
    | nil => cases hlength
    | cons d b =>
      obtain rfl : b = [] := List.eq_nil_of_length_eq_zero (Nat.succ.inj hlength.symm)
      obtain rfl : d = c := Option.some.inj hc
      have hbrace : d ≠ '\x7b' := by
        rintro rfl
        cases hslot
      have hname : scanName (d :: r') = none := by
        unfold scanName
        split
        · rename_i heq
          exact absurd (List.cons.inj heq).1 hbrace
        · rfl
      simp [hname, hslot]

/-- What a letter, or a digit, stands for after a backslash, unless it stands for a leaf by itself. -/
def scanLetter (c : Char) (cs : List Char) : Option (Token × Nat) :=
  if c == 'p' then
    (scanName cs).map fun (name, width) => (.referenceName name, width)
  else if c == 'y' || c == 'Y' then scanCross (c == 'Y') cs
  else if c.isDigit && c != '0' && !(cs.head?.any Escape.isOctal && Escape.isOctal c) then
    (digitSlot? c).map fun slot => (.leaf (.reference (.numbered slot)), 0)
  else
    (Escape.unit c cs).map fun (u, width) => (.leaf (.unit (.literal u)), width)

theorem scanEscape_cons (pos : Nat) (c : Char) (cs : List Char) : scanEscape pos (c :: cs) =
    match escaped? c with
    | some op => .ok (.leaf op, 2)
    | none =>
      match scanLetter c cs with
      | some (token, width) => .ok (token, width + 2)
      | none => .error ⟨.invalidEscape, pos⟩ := rfl

theorem scanEscape_eq_ok {cs : List Char} {width : Nat} (h : scanEscape pos cs = .ok (t, width)) :
    ∃ c rest, cs = c :: rest ∧ ((∃ op, escaped? c = some op ∧ t = .leaf op ∧ width = 2) ∨
      ∃ inside, escaped? c = none ∧ scanLetter c rest = some (t, inside) ∧ width = inside + 2) := by
  cases cs with
  | nil => cases h
  | cons c rest =>
    refine ⟨c, rest, rfl, ?_⟩
    rw [scanEscape_cons] at h
    split at h
    · rename_i op hescaped
      obtain ⟨rfl, rfl⟩ := Prod.mk.inj (Except.ok.inj h)
      exact .inl ⟨op, hescaped, rfl, rfl⟩
    · split at h
      · rename_i hescaped _ token inside hletter
        obtain ⟨rfl, rfl⟩ := Prod.mk.inj (Except.ok.inj h)
        exact .inr ⟨inside, hescaped, hletter, rfl⟩
      · cases h

theorem octal_ne {c d : Char} (hc : Escape.isOctal c = true) (hd : Escape.isOctal d = false) :
    (c == d) = false := by
  apply Bool.eq_false_iff.2
  intro heq
  rw [beq_iff_eq.1 heq, hd] at hc
  cases hc

theorem unit_of_octal {c : Char} (hc : Escape.isOctal c = true) (cs : List Char) :
    Escape.unit c cs = some (Escape.octal c cs) := by
  have hcontrol : Escape.control? c = none := by
    unfold Escape.control?
    split <;> first | rfl | cases hc
  simp only [Escape.unit, hcontrol, octal_ne hc (d := 'x') rfl, hc, Bool.false_eq_true, if_true, if_false]

theorem scanLetter_octal {c : Char} {cs : List Char} (hc : Escape.isOctal c = true)
    (hnext : cs.head?.any Escape.isOctal = true) : scanLetter c cs ≠ some (t, 0) := by
  intro h
  simp only [scanLetter, octal_ne hc (d := 'p') rfl, octal_ne hc (d := 'y') rfl, octal_ne hc (d := 'Y') rfl,
    hnext, hc, unit_of_octal hc, Bool.false_eq_true, if_false, Bool.or_self, Bool.and_self, Bool.not_true,
    Bool.and_false, Option.map_some] at h
  have hnone : ((cs.takeWhile Escape.isOctal).take 2).length = 0 := (Prod.mk.inj (Option.some.inj h)).2
  cases cs with
  | nil => cases hnext
  | cons d cs =>
    have hd : Escape.isOctal d = true := hnext
    rw [List.takeWhile_cons_of_pos hd] at hnone
    cases hnone

/-- Whether a digit after a backslash refers to a group shows before either rest. -/
theorem octal_follows {c : Char} (h : scanLetter c (a ++ r) = some (t, a.length)) (hr : Follows r r') :
    ((a ++ r').head?.any Escape.isOctal && Escape.isOctal c) =
      ((a ++ r).head?.any Escape.isOctal && Escape.isOctal c) := by
  by_cases hc : Escape.isOctal c = true
  · cases a with
    | cons d b => rfl
    | nil =>
      have hlast : ¬r.head?.any Escape.isOctal = true := fun hnext => scanLetter_octal hc hnext h
      have hlast' : ¬r'.head?.any Escape.isOctal = true := by
        intro hnext
        obtain ⟨d, hd, hoctal⟩ := (Option.any_eq_true _ _).1 hnext
        apply hlast
        rw [hr d hd (.inr (isDigit_of_isOctal hoctal))]
        exact hoctal
      rw [List.nil_append, List.nil_append, Bool.eq_false_iff.2 hlast, Bool.eq_false_iff.2 hlast']
  · rw [Bool.eq_false_iff.2 hc, Bool.and_false, Bool.and_false]

theorem scanLetter_append {c : Char} (h : scanLetter c (a ++ r) = some (t, a.length)) (hr : Follows r r') :
    scanLetter c (a ++ r') = some (t, a.length) := by
  have hoctal := octal_follows h hr
  unfold scanLetter at h ⊢
  rw [hoctal]
  split at h
  · rename_i hp
    rw [if_pos hp]
    obtain ⟨answer, hname, hwidth⟩ := Option.map_eq_some_iff.1 h
    obtain ⟨rfl, hlength⟩ := Prod.mk.inj hwidth
    rw [scanName_append (hname.trans (congrArg some (Prod.ext rfl hlength))) r']
    rfl
  · rename_i hp
    rw [if_neg hp]
    split at h
    · rename_i hy
      rw [if_pos hy]
      exact scanCross_append h r'
    · rename_i hy
      rw [if_neg hy]
      split at h
      · rename_i hdigit
        rw [if_pos hdigit]
        exact h
      · rename_i hdigit
        rw [if_neg hdigit]
        obtain ⟨answer, hunit, hwidth⟩ := Option.map_eq_some_iff.1 h
        obtain ⟨rfl, hlength⟩ := Prod.mk.inj hwidth
        rw [Escape.unit_append (hunit.trans (congrArg some (Prod.ext rfl hlength))) hr]
        rfl

theorem scanEscape_append (h : scanEscape pos (a ++ r) = .ok (t, a.length + 1)) (hr : Follows r r')
    (pos' : Nat) : scanEscape pos' (a ++ r') = .ok (t, a.length + 1) := by
  obtain ⟨c, rest, hcons, hread⟩ := scanEscape_eq_ok h
  obtain ⟨b, rfl, rfl⟩ : ∃ b, a = c :: b ∧ rest = b ++ r := by
    cases a with
    | nil => rcases hread with ⟨_, _, _, hwidth⟩ | ⟨_, _, _, hwidth⟩ <;> simp at hwidth
    | cons d b => exact ⟨b, by rw [(List.cons.inj hcons).1], (List.cons.inj hcons).2.symm⟩
  rw [List.cons_append, scanEscape_cons]
  rcases hread with ⟨op, hescaped, rfl, hwidth⟩ | ⟨inside, hescaped, hletter, hwidth⟩
  · simp only [hescaped, hwidth]
  · obtain rfl : inside = b.length := by simpa using hwidth.symm
    simp only [hescaped, scanLetter_append hletter hr, List.length_cons]

/-! ### Tokens by their first character -/

/-- The leaf that a character stands for by itself. -/
def leafOf? (o : Options) : Char → Option Leaf
  | '.' => some (.unit (.symbol .anyChar))
  | '^' => some (.assertion (if o.multiline then .lineStart else .schemeStart))
  | '~' => some (.assertion .schemeStart)
  | '$' => some (.assertion .lineEnd)
  | _ => none

/-- The bounds that a character stands for by itself. -/
def boundsOf? : Char → Option (UInt32 × Option UInt32)
  | '*' => some (0, none)
  | '+' => some (1, none)
  | '?' => some (0, some 1)
  | _ => none

/-- The characters that do not stand for themselves. -/
def signs : List Char := ['(', ')', '|', '*', '+', '?', '\x7b', '[', '\\', '.', '^', '~', '$']

/-- The token that starts with a character, before the characters `cs`, and its width. -/
inductive Scanned (o : Options) (pos : Nat) (cs : List Char) : Char → Token → Nat → Prop
  | opening {t : Token} {width : Nat} (read : scanOpening pos cs = .ok (t, width)) : Scanned o pos cs '(' t width
  | closing : Scanned o pos cs ')' .closing 1
  | bar : Scanned o pos cs '|' .bar 1
  | quantifier {c : Char} {t : Token} {width : Nat} {min : UInt32} {max : Option UInt32}
      (sign : boundsOf? c = some (min, max)) (read : quantified min max 1 cs = (t, width)) :
      Scanned o pos cs c t width
  | braces {t : Token} {width inside : Nat} {min : UInt32} {max : Option UInt32}
      (bounds : scanBounds cs = some (min, max, inside)) (read : quantified min max (inside + 1) cs = (t, width)) :
      Scanned o pos cs '\x7b' t width
  | set {level : ClassLevel} {stop : Nat}
      (read : ClassLevel.scan o.ignoreCase [] { negated := cs.head? == some '^' }
        (if cs.head? == some '^' then 1 else 0) (pos + 1) cs = .ok (level, stop)) :
      Scanned o pos cs '[' (.leaf (.unit (.set level.members level.negated))) (stop - pos)
  | escape {t : Token} {width : Nat} (read : scanEscape pos cs = .ok (t, width)) : Scanned o pos cs '\\' t width
  | leaf {c : Char} {op : Leaf} (sign : leafOf? o c = some op) : Scanned o pos cs c (.leaf op) 1
  | literal {c : Char} (plain : c ∉ signs) : Scanned o pos cs c (.literal c) 1

theorem scan_eq_ok {c : Char} {cs : List Char} {width : Nat} :
    scan o pos c cs = .ok (t, width) ↔ Scanned o pos cs c t width := by
  constructor
  · intro h
    have hone : ∀ {t' : Token}, (Except.ok (t', 1) : Except Error (Token × Nat)) = .ok (t, width) →
        Scanned o pos cs c t' 1 → Scanned o pos cs c t width := by
      intro t' h hscanned
      obtain ⟨rfl, rfl⟩ := Prod.mk.inj (Except.ok.inj h)
      exact hscanned
    unfold scan at h
    split at h
    · exact .opening h
    · exact hone h .closing
    · exact hone h .bar
    · exact .quantifier rfl (Except.ok.inj h)
    · exact .quantifier rfl (Except.ok.inj h)
    · exact .quantifier rfl (Except.ok.inj h)
    · split at h
      · exact .braces ‹_› (Except.ok.inj h)
      · cases h
    · simp only at h
      split at h
      · obtain ⟨rfl, rfl⟩ := Prod.mk.inj (Except.ok.inj h)
        exact .set ‹_›
      · cases h
    · exact .escape h
    · exact hone h (.leaf rfl)
    · exact hone h (.leaf rfl)
    · exact hone h (.leaf rfl)
    · exact hone h (.leaf rfl)
    · refine hone h (.literal ?_)
      simp_all [signs]
  · intro h
    cases h with
    | opening read => exact read
    | closing => rfl
    | bar => rfl
    | quantifier sign read =>
      unfold boundsOf? at sign
      split at sign <;> cases sign <;> exact congrArg Except.ok read
    | braces bounds read => simp only [scan, bounds, read]
    | set read => simp only [scan, read]
    | escape read => exact read
    | leaf sign =>
      unfold leafOf? at sign
      split at sign <;> cases sign <;> rfl
    | literal plain =>
      unfold scan
      split <;> first | rfl | exact absurd (by decide) plain

theorem scanBounds_within {min : UInt32} {max : Option UInt32} {width : Nat}
    (h : scanBounds (a ++ r) = some (min, max, width)) (hwidth : width ≤ a.length) (r' : List Char) :
    scanBounds (a ++ r') = some (min, max, width) := by
  obtain ⟨b, d, rfl, rfl⟩ : ∃ b d, a = b ++ d ∧ b.length = width :=
    ⟨a.take width, a.drop width, (List.take_append_drop width a).symm, by rw [List.length_take]; omega⟩
  rw [List.append_assoc] at h ⊢
  exact scanBounds_append h (d ++ r')

theorem le_of_quantified {min : UInt32} {max : Option UInt32} {width width' : Nat} {cs : List Char}
    (h : quantified min max width cs = (t, width')) : width ≤ width' := by
  unfold quantified at h
  split at h
  · obtain ⟨-, rfl⟩ := Prod.mk.inj h
    omega
  · obtain ⟨-, rfl⟩ := Prod.mk.inj h
    omega

theorem Scanned.set_append {level : ClassLevel}
    (h : ClassLevel.scan o.ignoreCase [] { negated := (a ++ r).head? == some '^' }
      (if (a ++ r).head? == some '^' then 1 else 0) (pos + 1) (a ++ r) = .ok (level, pos + 1 + a.length))
    (r' : List Char) (pos' : Nat) :
    Scanned o pos' (a ++ r') '[' (.leaf (.unit (.set level.members level.negated))) (a.length + 1) := by
  obtain ⟨b, r₁, hcut, -, hstop⟩ := ClassLevel.exists_of_scan _ _ _ _ _ _ h
  -- The characters of the token are those of the class with its last bracket.
  rw [List.append_cons] at hcut
  obtain ⟨rfl, rfl⟩ := List.append_inj hcut (by rw [List.length_append, List.length_singleton]; omega)
  have hhead : (b ++ ']' :: r').head? = (b ++ ']' :: r).head? := by cases b <;> rfl
  rw [List.length_append, List.length_singleton]
  simp only [← List.append_cons, hstop] at h ⊢
  rw [← hhead] at h
  have hset := Scanned.set (ClassLevel.scan_append r' b _ _ _ _ h (pos' + 1))
  rwa [show pos' + 1 + b.length + 1 - pos' = b.length + 1 + 1 by omega] at hset

/-- A token is read again before another rest and at another position. -/
theorem scan_append {c : Char} (h : scan o pos c (a ++ r) = .ok (t, a.length + 1)) (hr : Follows r r')
    (pos' : Nat) : scan o pos' c (a ++ r') = .ok (t, a.length + 1) := by
  rw [scan_eq_ok] at h ⊢
  generalize hwidth : a.length + 1 = width at h ⊢
  cases h with
  | opening read =>
    subst hwidth
    exact .opening (scanOpening_append read hr pos')
  | closing => exact .closing
  | bar => exact .bar
  | quantifier sign read =>
    subst hwidth
    exact .quantifier sign (quantified_append (Nat.le_refl 1) read hr)
  | braces bounds read =>
    subst hwidth
    have hinside := le_of_quantified read
    exact .braces (scanBounds_within bounds (by omega) r') (quantified_append (Nat.le_add_left 1 _) read hr)
  | @set level stop read =>
    obtain rfl : stop = pos + 1 + a.length := by omega
    exact hwidth ▸ .set_append read r' pos'
  | escape read =>
    subst hwidth
    exact .escape (scanEscape_append read hr pos')
  | leaf sign => exact .leaf sign
  | literal plain => exact .literal plain

theorem one_le_of_scan {c : Char} {cs : List Char} {width : Nat} (h : scan o pos c cs = .ok (t, width)) :
    1 ≤ width := by
  cases scan_eq_ok.1 h with
  | opening read =>
    by_cases hmark : cs.head? = some '?'
    · obtain ⟨rest, rfl⟩ := List.head?_eq_some_iff.1 hmark
      have hthree := three_le_of_opening read
      omega
    · rw [scanOpening_plain hmark] at read
      exact Nat.le_of_eq (Prod.mk.inj (Except.ok.inj read)).2
  | closing => exact Nat.le_refl 1
  | bar => exact Nat.le_refl 1
  | quantifier _ read => exact le_of_quantified read
  | braces _ read => exact Nat.le_trans (Nat.le_add_left 1 _) (le_of_quantified read)
  | set read =>
    obtain ⟨a, r, -, -, rfl⟩ := ClassLevel.exists_of_scan _ _ _ _ _ _ read
    omega
  | escape read =>
    obtain ⟨d, ds, -, ⟨op, -, -, rfl⟩ | ⟨inside, -, -, rfl⟩⟩ := scanEscape_eq_ok read
    · omega
    · omega
  | leaf => exact Nat.le_refl 1
  | literal => exact Nat.le_refl 1

end Token

end SpanRegex.Pattern
