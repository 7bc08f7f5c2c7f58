import SpanRegex.Proofs.Expressions

/-! # Reading written expressions

Every piece of a written expression is read as one token, whatever stands after it, as long as that does not
begin with a digit or a question mark. No piece does, so the pieces are read one after the other.

* `decimal_text`, `name_text`, `hexadecimal_text`: numbers, names and units are read back.
* `ClassLevel.scan_text`: the inside of a class is read as the set that it collects.
* `Calm`, `Reads`: what may stand after a piece, and that a piece is read as a token.
* `Lexeme.reads`: every piece is read; `readFrom_text`: so are pieces in a row.
-/

namespace SpanRegex.Pattern
set_option autoImplicit false

/-! ## Numbers, names and units -/

theorem value_eq (digits : List Char) : ∀ n : Nat, (∀ c ∈ digits, c.isDigit = true) →
    digits.foldl (fun n c => n * 10 + (Escape.hexDigit? c).getD 0) n = Nat.ofDigitChars 10 digits n := by
  induction digits with
  | nil => exact fun _ _ => rfl
  | cons c digits ih =>
    intro n h
    have hc : Escape.hexDigit? c = some (c.toNat - '0'.toNat) := if_pos (h c List.mem_cons_self)
    have hrest := ih (n * 10 + (c.toNat - '0'.toNat)) fun d hd => h d (List.mem_cons_of_mem _ hd)
    simp only [List.foldl_cons, hc, Option.getD_some, Nat.ofDigitChars] at hrest ⊢
    rw [hrest, Nat.mul_comm]

theorem takeWhile_append {p : Char → Bool} {cs rest : List Char} (hcs : ∀ c ∈ cs, p c = true)
    (hrest : ∀ c, rest.head? = some c → p c = false) : (cs ++ rest).takeWhile p = cs := by
  rw [List.takeWhile_append_of_pos hcs]
  cases rest with
  | nil => simp
  | cons c rest => simp [hrest c rfl]

theorem decimalText_isDigit {n : UInt32} {c : Char} (hc : c ∈ decimalText n) : c.isDigit = true :=
  Nat.isDigit_of_mem_toDigits (by decide) (by decide) hc

theorem decimal_text (n : UInt32) {rest : List Char}
    (hrest : ∀ c, rest.head? = some c → c.isDigit = false) :
    Escape.decimal (decimalText n ++ rest) = some (n, (decimalText n).length) := by
  have hdigits : ∀ c ∈ decimalText n, c.isDigit = true := fun _ => decimalText_isDigit
  have hvalue : Escape.value 10 (decimalText n) = n.toNat := by
    unfold Escape.value
    rw [value_eq _ 0 hdigits]
    exact Nat.ofDigitChars_ten_toDigits
  have hsome : (decimalText n).isEmpty = false := by
    simp [decimalText]
  have hlt := n.toNat_lt
  unfold Escape.decimal
  simp only [takeWhile_append hdigits hrest, hsome, hvalue, Bool.false_or]
  rw [if_neg (by simpa using hlt)]
  simp

theorem name_text (name : GroupName) (rest : List Char) :
    Escape.name (name.text.toList ++ '\x7d' :: rest) =
      some (name.text, name.text.toList.length + 1) := by
  have htext : (name.text.toList ++ '\x7d' :: rest).takeWhile (· != '\x7d') = name.text.toList := by
    apply takeWhile_append
    · intro c hc
      have hne : c ≠ '\x7d' := fun h => name.closed (h ▸ hc)
      simpa using hne
    · intro c hc
      obtain rfl := Option.some.inj hc
      rfl
  unfold Escape.name
  simp [htext]

theorem hexDigit_digitChar : ∀ n : Fin 16, Escape.hexDigit? (Nat.digitChar n) = some n.val := by decide

theorem hexDigits_read (u : CodeUnit) :
    (∀ c ∈ hexDigits u, (Escape.hexDigit? c).isSome = true) ∧ Escape.value 16 (hexDigits u) = u.toNat := by
  have hlt := u.toNat_lt
  have hdigit : ∀ n, n < 16 → Escape.hexDigit? (Nat.digitChar n) = some n := fun n hn =>
    hexDigit_digitChar ⟨n, hn⟩
  have h₃ := hdigit (u.toNat / 4096) (by omega)
  have h₂ := hdigit (u.toNat / 256 % 16) (by omega)
  have h₁ := hdigit (u.toNat / 16 % 16) (by omega)
  have h₀ := hdigit (u.toNat % 16) (by omega)
  refine ⟨?_, ?_⟩
  · simp [hexDigits, h₃, h₂, h₁, h₀]
  · simp only [Escape.value, hexDigits, List.map_cons, List.map_nil, List.foldl_cons, List.foldl_nil, h₃,
      h₂, h₁, h₀, Option.getD_some]
    omega

theorem hexadecimal_text (u : CodeUnit) (rest : List Char) :
    Escape.hexadecimal ('\x7b' :: (hexDigits u ++ '\x7d' :: rest)) = some (u, 6) := by
  obtain ⟨hdigits, hvalue⟩ := hexDigits_read u
  have htake : (hexDigits u ++ '\x7d' :: rest).takeWhile (fun c => (Escape.hexDigit? c).isSome) =
      hexDigits u := by
    apply takeWhile_append hdigits
    intro c hc
    obtain rfl := Option.some.inj hc
    rfl
  have hfour : (hexDigits u).take 4 = hexDigits u := rfl
  have hlength : (hexDigits u).length = 4 := rfl
  have hsome : (hexDigits u).isEmpty = false := rfl
  unfold Escape.hexadecimal
  simp [htake, hfour, hvalue, hlength, hsome]

theorem unitCode_append (u : CodeUnit) (rest : List Char) :
    unitCode u ++ rest = 'x' :: '\x7b' :: (hexDigits u ++ '\x7d' :: rest) := by
  simp [unitCode]

theorem unit_text (u : CodeUnit) (rest : List Char) :
    Escape.unit 'x' ('\x7b' :: (hexDigits u ++ '\x7d' :: rest)) = some (u, 6) := by
  have hcontrol : Escape.control? 'x' = none := rfl
  have hx : ('x' == 'x') = true := rfl
  simp only [Escape.unit, hcontrol, hx, if_true, hexadecimal_text]

/-! ## Pieces of a class -/

/-- What follows a unit in a class does not make it the start of a range. -/
def Apart (rest : List Char) : Prop := ∀ d more, rest = '-' :: d :: more → d = ']' ∨ d = '['

theorem member_text (pos : Nat) (u : CodeUnit) (rest : List Char) :
    ClassMember.scan pos '\\' (unitCode u ++ rest) = .ok (.unit u, 8) := by
  have hnamed : ClassMember.named? 'x' = none := rfl
  simp [unitCode_append, ClassMember.scan, hnamed, unit_text]

theorem piece_unit (pos : Nat) (u : CodeUnit) {rest : List Char} (h : Apart rest) :
    ClassPiece.scan pos '\\' (unitCode u ++ rest) = .ok (.range u u, 8) := by
  have hmember := member_text pos u rest
  have hdrop : (unitCode u ++ rest).drop (8 - 1) = rest := rfl
  rw [unitCode_append] at hmember hdrop ⊢
  simp only [ClassPiece.scan, Char.reduceEq, imp_self, List.cons.injEq, false_and, implies_true, bind,
    Except.bind, hmember, hdrop, Bool.or_eq_true, beq_iff_eq]
  split
  · rename_i d more
    rw [if_pos (h d more rfl)]
    rfl
  · rfl

theorem piece_range (pos : Nat) {first last : CodeUnit} (ordered : first ≤ last) (rest : List Char) :
    ClassPiece.scan pos '\\' (unitCode first ++ '-' :: unitText last ++ rest) =
      .ok (.range first last, 17) := by
  have hmember := member_text pos first ('-' :: (unitText last ++ rest))
  have hlast := member_text (pos + 8 + 1) last rest
  have hdrop : (unitCode first ++ '-' :: (unitText last ++ rest)).drop (8 - 1) =
      '-' :: '\\' :: (unitCode last ++ rest) := rfl
  rw [List.append_assoc, List.cons_append]
  rw [unitCode_append] at hmember hdrop ⊢
  simp [ClassPiece.scan, hmember, hlast, bind, Except.bind, pure, Except.pure, hdrop, ordered]

theorem named_letter {test : Symbol} (proper : test ≠ .anyChar) :
    ClassMember.named? test.letter = some (.ofPred fun u => test.passes false u) := by
  have hcompl : ∀ p : CodeUnit → Bool, (UnitSet.ofPred p).compl = .ofPred fun u => !p u := by
    intro p
    apply UnitSet.ext_contains
    intro u
    simp
  cases test with
  | anyChar => exact absurd rfl proper
  | digit => rfl
  | word => rfl
  | space => rfl
  | upper => rfl
  | lower => rfl
  | notDigit => exact congrArg some (hcompl _)
  | notWord => exact congrArg some (hcompl _)
  | notSpace => exact congrArg some (hcompl _)

theorem piece_named (pos : Nat) {test : Symbol} (proper : test ≠ .anyChar) (rest : List Char) :
    ClassPiece.scan pos '\\' (test.letter :: rest) =
      .ok (.named (.ofPred fun u => test.passes false u), 2) := by
  have hmember : ClassMember.scan pos '\\' (test.letter :: rest) =
      .ok (.named (.ofPred fun u => test.passes false u), 2) := by
    simp [ClassMember.scan, named_letter proper]
  simp [ClassPiece.scan, hmember, bind, Except.bind, pure, Except.pure]

theorem nested_text (join : ClassJoin) (negated : Bool) (width : Nat) {rest : List Char}
    (h : rest.head? ≠ some '^') : ClassPiece.nested join width (negationText negated ++ rest) =
      (.nest join negated, width + (negationText negated).length) := by
  unfold ClassPiece.nested
  cases negated with
  | false => simp [negationText, h]
  | true => simp [negationText]

/-- What a piece other than the closing bracket makes of the classes that are open. -/
def ClassLevel.after (ignoreCase : Bool) (outer : List (ClassJoin × ClassLevel)) (inner : ClassLevel) :
    ClassPiece → Option (List (ClassJoin × ClassLevel) × ClassLevel)
  | .finish => none
  | .nest join negated => some ((join, inner) :: outer, { negated })
  | .range first last => some (outer, inner.addRange ignoreCase first last)
  | .named members => some (outer, { inner with members := inner.members.union members })

/-- The classes that are open after a piece, unless it closes the outermost. -/
def ClassLevel.next? (ignoreCase : Bool) (outer : List (ClassJoin × ClassLevel)) (inner : ClassLevel) :
    ClassPiece → Option (List (ClassJoin × ClassLevel) × ClassLevel)
  | .finish =>
    match outer with
    | [] => none
    | (join, around) :: outer => some (outer, around.joined join inner)
  | piece => after ignoreCase outer inner piece

section

variable {ignoreCase : Bool} {outer outer' : List (ClassJoin × ClassLevel)} {inner inner' : ClassLevel}

theorem ClassLevel.scan_cons (pos : Nat) (c : Char) (cs : List Char) :
    ClassLevel.scan ignoreCase outer inner 0 pos (c :: cs) =
      match ClassPiece.scan pos c cs with
      | .error e => .error e
      | .ok (piece, width) =>
        match next? ignoreCase outer inner piece with
        | none => .ok (inner, pos + 1)
        | some (outer, inner) => ClassLevel.scan ignoreCase outer inner (width - 1) (pos + 1) cs := by
  rw [ClassLevel.scan]
  cases ClassPiece.scan pos c cs with
  | error e => rfl
  | ok answer =>
    obtain ⟨piece, width⟩ := answer
    cases piece with
    | finish =>
      cases outer with
      | nil => rfl
      | cons around outer => rfl
    | nest join negated => rfl
    | range first last => rfl
    | named members => rfl

theorem ClassLevel.scan_skip (rest cs : List Char) : ∀ pos : Nat,
    ClassLevel.scan ignoreCase outer inner cs.length pos (cs ++ rest) =
      ClassLevel.scan ignoreCase outer inner 0 (pos + cs.length) rest := by
  induction cs with
  | nil => exact fun _ => rfl
  | cons c cs ih =>
    intro pos
    rw [List.cons_append, List.length_cons, ClassLevel.scan, ih, Nat.add_right_comm, Nat.add_assoc]

theorem ClassLevel.scan_piece {pos : Nat} {c : Char} {cs rest : List Char} {piece : ClassPiece}
    (h : ClassPiece.scan pos c (cs ++ rest) = .ok (piece, cs.length + 1))
    (hnext : ClassLevel.next? ignoreCase outer inner piece = some (outer', inner')) :
    ClassLevel.scan ignoreCase outer inner 0 pos (c :: (cs ++ rest)) =
      ClassLevel.scan ignoreCase outer' inner' 0 (pos + (cs.length + 1)) rest := by
  have hpos : pos + (cs.length + 1) = pos + 1 + cs.length := by omega
  simp only [ClassLevel.scan_cons, h, hnext, hpos, Nat.add_sub_cancel, ClassLevel.scan_skip]

theorem ClassLevel.scan_closing (join : ClassJoin) (around : ClassLevel) (pos : Nat) (rest : List Char) :
    ClassLevel.scan ignoreCase ((join, around) :: outer) inner 0 pos (']' :: rest) =
      ClassLevel.scan ignoreCase outer (around.joined join inner) 0 (pos + 1) rest := rfl

end

theorem ClassLevel.joined_apply (join : ClassJoin) (around inner : ClassLevel) :
    around.joined join inner =
      { around with
        members := join.apply around.members
          (if inner.negated then inner.members.compl else inner.members) } := by
  cases join <;> rfl

theorem ClassMembers.text_apart (members : ClassMembers) (rest : List Char) :
    Apart (members.text ++ ']' :: rest) ∧ (members.text ++ ']' :: rest).head? ≠ some '^' := by
  cases members with
  | none => simp [text, Apart]
  | unit u next => simp [text, unitText, Apart]
  | range first last ordered next => simp [text, unitText, Apart]
  | named test proper next => simp [text, Apart]
  | nested join negated inner next => cases join <;> simp +contextual [text, ClassJoin.text, Apart]

theorem piece_nested (pos : Nat) (join : ClassJoin) (negated : Bool) :
    ∃ c cs, join.text ++ negationText negated = c :: cs ∧ ∀ rest : List Char, rest.head? ≠ some '^' →
      ClassPiece.scan pos c (cs ++ rest) = .ok (.nest join negated, cs.length + 1) := by
  have hnested : ∀ (width : Nat) (rest : List Char), rest.head? ≠ some '^' →
      ClassPiece.nested join width (negationText negated ++ rest) =
        (.nest join negated, (negationText negated).length + width) := by
    intro width rest h
    rw [nested_text join negated width h, Nat.add_comm]
  cases join with
  | union => exact ⟨'[', _, rfl, fun rest h => congrArg _ (hnested 1 rest h)⟩
  | inter => exact ⟨'&', '&' :: '[' :: negationText negated, rfl, fun rest h => congrArg _ (hnested 3 rest h)⟩
  | diff => exact ⟨'-', '[' :: negationText negated, rfl, fun rest h => congrArg _ (hnested 2 rest h)⟩

/-! ## Classes -/

/-- The inside of a class is read as the set that its members make of the set before them. -/
theorem ClassLevel.scan_text (ignoreCase : Bool) (members : ClassMembers) :
    ∀ (outer : List (ClassJoin × ClassLevel)) (inner : ClassLevel) (pos : Nat) (rest : List Char),
      ClassLevel.scan ignoreCase outer inner 0 pos (members.text ++ ']' :: rest) =
        ClassLevel.scan ignoreCase outer { inner with members := members.collect ignoreCase inner.members }
          0 (pos + members.text.length) (']' :: rest) := by
  induction members with
  | none => exact fun _ _ _ _ => rfl
  | unit u next ih =>
    intro outer inner pos rest
    have hsplit : (ClassMembers.unit u next).text ++ ']' :: rest =
        '\\' :: (unitCode u ++ (next.text ++ ']' :: rest)) := by simp [ClassMembers.text, unitText]
    have hlength : pos + ((unitCode u).length + 1) + next.text.length =
        pos + (ClassMembers.unit u next).text.length := by
      simp only [ClassMembers.text, unitText, List.length_append, List.length_cons]
      omega
    rw [hsplit, scan_piece (piece_unit pos u (next.text_apart rest).1) rfl, ih, hlength]
    rfl
  | range first last ordered next ih =>
    intro outer inner pos rest
    have hsplit : (ClassMembers.range first last ordered next).text ++ ']' :: rest =
        '\\' :: (unitCode first ++ '-' :: unitText last ++ (next.text ++ ']' :: rest)) := by
      simp [ClassMembers.text, unitText]
    have hlength : pos + ((unitCode first ++ '-' :: unitText last).length + 1) + next.text.length =
        pos + (ClassMembers.range first last ordered next).text.length := by
      simp only [ClassMembers.text, unitText, List.length_append, List.length_cons]
      omega
    rw [hsplit, scan_piece (piece_range pos ordered _) rfl, ih, hlength]
    rfl
  | named test proper next ih =>
    intro outer inner pos rest
    have hsplit : (ClassMembers.named test proper next).text ++ ']' :: rest =
        '\\' :: ([test.letter] ++ (next.text ++ ']' :: rest)) := rfl
    have hlength : pos + ([test.letter].length + 1) + next.text.length =
        pos + (ClassMembers.named test proper next).text.length := by
      simp only [ClassMembers.text, List.length_cons, List.length_nil]
      omega
    rw [hsplit, scan_piece (piece_named pos proper _) rfl, ih, hlength]
    rfl
  | nested join negated inside next ihInside ihNext =>
    intro outer inner pos rest
    obtain ⟨c, cs, hopen, hpiece⟩ := piece_nested pos join negated
    have hsplit : (ClassMembers.nested join negated inside next).text ++ ']' :: rest =
        c :: (cs ++ (inside.text ++ ']' :: (next.text ++ ']' :: rest))) := by
      rw [← List.cons_append, ← hopen]
      simp [ClassMembers.text]
    have hlength : pos + (cs.length + 1) + inside.text.length + 1 + next.text.length =
        pos + (ClassMembers.nested join negated inside next).text.length := by
      have hopen := congrArg List.length hopen
      simp only [ClassMembers.text, List.length_append, List.length_cons] at hopen ⊢
      omega
    rw [hsplit, scan_piece (hpiece _ (inside.text_apart _).2) rfl, ihInside, scan_closing, joined_apply,
      ihNext, hlength]
    rfl

/-! ## Pieces of an expression -/

/-- The text neither goes on with a number nor changes the quantifier or the parenthesis before it. -/
def Calm (text : List Char) : Prop := ∀ c, text.head? = some c → c ≠ '?' ∧ c.isDigit = false

/-- The text is calm, and is read as the token whatever calm text follows it. -/
def Reads (o : Options) (text : List Char) (token : Token) : Prop :=
  ∃ c cs, text = c :: cs ∧ CodeUnit.isSpaceChar c = false ∧ c ≠ '?' ∧ c.isDigit = false ∧
    ∀ pos rest, Calm rest → Token.scan o pos c (cs ++ rest) = .ok (token, cs.length + 1)

/-- The token of a sign: names are left as they are written, and a line start that the options do not allow
is read as another condition. -/
def Sign.token (o : Options) : Sign → Token
  | .unit u => .leaf (.unit (.literal u))
  | .symbol test => .leaf (.unit (.symbol test))
  | .assertion .lineStart => .leaf (.assertion (if o.multiline then .lineStart else .schemeStart))
  | .assertion condition => .leaf (.assertion condition)
  | .pin edge => .leaf (.pin edge)
  | .set negated members => .leaf (.unit (.set (members.collect o.ignoreCase .empty) negated))
  | .reference index => .leaf (.reference (.numbered index.succ))
  | .referenceName name => .referenceName name.text
  | .cross index ignoreCase => .leaf (.cross (.slot (.numbered index)) ignoreCase)
  | .crossName name ignoreCase => .crossName name.text ignoreCase

def Opener.kind : Opener → Opening
  | .plain => .plain
  | .silent => .silent
  | .named name => .named name.text
  | .look negated behind => .look ⟨negated, behind.map UInt32.toNat⟩

def Lexeme.token (o : Options) : Lexeme → Token
  | .opening opener => .opening opener.kind
  | .closing => .closing
  | .bar => .bar
  | .times n => .quantifier n.toQuantifier
  | .sign s => s.token o

section

variable {o : Options}

theorem reads_escape {cs : List Char} {token : Token}
    (h : ∀ pos rest, Calm rest → Token.scanEscape pos (cs ++ rest) = .ok (token, cs.length + 1)) :
    Reads o ('\\' :: cs) token :=
  ⟨'\\', cs, rfl, by decide, by decide, by decide, h⟩

theorem reads_unit (u : CodeUnit) : Reads o (unitText u) (.leaf (.unit (.literal u))) := by
  apply reads_escape
  intro pos rest _
  have hescaped : Token.escaped? 'x' = none := rfl
  have hlength : (unitCode u).length + 1 = 8 := rfl
  rw [unitCode_append, hlength]
  simp [Token.scanEscape, hescaped, unit_text]

theorem reads_symbol (test : Symbol) : Reads o test.text (.leaf (.unit (.symbol test))) := by
  cases test with
  | anyChar => exact ⟨'.', [], rfl, by decide, by decide, by decide, fun _ _ _ => rfl⟩
  | digit => exact reads_escape fun _ _ _ => rfl
  | notDigit => exact reads_escape fun _ _ _ => rfl
  | word => exact reads_escape fun _ _ _ => rfl
  | notWord => exact reads_escape fun _ _ _ => rfl
  | space => exact reads_escape fun _ _ _ => rfl
  | notSpace => exact reads_escape fun _ _ _ => rfl
  | upper => exact reads_escape fun _ _ _ => rfl
  | lower => exact reads_escape fun _ _ _ => rfl

theorem reads_assertion (condition : Assertion) :
    Reads o condition.text ((Sign.assertion condition).token o) := by
  cases condition with
  | lineStart => exact ⟨'^', [], rfl, by decide, by decide, by decide, fun _ _ _ => rfl⟩
  | schemeStart => exact ⟨'~', [], rfl, by decide, by decide, by decide, fun _ _ _ => rfl⟩
  | lineEnd => exact ⟨'$', [], rfl, by decide, by decide, by decide, fun _ _ _ => rfl⟩
  | wordBoundary => exact reads_escape fun _ _ _ => rfl
  | notWordBoundary => exact reads_escape fun _ _ _ => rfl
  | afterNonLetter => exact reads_escape fun _ _ _ => rfl

theorem reads_pin (edge : Edge) : Reads o edge.text (.leaf (.pin edge)) := by
  cases edge with
  | start => exact reads_escape fun _ _ _ => rfl
  | stop => exact reads_escape fun _ _ _ => rfl

theorem class_text (ignoreCase negated : Bool) (members : ClassMembers) (pos : Nat) (rest : List Char) :
    ClassLevel.scan ignoreCase [] { negated } (if negated then 1 else 0) pos
        (negationText negated ++ (members.text ++ ']' :: rest)) =
      .ok ({ negated, members := members.collect ignoreCase .empty },
        pos + (negationText negated).length + members.text.length + 1) := by
  have hskip : ClassLevel.scan ignoreCase [] { negated } (if negated then 1 else 0) pos
        (negationText negated ++ (members.text ++ ']' :: rest)) =
      ClassLevel.scan ignoreCase [] { negated } 0 (pos + (negationText negated).length)
        (members.text ++ ']' :: rest) := by
    cases negated <;> rfl
  rw [hskip, ClassLevel.scan_text]
  rfl

theorem scan_set (negated : Bool) (members : ClassMembers) (pos : Nat) (rest : List Char) :
    Token.scan o pos '[' (negationText negated ++ (members.text ++ ']' :: rest)) =
      .ok (.leaf (.unit (.set (members.collect o.ignoreCase .empty) negated)),
        (Sign.set negated members).text.length) := by
  have hnegated : ((negationText negated ++ (members.text ++ ']' :: rest)).head? == some '^') = negated := by
    cases negated with
    | false => simpa [negationText] using (members.text_apart rest).2
    | true => rfl
  have hwidth : pos + 1 + (negationText negated).length + members.text.length + 1 - pos =
      (Sign.set negated members).text.length := by
    simp only [Sign.text, List.length_append, List.length_cons, List.length_nil]
    omega
  simp only [Token.scan, hnegated, class_text, hwidth]

theorem reads_set (negated : Bool) (members : ClassMembers) :
    Reads o (Sign.set negated members).text
      (.leaf (.unit (.set (members.collect o.ignoreCase .empty) negated))) := by
  refine ⟨'[', _, rfl, by decide, by decide, by decide, fun pos rest _ => ?_⟩
  have hinside : negationText negated ++ (members.text ++ [']']) ++ rest =
      negationText negated ++ (members.text ++ ']' :: rest) := by simp
  rw [hinside]
  exact scan_set negated members pos rest

theorem scanName_text (name : GroupName) (rest : List Char) :
    Token.scanName (name.braced ++ rest) = some (name.text, name.braced.length) := by
  have hbraced : name.braced ++ rest = '\x7b' :: (name.text.toList ++ '\x7d' :: rest) := by
    simp [GroupName.braced]
  have hlength : name.braced.length = name.text.toList.length + 1 + 1 := by
    simp [GroupName.braced]
  rw [hbraced, hlength, Token.scanName, name_text]
  rfl

theorem scanName_digit (n : SlotIndex) (rest : List Char) :
    Token.scanName (Nat.digitChar n.val :: rest) = none := by
  have hdigit : ∀ n : SlotIndex, Nat.digitChar n.val ≠ '\x7b' := by decide
  unfold Token.scanName
  split
  · rename_i heq
    exact absurd (List.cons.inj heq).1 (hdigit n)
  · rfl

theorem digitSlot_digitChar : ∀ n : SlotIndex, Token.digitSlot? (Nat.digitChar n.val) = some n := by decide

theorem isDigit_of_isOctal {c : Char} (h : Escape.isOctal c = true) : c.isDigit = true := by
  simp only [Escape.isOctal, Bool.and_eq_true, decide_eq_true_eq] at h
  simp only [Char.isDigit, Bool.and_eq_true, decide_eq_true_eq]
  exact ⟨h.1, UInt32.le_trans h.2 (by decide)⟩

/-- A digit is read as a reference: no octal digit follows it. -/
theorem reads_reference (index : Fin 9) :
    Reads o (Sign.reference index).text (.leaf (.reference (.numbered index.succ))) := by
  apply reads_escape
  intro pos rest hcalm
  have hoctal : rest.head?.any Escape.isOctal = false := by
    cases rest with
    | nil => rfl
    | cons c rest =>
      have hdigit := (hcalm c rfl).2
      apply Bool.eq_false_iff.2
      intro hoctal
      rw [isDigit_of_isOctal hoctal] at hdigit
      cases hdigit
  have hdigit : ∀ index : Fin 9, Token.escaped? (Nat.digitChar (index.val + 1)) = none ∧
      (Nat.digitChar (index.val + 1) == 'p') = false ∧ (Nat.digitChar (index.val + 1) == 'y') = false ∧
      (Nat.digitChar (index.val + 1) == 'Y') = false ∧ (Nat.digitChar (index.val + 1)).isDigit = true ∧
      (Nat.digitChar (index.val + 1) != '0') = true := by decide
  obtain ⟨hescaped, hp, hy, hY, hisDigit, hzero⟩ := hdigit index
  have hslot : Token.digitSlot? (Nat.digitChar (index.val + 1)) = some index.succ :=
    digitSlot_digitChar index.succ
  simp [Token.scanEscape, hescaped, hp, hy, hY, hisDigit, hzero, hoctal, hslot]

theorem reads_referenceName (name : GroupName) :
    Reads o (Sign.referenceName name).text (.referenceName name.text) := by
  apply reads_escape
  intro pos rest _
  have hescaped : Token.escaped? 'p' = none := rfl
  simp [Token.scanEscape, hescaped, scanName_text]

theorem reads_crossing {ignoreCase : Bool} {cs : List Char} {token : Token}
    (h : ∀ rest, Token.scanCross ignoreCase (cs ++ rest) = some (token, cs.length)) :
    Reads o ('\\' :: (if ignoreCase then 'Y' else 'y') :: cs) token := by
  apply reads_escape
  intro pos rest _
  have hescaped : Token.escaped? 'y' = none ∧ Token.escaped? 'Y' = none := ⟨rfl, rfl⟩
  cases ignoreCase with
  | false => simp [Token.scanEscape, hescaped, h]
  | true => simp [Token.scanEscape, hescaped, h]

theorem reads_cross (index : SlotIndex) (ignoreCase : Bool) :
    Reads o (Sign.cross index ignoreCase).text (.leaf (.cross (.slot (.numbered index)) ignoreCase)) := by
  apply reads_crossing
  intro rest
  simp [Token.scanCross, scanName_digit, digitSlot_digitChar]

theorem reads_crossName (name : GroupName) (ignoreCase : Bool) :
    Reads o (Sign.crossName name ignoreCase).text (.crossName name.text ignoreCase) := by
  apply reads_crossing
  intro rest
  simp only [Token.scanCross, scanName_text]

theorem reads_sign (sign : Sign) : Reads o sign.text (sign.token o) := by
  cases sign with
  | unit u => exact reads_unit u
  | symbol test => exact reads_symbol test
  | assertion condition => exact reads_assertion condition
  | pin edge => exact reads_pin edge
  | set negated members => exact reads_set negated members
  | reference index => exact reads_reference index
  | referenceName name => exact reads_referenceName name
  | cross index ignoreCase => exact reads_cross index ignoreCase
  | crossName name ignoreCase => exact reads_crossName name ignoreCase

theorem Calm.not_digit {rest : List Char} (h : Calm rest) (c : Char) (hc : rest.head? = some c) :
    c.isDigit = false := (h c hc).2

theorem reads_opener (opener : Opener) : Reads o opener.text (.opening opener.kind) := by
  have hparenthesis : ∀ {cs : List Char} {kind : Opening}, (∀ pos rest, Calm rest →
      Token.scanOpening pos (cs ++ rest) = .ok (.opening kind, cs.length + 1)) →
      Reads o ('(' :: cs) (.opening kind) := fun h =>
    ⟨'(', _, rfl, by decide, by decide, by decide, h⟩
  cases opener with
  | plain =>
    apply hparenthesis
    intro pos rest hcalm
    cases rest with
    | nil => rfl
    | cons c rest =>
      have hmark := (hcalm c rfl).1
      simp [Token.scanOpening, hmark, Opener.kind]
  | silent => exact hparenthesis fun _ _ _ => rfl
  | named name =>
    apply hparenthesis
    intro pos rest _
    have hbraced : '?' :: name.braced ++ rest = '?' :: '\x7b' :: (name.text.toList ++ '\x7d' :: rest) := by
      simp [GroupName.braced]
    have hlength : ('?' :: name.braced).length + 1 = name.text.toList.length + 1 + 3 := by
      simp [GroupName.braced]
    rw [hbraced, hlength]
    simp only [Token.scanOpening, name_text]
    rfl
  | look negated behind =>
    cases behind with
    | none => cases negated <;> exact hparenthesis fun _ _ _ => rfl
    | some n =>
      apply hparenthesis
      intro pos rest hcalm
      have hdecimal := decimal_text n hcalm.not_digit
      cases negated <;>
      · simp only [List.cons_append, Token.scanOpening, Token.scanBehind, hdecimal, Bool.false_eq_true,
          if_false, if_true]
        rfl

theorem scanBounds_text (n : Times) (rest : List Char) :
    Token.scanBounds (n.bounds ++ '\x7d' :: rest) = some (n.min, n.max, n.bounds.length + 1) := by
  have hmark : ∀ {c : Char} (rest : List Char), c.isDigit = false → ∀ d, (c :: rest).head? = some d →
      d.isDigit = false := fun _ hc d hd => Option.some.inj hd ▸ hc
  unfold Quantifier.bounds
  cases hmax : n.max with
  | none =>
    have hmin := decimal_text n.min (hmark ('\x7d' :: rest) (c := ',') rfl)
    simp [Token.scanBounds, hmin]
  | some bound =>
    have hmin := decimal_text n.min (hmark rest (c := '\x7d') rfl)
    by_cases hexact : bound = n.min
    · subst hexact
      simp [Token.scanBounds, hmin]
    · have hmin := decimal_text n.min (hmark (decimalText bound ++ '\x7d' :: rest) (c := ',') rfl)
      have hbound := decimal_text bound (hmark rest (c := '\x7d') rfl)
      have hordered := n.ordered bound hmax
      obtain ⟨d, ds, hdigits⟩ : ∃ d ds, decimalText bound = d :: ds :=
        List.exists_cons_of_ne_nil Nat.toDigits_ne_nil
      have hdigit : d.isDigit = true := by
        apply decimalText_isDigit (n := bound)
        rw [hdigits]
        exact List.mem_cons_self
      have hbrace : d ≠ '\x7d' := fun h => by simp [h] at hdigit
      simp only [if_neg hexact, hdigits]
      rw [hdigits] at hmin hbound
      simp only [List.cons_append] at hmin hbound
      simp [Token.scanBounds, hmin, hbound, hbrace, hordered, Nat.add_assoc]

theorem quantified_text (q : Quantifier) (cs : List Char) {rest : List Char} (hcalm : Calm rest) :
    Token.quantified q.min q.max (cs.length + 1) (cs ++ (if q.lazy then ['?'] else []) ++ rest) =
      (.quantifier q, (cs ++ if q.lazy then ['?'] else []).length + 1) := by
  obtain ⟨min, max, lazy⟩ := q
  have hdrop : (cs ++ (if lazy then ['?'] else []) ++ rest).drop (cs.length + 1 - 1) =
      (if lazy then ['?'] else []) ++ rest := by
    rw [List.append_assoc, Nat.add_sub_cancel, List.drop_left]
  unfold Token.quantified
  simp only [hdrop]
  cases lazy with
  | true => simp
  | false =>
    have hmark : rest.head? ≠ some '?' := fun h => (hcalm '?' h).1 rfl
    simp [hmark]

theorem reads_times (n : Times) : Reads o n.toQuantifier.text (.quantifier n.toQuantifier) := by
  refine ⟨'\x7b', _, rfl, by decide, by decide, by decide, fun pos rest hcalm => ?_⟩
  have hquantified := quantified_text n.toQuantifier (n.bounds ++ ['\x7d']) hcalm
  have hbounds := scanBounds_text n ((if n.lazy then ['?'] else []) ++ rest)
  have htext : n.bounds ++ ['\x7d'] ++ (if n.lazy then ['?'] else []) ++ rest =
      n.bounds ++ '\x7d' :: ((if n.lazy then ['?'] else []) ++ rest) := by simp
  have hwidth : (n.bounds ++ ['\x7d']).length = n.bounds.length + 1 := by simp
  have hsame : n.bounds ++ ('\x7d' :: if n.lazy then ['?'] else []) =
      n.bounds ++ ['\x7d'] ++ (if n.lazy then ['?'] else []) := by simp
  rw [htext, hwidth] at hquantified
  rw [hsame, htext]
  simp only [Token.scan, hbounds]
  exact congrArg _ hquantified

theorem Lexeme.reads (lexeme : Lexeme) : Reads o lexeme.text (lexeme.token o) := by
  cases lexeme with
  | opening opener => exact reads_opener opener
  | closing => exact ⟨')', [], rfl, by decide, by decide, by decide, fun _ _ _ => rfl⟩
  | bar => exact ⟨'|', [], rfl, by decide, by decide, by decide, fun _ _ _ => rfl⟩
  | times n => exact reads_times n
  | sign s => exact reads_sign s

/-! ## Pieces in a row -/

theorem calm_lexemes (lexemes : List Lexeme) : Calm (lexemes.flatMap Lexeme.text) := by
  intro c hc
  cases lexemes with
  | nil => simp at hc
  | cons lexeme lexemes =>
    obtain ⟨c', cs, htext, -, hmark, hdigit, -⟩ := lexeme.reads (o := {})
    rw [List.flatMap_cons, htext] at hc
    obtain rfl := Option.some.inj hc
    exact ⟨hmark, hdigit⟩

theorem readFrom_skip (rest cs : List Char) : ∀ pos : Nat,
    Token.readFrom o cs.length pos (cs ++ rest) = Token.readFrom o 0 (pos + cs.length) rest := by
  induction cs with
  | nil => exact fun _ => rfl
  | cons c cs ih =>
    intro pos
    rw [List.cons_append, List.length_cons, Token.readFrom, ih, Nat.add_right_comm, Nat.add_assoc]

theorem readFrom_lexemes (lexemes : List Lexeme) : ∀ pos : Nat, ∃ tokens,
    Token.readFrom o 0 pos (lexemes.flatMap Lexeme.text) = (tokens, none) ∧
      tokens.map Prod.snd = lexemes.map (Lexeme.token o) := by
  induction lexemes with
  | nil => exact fun _ => ⟨[], rfl, rfl⟩
  | cons lexeme lexemes ih =>
    intro pos
    obtain ⟨c, cs, htext, hspace, -, -, hscan⟩ := lexeme.reads (o := o)
    obtain ⟨tokens, hrest, htokens⟩ := ih (pos + 1 + cs.length)
    refine ⟨(pos, lexeme.token o) :: tokens, ?_, congrArg (_ :: ·) htokens⟩
    -- No piece begins with white space, so an extended pattern passes over nothing here.
    rw [List.flatMap_cons, htext, List.cons_append, Token.readFrom]
    simp only [hspace, Bool.and_false, Bool.false_eq_true, if_false,
      hscan pos _ (calm_lexemes lexemes), Nat.add_sub_cancel, readFrom_skip, hrest]

end

end SpanRegex.Pattern
