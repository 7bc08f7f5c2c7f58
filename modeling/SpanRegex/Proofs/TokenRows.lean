import SpanRegex.Proofs.TokenWidths

/-! # Tokens in a row

* `Row`: how a text is read, one token after another; `row_iff`: the reader answers it.
* `Row.split`: a token of a row, with the text before it and that after it, which are read apart.
* `Row.append`: a whole text is read apart from calm text after it.
* `Row.shift`: the same tokens are read at another position.
-/

namespace SpanRegex.Pattern
set_option autoImplicit false

namespace Token

variable {o : Options} {pos : Nat} {cs r : List Char} {tokens tokens' : List (Nat × Token)} {fault : Option Error}

/-- The text, which begins at the position, is read as the tokens, up to the first fault: an extended pattern
passes over white space, and the characters of one token stand before those of the next. -/
inductive Row (o : Options) : Nat → List Char → List (Nat × Token) → Option Error → Prop
  | done (pos : Nat) : Row o pos [] [] none
  | space {pos : Nat} {c : Char} {cs : List Char} {tokens : List (Nat × Token)} {fault : Option Error}
      (blank : (o.extended && CodeUnit.isSpaceChar c) = true) (rest : Row o (pos + 1) cs tokens fault) :
      Row o pos (c :: cs) tokens fault
  | token {pos : Nat} {c : Char} {lit cs : List Char} {token : Token} {tokens : List (Nat × Token)}
      {fault : Option Error} (solid : (o.extended && CodeUnit.isSpaceChar c) = false)
      (scanned : scan o pos c (lit ++ cs) = .ok (token, lit.length + 1))
      (rest : Row o (pos + 1 + lit.length) cs tokens fault) :
      Row o pos (c :: (lit ++ cs)) ((pos, token) :: tokens) fault
  | stuck {pos : Nat} {c : Char} {cs : List Char} {e : Error}
      (solid : (o.extended && CodeUnit.isSpaceChar c) = false) (scanned : scan o pos c cs = .error e) :
      Row o pos (c :: cs) [] (some e)

theorem Row.readFrom (h : Row o pos cs tokens fault) : readFrom o 0 pos cs = (tokens, fault) := by
  induction h with
  | done => rfl
  | space blank _ ih => rw [Token.readFrom, if_pos blank, ih]
  | token solid scanned _ ih =>
    rw [Token.readFrom, if_neg (by rw [solid]; exact Bool.false_ne_true)]
    simp only [scanned, Nat.add_sub_cancel, readFrom_skip, ih]
  | stuck solid scanned =>
    rw [Token.readFrom, if_neg (by rw [solid]; exact Bool.false_ne_true)]
    simp only [scanned]

/-- Every text is a row: a token has a character at least, so that less of the text is left after it. -/
theorem exists_row (o : Options) (pos : Nat) : ∀ cs : List Char, ∃ tokens fault, Row o pos cs tokens fault
  | [] => ⟨[], none, .done pos⟩
  | c :: cs => by
    cases hspace : o.extended && CodeUnit.isSpaceChar c with
    | true =>
      obtain ⟨tokens, fault, hrest⟩ := exists_row o (pos + 1) cs
      exact ⟨tokens, fault, .space hspace hrest⟩
    | false =>
      cases hscan : scan o pos c cs with
      | error e => exact ⟨[], some e, .stuck hspace hscan⟩
      | ok answer =>
        obtain ⟨token, width⟩ := answer
        obtain ⟨lit, rest, hcut, hwidth⟩ := exists_of_scan hscan
        have hless : rest.length < (c :: cs).length := by
          rw [hcut, List.length_cons, List.length_append]
          omega
        obtain ⟨tokens, fault, hrest⟩ := exists_row o (pos + 1 + lit.length) rest
        subst hcut hwidth
        exact ⟨_, fault, .token hspace hscan hrest⟩
  termination_by cs => cs.length

theorem row_iff : readFrom o 0 pos cs = (tokens, fault) ↔ Row o pos cs tokens fault := by
  refine ⟨fun h => ?_, Row.readFrom⟩
  obtain ⟨tokens', fault', hrow⟩ := exists_row o pos cs
  obtain ⟨rfl, rfl⟩ := Prod.mk.inj (hrow.readFrom.symm.trans h)
  exact hrow

theorem Row.le (h : Row o pos cs tokens fault) : ∀ entry ∈ tokens, pos ≤ entry.1 := by
  induction h with
  | done => exact fun _ hentry => nomatch hentry
  | space _ _ ih => exact fun entry hentry => Nat.le_of_succ_le (ih entry hentry)
  | token _ _ _ ih =>
    intro entry hentry
    rcases List.mem_cons.1 hentry with rfl | hrest
    · exact Nat.le_refl _
    · have hle := ih entry hrest
      omega
  | stuck => exact fun _ hentry => nomatch hentry

/-- A token of a row: the text before it is read apart from its characters and the text after them. -/
theorem Row.split (h : Row o pos cs tokens fault) : ∀ entry ∈ tokens, ∃ pre c lit post before after,
    cs = pre ++ c :: (lit ++ post) ∧ tokens = before ++ entry :: after ∧ entry.1 = pos + pre.length ∧
      scan o entry.1 c (lit ++ post) = .ok (entry.2, lit.length + 1) ∧
      Row o (entry.1 + 1 + lit.length) post after fault ∧
      ∀ {r tokens' fault'}, Follows (c :: (lit ++ post)) r → Row o entry.1 r tokens' fault' →
        Row o pos (pre ++ r) (before ++ tokens') fault' := by
  induction h with
  | done => exact fun _ hentry => nomatch hentry
  | stuck => exact fun _ hentry => nomatch hentry
  | @space pos c _ _ _ blank _ ih =>
    intro entry hentry
    obtain ⟨pre, d, lit, post, before, after, rfl, rfl, hpos, hscan, hpost, hpre⟩ := ih entry hentry
    refine ⟨c :: pre, d, lit, post, before, after, rfl, rfl, ?_, hscan, hpost,
      fun hfollows hr => .space blank (hpre hfollows hr)⟩
    rw [hpos, List.length_cons]
    omega
  | @token pos c lit _ token _ _ solid scanned rest ih =>
    intro entry hentry
    rcases List.mem_cons.1 hentry with rfl | hentry
    · exact ⟨[], c, lit, _, [], _, rfl, rfl, rfl, scanned, rest, fun _ hr => hr⟩
    · obtain ⟨pre, d, lit', post, before, after, rfl, rfl, hpos, hscan, hpost, hpre⟩ := ih entry hentry
      refine ⟨c :: (lit ++ pre), d, lit', post, (pos, token) :: before, after, by simp, rfl, ?_, hscan, hpost,
        fun {r} _ _ hfollows hr => ?_⟩
      · rw [hpos, List.length_cons, List.length_append]
        omega
      · have hscan' := scan_append scanned (hfollows.append pre) pos
        have hrow := Row.token solid hscan' (hpre hfollows hr)
        rwa [List.cons_append, List.append_assoc]

/-- A text without fault is read apart from calm text after it. -/
theorem Row.append (h : Row o pos cs tokens none) (hr : Calm r) (hrow : Row o (pos + cs.length) r tokens' fault) :
    Row o pos (cs ++ r) (tokens ++ tokens') fault := by
  generalize hfault : (none : Option Error) = fault at h
  induction h with
  | done => exact hrow
  | @space pos c cs _ _ blank _ ih =>
    refine .space blank (ih ?_ hfault)
    rwa [Nat.add_assoc, Nat.add_comm 1]
  | @token pos c lit cs _ _ _ solid scanned _ ih =>
    rw [List.length_cons, List.length_append, ← Nat.add_assoc, Nat.add_right_comm, ← Nat.add_assoc] at hrow
    have hfollows : Follows cs (cs ++ r) := by
      have h := (hr.follows []).append cs
      rwa [List.append_nil] at h
    have hlonger := Row.token solid (scan_append scanned hfollows pos) (ih hrow hfault)
    rwa [List.cons_append, List.append_assoc]
  | stuck => cases hfault

theorem Row.shift (h : Row o pos cs tokens none) (pos' : Nat) :
    ∃ tokens', Row o pos' cs tokens' none ∧ tokens'.map Prod.snd = tokens.map Prod.snd := by
  generalize hfault : (none : Option Error) = fault at h
  induction h generalizing pos' with
  | done => exact ⟨[], .done pos', rfl⟩
  | space blank _ ih =>
    obtain ⟨tokens', hrow, htokens⟩ := ih (pos' + 1) hfault
    exact ⟨tokens', .space blank hrow, htokens⟩
  | @token _ _ _ _ token _ _ solid scanned _ ih =>
    obtain ⟨tokens', hrow, htokens⟩ := ih _ hfault
    exact ⟨(pos', token) :: tokens', .token solid (scan_pos scanned pos') hrow, congrArg (token :: ·) htokens⟩
  | stuck => cases hfault

end Token

end SpanRegex.Pattern
