import SpanRegex.Proofs.Replacement

/-! # White space between items

* `padded`: a text with runs of characters put between its characters and at its end.
* `Pads`: runs of white space, each before an item of a pattern or at its end.
* `Row.padded`: in an extended pattern the same tokens are read from the padded text.
* `compile_padded`: a pattern padded with white space compiles to the same nodes in extended mode.
-/

namespace SpanRegex.Pattern
set_option autoImplicit false

/-! ## Padding -/

/-- The text with the run `pad n` before the character at each position `n`, and one at its end;
the text starts at `pos`. -/
def padded (pad : Nat → List Char) (pos : Nat) : List Char → List Char
  | [] => pad pos
  | c :: cs => pad pos ++ c :: padded pad (pos + 1) cs

/-- The runs are white space, and a run in the pattern stands before one of its items. -/
structure Pads (o : Options) (cs : List Char) (pad : Nat → List Char) : Prop where
  space : ∀ n, ∀ c ∈ pad n, CodeUnit.isSpaceChar c = true
  before : ∀ n, n < cs.length → pad n ≠ [] → n ∈ (Token.read o cs).1.map Prod.fst

/-- The token is no white space that stands for itself. -/
def Token.inked : Token → Bool
  | .literal c => !CodeUnit.isSpaceChar c
  | _ => true

section

variable {pad : Nat → List Char}

theorem padded_append {a b : List Char} : ∀ pos : Nat,
    (∀ n, pos ≤ n → n < pos + a.length → pad n = []) →
      padded pad pos (a ++ b) = a ++ padded pad (pos + a.length) b := by
  induction a with
  | nil => exact fun _ _ => rfl
  | cons c a ih =>
    intro pos hnone
    rw [List.length_cons] at hnone ⊢
    have hrest := ih (pos + 1) fun n hn hlt => hnone n (by omega) (by omega)
    rw [List.cons_append, padded, hnone pos (Nat.le_refl _) (by omega), hrest,
      Nat.add_assoc, Nat.add_comm 1]
    rfl

theorem calm_of_space {text : List Char} (h : ∀ c ∈ text.head?, CodeUnit.isSpaceChar c = true) : Calm text := by
  intro c hc
  have hspace := h c hc
  constructor
  · rintro rfl
    exact absurd hspace (by decide)
  · cases hdigit : c.isDigit with
    | false => rfl
    | true =>
      have hle : c.toNat ≤ 57 ∧ 48 ≤ c.toNat := by
        simp only [Char.isDigit, Bool.and_eq_true, decide_eq_true_eq, UInt32.le_iff_toNat_le] at hdigit
        exact ⟨hdigit.2, hdigit.1⟩
      -- The digits lie between two runs of white space.
      have hnone : CodeUnit.isSpaceChar c = false := by
        rw [CodeUnit.isSpaceChar, CodeUnit.spaceRuns, Run.decides, if_neg (by simp only; omega), Run.decides,
          if_neg (by simp only; omega), Run.decides, if_pos (by simp only; omega)]
        simp [Run.holds]
        omega
      rw [hnone] at hspace
      cases hspace

/-- What a padded text starts with is white space, or what the text starts with. -/
theorem follows_padded (hspace : ∀ n, ∀ c ∈ pad n, CodeUnit.isSpaceChar c = true) (cs : List Char) (pos : Nat) :
    Follows cs (padded pad pos cs) := by
  cases hpad : pad pos with
  | nil =>
    intro c hc _
    cases cs with
    | nil => rwa [padded, hpad] at hc
    | cons d cs => rwa [padded, hpad] at hc
  | cons d run =>
    have hhead : (padded pad pos cs).head? = some d := by
      cases cs with
      | nil => rw [padded, hpad]; rfl
      | cons c cs => rw [padded, hpad]; rfl
    refine Calm.follows (calm_of_space fun c hc => ?_) cs
    rw [hhead] at hc
    obtain rfl := Option.some.inj hc
    exact hspace pos d (hpad ▸ List.mem_cons_self)

namespace Token

variable {o : Options}

theorem scan_space {pos width : Nat} {c : Char} {cs : List Char} {token : Token}
    (h : scan o pos c cs = .ok (token, width)) (hspace : CodeUnit.isSpaceChar c = true) : token = .literal c := by
  unfold scan at h
  split at h
  all_goals first
    | exact absurd hspace (by decide)
    | exact (Prod.mk.inj (Except.ok.inj h)).1.symm

theorem notSpace_of_scan {pos width : Nat} {c : Char} {cs : List Char} {token : Token}
    (h : scan o pos c cs = .ok (token, width)) (hinked : token.inked = true) : CodeUnit.isSpaceChar c = false := by
  cases hc : CodeUnit.isSpaceChar c with
  | false => rfl
  | true =>
    rw [scan_space h hc, inked, hc] at hinked
    cases hinked

theorem Row.spaces (hextended : o.extended = true) {cs : List Char} {tokens : List (Nat × Token)}
    {fault : Option Error} (run : List Char) : ∀ pos : Nat, (∀ c ∈ run, CodeUnit.isSpaceChar c = true) →
      Row o (pos + run.length) cs tokens fault → Row o pos (run ++ cs) tokens fault := by
  induction run with
  | nil => exact fun _ _ h => h
  | cons c run ih =>
    intro pos hrun h
    have hspace := hrun c List.mem_cons_self
    rw [List.length_cons, Nat.add_comm run.length, ← Nat.add_assoc] at h
    exact .space (by rw [hextended, hspace]; rfl) (ih (pos + 1) (fun d hd => hrun d (List.mem_cons_of_mem c hd)) h)

/-- In an extended pattern the same tokens are read from a padded text. -/
theorem Row.padded (hspace : ∀ n, ∀ c ∈ pad n, CodeUnit.isSpaceChar c = true) {pos : Nat} {cs : List Char}
    {tokens : List (Nat × Token)} (h : Row { o with extended := false } pos cs tokens none) :
    ∀ pos' : Nat, (∀ entry ∈ tokens, entry.2.inked = true) →
      (∀ n, pos ≤ n → n < pos + cs.length → pad n ≠ [] → n ∈ tokens.map Prod.fst) →
      ∃ tokens', Row { o with extended := true } pos' (padded pad pos cs) tokens' none ∧
        tokens.map Prod.snd = tokens'.map Prod.snd := by
  generalize hfault : (none : Option Error) = fault at h
  induction h with
  | done pos =>
    intro pos' _ _
    have hend := Row.spaces (o := { o with extended := true }) rfl (pad pos) pos' (hspace pos) (.done _)
    rw [List.append_nil] at hend
    exact ⟨[], hend, rfl⟩
  | space blank =>
    rw [Bool.false_and] at blank
    cases blank
  | @token pos c lit cs token tokens _ _ scanned hrest ih =>
    intro pos' hinked hplaces
    rw [List.length_cons, List.length_append] at hplaces
    have hlater : ∀ n, pos + 1 ≤ n → n < pos + 1 + lit.length + cs.length → pad n ≠ [] → n ∈ tokens.map Prod.fst :=
      fun n hn hlt hne => (List.mem_cons.1 (hplaces n (by omega) (by omega) hne)).resolve_left (by omega)
    -- Nothing is put between the characters of the token.
    have hnone : ∀ n, pos + 1 ≤ n → n < pos + 1 + lit.length → pad n = [] := by
      intro n hn hlt
      by_contra hne
      obtain ⟨entry, hentry, rfl⟩ := List.mem_map.1 (hlater n hn (by omega) hne)
      have hle := hrest.le entry hentry
      omega
    have hchar := notSpace_of_scan scanned (hinked _ List.mem_cons_self)
    obtain ⟨tokens', hrow, htokens⟩ := ih hfault (pos' + (pad pos).length + 1 + lit.length)
      (fun entry hentry => hinked entry (List.mem_cons_of_mem _ hentry)) fun n hn hlt => hlater n (by omega) hlt
    have hscan := scan_append scanned (follows_padded hspace cs (pos + 1 + lit.length)) (pos' + (pad pos).length)
    refine ⟨(pos' + (pad pos).length, token) :: tokens', ?_, congrArg (token :: ·) htokens⟩
    rw [Pattern.padded, padded_append _ hnone]
    exact .spaces rfl _ _ (hspace pos) (.token (by rw [hchar, Bool.and_false]) hscan hrow)
  | stuck => cases hfault

end Token

/-- A pattern without literal white space compiles to the same nodes in extended mode, with white
space put before any of its items and at its end. -/
theorem compile_padded {o : Options} {cs : List Char} {p : Pattern}
    (h : compile { o with extended := false } cs = .ok p)
    (hinked : ∀ entry ∈ (Token.read { o with extended := false } cs).1, entry.2.inked = true)
    (hpads : Pads { o with extended := false } cs pad) :
    ∃ l p', layout { o with extended := false } cs = .ok l ∧
      layout { o with extended := true } (padded pad 0 cs) = .ok l ∧
      compile { o with extended := true } (padded pad 0 cs) = .ok p' ∧ p'.tree = p.tree ∧
      p'.names = p.names ∧ p'.prefilter = p.prefilter := by
  obtain ⟨tokens, -, hread, -, -⟩ := tokens_of_compile h
  rw [hread] at hinked
  have hplaces := hpads.before
  rw [hread] at hplaces
  obtain ⟨tokens', hrow, htokens⟩ := (Token.row_iff.1 hread).padded hpads.space 0 hinked
    fun n _ hlt => hplaces n (by omega)
  obtain ⟨l, hlayout, rfl, -⟩ := layout_of_compile h
  have hlayout' := layout_of_tokens hlayout hread hrow.readFrom htokens
  refine ⟨l, l.pattern { o with extended := true }, hlayout, hlayout', ?_, rfl, rfl, rfl⟩
  rw [compile, hlayout']
  rfl

/-- White space stands after an octal escape, a back reference, a lazy mark and the length of a look. -/
theorem compile_padded_escapes :
    let pad : Nat → List Char := fun n => if n ∈ [1, 4, 8, 9, 11, 15, 17, 20] then [' ', '\n'] else []
    padded pad 0 "(\\14a|\\1)+?(?#2b)\x7b2\x7d".toList =
        "( \n\\14 \na|\\1 \n) \n+? \n(?#2 \nb) \n\x7b2\x7d \n".toList ∧
      ∃ p, compile {} "(\\14a|\\1)+?(?#2b)\x7b2\x7d".toList = .ok p ∧
        ∃ l p', layout {} "(\\14a|\\1)+?(?#2b)\x7b2\x7d".toList = .ok l ∧
          layout { extended := true } "( \n\\14 \na|\\1 \n) \n+? \n(?#2 \nb) \n\x7b2\x7d \n".toList = .ok l ∧
          compile { extended := true } "( \n\\14 \na|\\1 \n) \n+? \n(?#2 \nb) \n\x7b2\x7d \n".toList = .ok p' ∧
          p'.tree = p.tree ∧ p'.names = p.names ∧ p'.prefilter = p.prefilter := by
  intro pad
  have hpadded : padded pad 0 "(\\14a|\\1)+?(?#2b)\x7b2\x7d".toList =
      "( \n\\14 \na|\\1 \n) \n+? \n(?#2 \nb) \n\x7b2\x7d \n".toList := by decide +kernel
  have hinked : ∀ entry ∈ (Token.read {} "(\\14a|\\1)+?(?#2b)\x7b2\x7d".toList).1, entry.2.inked = true := by
    decide +kernel
  have hpads : Pads {} "(\\14a|\\1)+?(?#2b)\x7b2\x7d".toList pad := by
    refine ⟨fun n c hc => ?_, by decide +kernel⟩
    simp only [pad] at hc
    split at hc
    · rcases List.mem_cons.1 hc with rfl | hc
      · rfl
      · obtain rfl := List.mem_singleton.1 hc
        rfl
    · cases hc
  obtain ⟨p, h⟩ : ∃ p, compile {} "(\\14a|\\1)+?(?#2b)\x7b2\x7d".toList = .ok p := by
    have hok : (compile {} "(\\14a|\\1)+?(?#2b)\x7b2\x7d".toList).isOk = true := by decide +kernel
    cases h : compile {} "(\\14a|\\1)+?(?#2b)\x7b2\x7d".toList with
    | ok p => exact ⟨p, rfl⟩
    | error e =>
      rw [h] at hok
      cases hok
  refine ⟨hpadded, p, h, ?_⟩
  rw [← hpadded]
  exact compile_padded (o := {}) h hinked hpads

end

end SpanRegex.Pattern
