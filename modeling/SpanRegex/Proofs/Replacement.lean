import SpanRegex.Proofs.Building
import SpanRegex.Proofs.Caseless
import SpanRegex.Proofs.Existence
import SpanRegex.Proofs.Lockstep
import SpanRegex.Proofs.Prefilter
import SpanRegex.Proofs.TokenRows

/-! # Literals and classes of one unit

A literal in a pattern text is replaced by the class of its unit. The text still compiles, to the same tree
with one leaf exchanged, and searches find and capture the same in texts where, if case is ignored, only the
images of the unit equal it up to case.

* `exchange`, `compile_exchange`: one token exchanged is one leaf exchanged.
* `StandsFor`: characters of a pattern text that are one literal; `exists_standsFor`, `StandsFor.read_class`.
* `Matcher.exec_mirrored`: searches on trees that mirror each other.
* `exec_class_of_literal`: the literal and the class.
* `exec_kelvin`: a unit that the literal reads and the class does not.
-/

namespace SpanRegex
set_option autoImplicit false

namespace Pattern

/-! ## One token exchanged -/

/-- Exchanges the leaf with this number, if it is the old one. -/
def exchange (n : Nat) (old new : Leaf) (id : Nat) (op : Leaf) : Leaf :=
  if id = n ∧ op = old then new else op

theorem exchange_cases (n : Nat) (old new : Leaf) (id : Nat) (op : Leaf) :
    exchange n old new id op = op ∨ op = old ∧ exchange n old new id op = new := by
  unfold exchange
  split
  · rename_i h
    exact .inr ⟨h.2, rfl⟩
  · exact .inl rfl

theorem fixes_exchange (n : Nat) (old new : Leaf) : Fixes (exchange n old new) (n + 1) := by
  intro id op hid
  exact if_neg fun h => by omega

namespace Builder

variable {b b' : Builder}

theorem Sound.addLeaf_exchange (h : b.Sound) (old new : Leaf) :
    (b.addLeaf old).relabel (exchange b.next old new) = b.addLeaf new := by
  have hsame : b.relabel (exchange b.next old new) = b :=
    h.relabel_eq fun id op hid => if_neg fun h => by omega
  rw [relabel_addLeaf, hsame, exchange, if_pos ⟨rfl, rfl⟩]

theorem addAll_cut {before after : List (Nat × Token)} : ∀ {b : Builder}, b.addAll (before ++ after) = .ok b' →
    ∃ b₁, b.addAll before = .ok b₁ ∧ b₁.addAll after = .ok b' := by
  induction before with
  | nil => exact fun h => ⟨_, rfl, h⟩
  | cons entry before ih =>
    intro b h
    obtain ⟨b₁, htakes, hrest⟩ := addAll_cons.1 h
    obtain ⟨b₂, hbefore, hafter⟩ := ih hrest
    exact ⟨b₂, addAll_cons.2 ⟨b₁, htakes, hbefore⟩, hafter⟩

end Builder

/-- The compiled pattern comes from the tokens of a text without fault. -/
theorem tokens_of_compile {o : Options} {cs : List Char} {p : Pattern} (h : compile o cs = .ok p) :
    ∃ tokens b, Token.read o cs = (tokens, none) ∧ Builder.addAll {} tokens = .ok b ∧ b.finish o cs.length = .ok p := by
  rw [compile_eq] at h
  unfold build at h
  split at h
  rename_i tokens fault hread
  split at h
  · cases h
  · cases h
  · exact ⟨tokens, _, hread, ‹_›, h⟩

/-- Where one token is exchanged for another and both add one leaf, that leaf is exchanged in the tree. -/
theorem compile_exchange {o : Options} {cs cs' : List Char} {p : Pattern} {old new : Leaf}
    {before after after' : List (Nat × Token)} {pos pos' : Nat} {token token' : Token}
    (hread : Token.read o cs = (before ++ (pos, token) :: after, none))
    (hread' : Token.read o cs' = (before ++ (pos', token') :: after', none))
    (hafter : after.map Prod.snd = after'.map Prod.snd)
    (hold : ∀ b : Builder, b.add pos token = .ok (b.addLeaf old))
    (hnew : ∀ b : Builder, b.add pos' token' = .ok (b.addLeaf new)) (hp : compile o cs = .ok p) :
    ∃ n, compile o cs' = .ok { p with body := p.body.relabel (exchange n old new) } := by
  obtain ⟨tokens, b, htokens, hadd, hfinish⟩ := tokens_of_compile hp
  obtain rfl : tokens = before ++ (pos, token) :: after :=
    (Prod.mk.inj (htokens.symm.trans hread)).1
  obtain ⟨b₁, hbefore, hrest⟩ := Builder.addAll_cut hadd
  simp only [Builder.addAll, hold] at hrest
  have hfixes : Fixes (exchange b₁.next old new) (b₁.addLeaf old).next := fixes_exchange b₁.next old new
  have hexchanged := Builder.addAll_relabel after hfixes hrest
  rw [(Builder.Sound.empty.addAll hbefore).addLeaf_exchange] at hexchanged
  have hadd' : Builder.addAll {} (before ++ (pos', token') :: after') =
      .ok (b.relabel (exchange b₁.next old new)) := by
    rw [Builder.addAll_append _ hbefore]
    simp only [Builder.addAll, hnew]
    exact Builder.addAll_pos after hafter hexchanged
  have hfinish' := Builder.finish_relabel (hfixes.mono (Builder.next_le_of_addAll after hrest)) hfinish cs'.length
  refine ⟨b₁.next, ?_⟩
  simp only [compile_eq, build, hread', hadd', hfinish']

/-! ## Literals in a text -/

/-- The unit that the token stands for, if it is a literal of one unit. -/
def Token.literal? : Token → Option CodeUnit
  | .literal c =>
    match CodeUnit.ofChar c with
    | [u] => some u
    | _ => none
  | .leaf (.unit (.literal u)) => some u
  | _ => none

theorem Token.add_literal {token : Token} {u : CodeUnit} (h : token.literal? = some u) (b : Builder) (pos : Nat) :
    b.add pos token = .ok (b.addLeaf (.unit (.literal u))) := by
  unfold literal? at h
  split at h
  · split at h
    · rename_i v hunits
      obtain rfl := Option.some.inj h
      simp only [Builder.add, Builder.addLiteral, hunits]
    · cases h
  · obtain rfl := Option.some.inj h
    rfl
  · cases h

/-- Between `pre` and `post` the characters `lit` are a literal that stands for the unit: a token starts there,
and it is read from these characters. -/
structure StandsFor (o : Options) (pre lit post : List Char) (u : CodeUnit) : Prop where
  starts : pre.length ∈ (Token.read o (pre ++ (lit ++ post))).1.map Prod.fst
  reads : ∃ c cs token, lit = c :: cs ∧ token.literal? = some u ∧
    Token.scan o pre.length c (cs ++ post) = .ok (token, lit.length)

/-- Every literal of a text that stands for one unit has such characters. -/
theorem exists_standsFor {o : Options} {cs : List Char} {pos : Nat} {token : Token} {u : CodeUnit}
    (htoken : (pos, token) ∈ (Token.read o cs).1) (hliteral : token.literal? = some u) :
    ∃ pre lit post, cs = pre ++ (lit ++ post) ∧ pre.length = pos ∧ StandsFor o pre lit post u := by
  obtain ⟨pre, c, lit, post, -, -, rfl, -, hpos, hscan, -⟩ := (Token.row_iff.1 (Prod.eta _).symm).split _ htoken
  obtain rfl : pos = pre.length := hpos.trans (Nat.zero_add _)
  exact ⟨pre, c :: lit, post, rfl, rfl, List.mem_map_of_mem htoken, c, lit, token, rfl, hliteral, hscan⟩

/-- The unit in brackets, as an escape. -/
def classText (u : CodeUnit) : List Char := '[' :: (unitText u ++ [']'])

/-- The leaf of the class of one unit. -/
def classLeaf (o : Options) (u : CodeUnit) : Leaf := .unit (.set (oneMember o.ignoreCase u) false)

theorem row_class {o : Options} (u : CodeUnit) {pos : Nat} {rest : List Char} {tokens : List (Nat × Token)}
    {fault : Option Error} (h : Token.Row o (pos + (classText u).length) rest tokens fault) :
    Token.Row o pos (classText u ++ rest) ((pos, .leaf (classLeaf o u)) :: tokens) fault := by
  have hscan : Token.scan o pos '[' (unitText u ++ [']'] ++ rest) =
      .ok (.leaf (classLeaf o u), (classText u).length) := by
    have hset := scan_set (o := o) false (.unit u .none) pos rest
    simpa [ClassMembers.text, negationText, Sign.text, classText, classLeaf, oneMember] using hset
  have hspace : CodeUnit.isSpaceChar '[' = false := by decide
  refine .token (by rw [hspace, Bool.and_false]) hscan ?_
  rwa [Nat.add_assoc, Nat.add_comm 1]

/-- The class in place of the literal is read as one token, and what stands around it as before. -/
theorem StandsFor.read_class {o : Options} {pre lit post : List Char} {u : CodeUnit}
    {tokens : List (Nat × Token)} (h : StandsFor o pre lit post u)
    (hread : Token.read o (pre ++ (lit ++ post)) = (tokens, none)) :
    ∃ before after after' token, tokens = before ++ (pre.length, token) :: after ∧ token.literal? = some u ∧
      Token.read o (pre ++ (classText u ++ post)) =
        (before ++ (pre.length, .leaf (classLeaf o u)) :: after', none) ∧
      after.map Prod.snd = after'.map Prod.snd := by
  have hstarts := h.starts
  rw [hread] at hstarts
  obtain ⟨c, cs, token, rfl, hliteral, hscan⟩ := h.reads
  obtain ⟨⟨pos, token'⟩, hentry, rfl⟩ := List.mem_map.1 hstarts
  obtain ⟨pre', c', cs', post', before, after, htext, rfl, hpos, hscan', hafter, hsplit⟩ :=
    (Token.row_iff.1 hread).split _ hentry
  rw [Nat.zero_add] at hpos
  -- The token that starts there has the characters of the literal.
  obtain ⟨rfl, hcons⟩ := List.append_inj htext hpos
  obtain ⟨rfl, htail : cs ++ post = _⟩ := List.cons.inj hcons
  rw [← htail] at hscan'
  obtain ⟨rfl, hwidth⟩ := Prod.mk.inj (Except.ok.inj (hscan'.symm.trans hscan))
  obtain ⟨rfl, rfl⟩ := List.append_inj htail (Nat.succ.inj hwidth).symm
  obtain ⟨after', hafter', htokens⟩ := hafter.shift (pre.length + (classText u).length)
  have hcalm : Calm (classText u ++ post) := by
    intro d hd
    obtain rfl := Option.some.inj hd
    decide
  exact ⟨before, after, after', token', rfl, hliteral,
    (hsplit (hcalm.follows _) (row_class u hafter')).readFrom, htokens.symm⟩

end Pattern

open Pattern (Chain Leaf Prefilter StandsFor classLeaf classText compile exchange)

/-! ## Searches -/

/-- Without a visit limit, a search on a tree that mirrors another answers and captures the same. -/
theorem Matcher.exec_mirrored {f : Nat → Leaf → Leaf} {m : Matcher} {p : Pattern} {q : Query} {fuel : Nat}
    (hlimit : m.limit = none) (hfuel : 3 ≤ fuel)
    (h : Setting.Mirrors f (m.setting q) ({ m with pattern := p }.setting q)) :
    { m with pattern := p }.exec fuel q = (m.exec fuel q).map fun r => (r.1, { r.2 with pattern := p }) := by
  have houtcome := h.outcome fuel q.offsets q.start {}
  have hunfiltered := Setting.outcome_unfiltered (s := m.setting q) hlimit hfuel q.offsets q.start {}
  have hunfiltered' := Setting.outcome_unfiltered (s := { m with pattern := p }.setting q) hlimit hfuel
    q.offsets q.start {}
  rw [← m.execUnder_self, ← Matcher.execUnder_self]
  unfold execUnder
  split
  · rfl
  · rw [show ({ m with pattern := p } : Matcher).pattern.prefilter =
      ({ m with pattern := p }.setting q).pattern.prefilter from rfl, hunfiltered', Option.map_map]
    rw [show m.pattern.prefilter = (m.setting q).pattern.prefilter from rfl, hunfiltered, ← houtcome]
    rfl

theorem Setting.read_unit_congr {s : Setting} {pos : Nat} {test test' : Pattern.UnitTest} (captures : Captures)
    (h : ∀ v, s.input.at? pos = some v → test'.passes s.pattern.options v = test.passes s.pattern.options v) :
    s.read? captures pos (.unit test') = s.read? captures pos (.unit test) := by
  simp only [read?]
  cases hat : s.input.at? pos with
  | none => rfl
  | some v => simp only [h v hat]

/-- The leaf of the class reads in the text what the literal reads there. -/
theorem mirrors_exchange {m : Matcher} {q : Query} {u : CodeUnit} (n : Nat)
    (himages : m.pattern.options.ignoreCase = true → ∀ i v, i < q.bound → q.text[i]? = some v →
      v.eqIgnoreCase u = true → v.IsImage u) :
    let f := exchange n (.unit (.literal u)) (classLeaf m.pattern.options u)
    Setting.Mirrors f (m.setting q)
      ({ m with pattern := { m.pattern with body := m.pattern.body.relabel f } }.setting q) where
  limit := rfl
  tree := rfl
  reads captures pos id op := by
    rcases Pattern.exchange_cases n (.unit (.literal u)) (classLeaf m.pattern.options u) id op with hop | ⟨rfl, hop⟩
    · rw [hop]
      cases op <;> rfl
    · rw [hop]
      show (m.setting q).read? captures pos (classLeaf m.pattern.options u) = _
      refine Setting.read_unit_congr captures fun v hv => Pattern.passes_oneMember fun hcase => ?_
      unfold Input.at? at hv
      split at hv
      · exact himages hcase pos v ‹_› hv
      · cases hv
  pins id op edge := by
    rcases Pattern.exchange_cases n (.unit (.literal u)) (classLeaf m.pattern.options u) id op with hop | ⟨rfl, hop⟩
    · rw [hop]
    · rw [hop]
      simp [classLeaf]

/-- Where a literal is replaced by the class of its unit, the text compiles, and a search without a visit limit
finds and captures the same, if case is not ignored or if only images of the unit equal it up to case in the
text that is searched. -/
theorem exec_class_of_literal {o : Pattern.Options} {pre lit post : List Char} {u : CodeUnit} {p : Pattern}
    (hstands : StandsFor o pre lit post u) (hp : compile o (pre ++ (lit ++ post)) = .ok p) :
    ∃ p', compile o (pre ++ (classText u ++ post)) = .ok p' ∧ p'.names = p.names ∧
      ∀ (captures : Captures) (attached : Option Attachment) (q : Query) (fuel : Nat), 3 ≤ fuel →
        (o.ignoreCase = true → ∀ i v, i < q.bound → q.text[i]? = some v →
          v.eqIgnoreCase u = true → v.IsImage u) →
        ({ pattern := p', captures, attached } : Matcher).exec fuel q =
          (({ pattern := p, captures, attached } : Matcher).exec fuel q).map
            fun r => (r.1, { r.2 with pattern := p' }) := by
  obtain ⟨tokens, -, hread, -, -⟩ := Pattern.tokens_of_compile hp
  obtain ⟨before, after, after', token, rfl, hliteral, hread', hafter⟩ := hstands.read_class hread
  obtain ⟨n, hp'⟩ := Pattern.compile_exchange hread hread' hafter
    (fun b => Pattern.Token.add_literal hliteral b pre.length) (fun _ => rfl) hp
  refine ⟨_, hp', rfl, fun captures attached q fuel hfuel himages => ?_⟩
  obtain rfl := Pattern.options_of_compile hp
  exact Matcher.exec_mirrored (m := { pattern := p, captures, attached }) rfl hfuel (mirrors_exchange n himages)

/-- The pattern `(?:ak)+` where case is ignored. -/
def caselessRun : Pattern where
  options := { ignoreCase := true }
  names := .empty
  body :=
    .box 3 (.loop ⟨1, none, false⟩)
      (.box 2 (.group none) (.leaf 0 (.unit (.literal 97)) (.leaf 1 (.unit (.literal 107)) .nil)) .nil) .nil
  rootId := 4

/-- In `(?:ak)+` the `k` may be written as a class, and `xAkaK` is searched with the same result. -/
theorem exec_caselessRun :
    compile { ignoreCase := true } ("(?:a".toList ++ ("k".toList ++ ")+".toList)) = .ok caselessRun ∧
    StandsFor { ignoreCase := true } "(?:a".toList "k".toList ")+".toList 107 ∧
    (∀ v ∈ [120, 65, 107, 97, 75], CodeUnit.eqIgnoreCase v 107 = true → CodeUnit.IsImage v 107) ∧
    ∃ p', compile { ignoreCase := true } "(?:a[\\x\x7b006b\x7d])+".toList = .ok p' ∧
      ∀ fuel, 3 ≤ fuel → ({ pattern := p' } : Matcher).exec fuel { text := #[120, 65, 107, 97, 75] } =
        (({ pattern := caselessRun } : Matcher).exec fuel { text := #[120, 65, 107, 97, 75] }).map
          fun r => (r.1, { r.2 with pattern := p' }) := by
  have hcompile : compile { ignoreCase := true } ("(?:a".toList ++ ("k".toList ++ ")+".toList)) = .ok caselessRun := by
    decide +kernel
  have hstands : StandsFor { ignoreCase := true } "(?:a".toList "k".toList ")+".toList 107 :=
    ⟨by decide +kernel, 'k', [], .literal 'k', rfl, by decide, rfl⟩
  have himages : ∀ v ∈ [120, 65, 107, 97, 75], CodeUnit.eqIgnoreCase v 107 = true → CodeUnit.IsImage v 107 := by
    simp only [List.forall_mem_cons, List.not_mem_nil, false_imp_iff, implies_true, and_true]
    decide +kernel
  have htext : "(?:a".toList ++ (classText 107 ++ ")+".toList) = "(?:a[\\x\x7b006b\x7d])+".toList := by
    decide +kernel
  obtain ⟨p', hp', -, hsame⟩ := exec_class_of_literal hstands hcompile
  rw [htext] at hp'
  exact ⟨hcompile, hstands, himages, p', hp', fun fuel hfuel =>
    hsame {} none _ fuel hfuel fun _ i v _ hv => himages v (Array.mem_def.1 (Array.mem_of_getElem? hv))⟩

/-- The pattern `k` where case is ignored. -/
def caselessLiteral : Pattern where
  options := { ignoreCase := true }
  names := .empty
  body := .leaf 0 (.unit (.literal 107)) .nil
  rootId := 1

/-- The pattern of the class of `k` where case is ignored. -/
def caselessClass : Pattern where
  options := { ignoreCase := true }
  names := .empty
  body := .leaf 0 (classLeaf { ignoreCase := true } 107) .nil
  rootId := 1

/-- The Kelvin sign has the lower-case image `k` and is no image of it: the literal finds it, and the class
does not. -/
theorem exec_kelvin :
    compile { ignoreCase := true } "k".toList = .ok caselessLiteral ∧
    compile { ignoreCase := true } (classText 107) = .ok caselessClass ∧
    (({ pattern := caselessLiteral } : Matcher).exec 100 { text := #[0x212A], mode := .anchored }).map
      (fun r => r.1.map Match.span) = some (some ⟨0, 1⟩) ∧
    (({ pattern := caselessClass } : Matcher).exec 100 { text := #[0x212A], mode := .anchored }).map
      (fun r => r.1.map Match.span) = some none :=
  ⟨by decide +kernel, by decide +kernel, by decide +kernel, by decide +kernel⟩

end SpanRegex
