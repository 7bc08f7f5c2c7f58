import SpanRegex.Proofs.Drafts
import SpanRegex.Proofs.Lexemes

/-! # Compiling written expressions

Between two tokens the builder knows the groups that the expression has opened so far, and holds the items of
what it has read since the innermost of them was opened. When a group closes, its items become the chain of
what is inside.

* `Builder.Knows`: the builder has met the groups of a scope; `GroupNames.define_enter`, `openGroup_enter`.
* `Makes`, `Parts`: the nodes that items become, of one branch and of all.
* `Builds`: tokens add items to those of the builder; one rule for each way in which expressions are formed.
* `compile_text`: an expression in writing compiles to its tree.
-/

namespace SpanRegex.Pattern
set_option autoImplicit false

/-! ## Groups -/

/-- The builder has met the groups of the scope. -/
structure Builder.Knows (b : Builder) (s : Scope) : Prop where
  groups : b.groups = min 9 s.groups
  names : b.names.defined = s.names.take 10

theorem GroupNames.lookup_eq {t : GroupNames} {s : Scope} (h : t.defined = s.names.take 10)
    (name : String) : t.lookup name = s.slot? name := by
  obtain ⟨defined, unresolved, fits⟩ := t
  subst h
  rfl

theorem GroupNames.lookup_eq_none {t : GroupNames} {name : String} :
    t.lookup name = none ↔ name ∉ t.defined := by
  simp [lookup, List.finIdxOf?_eq_none_iff]

theorem finIdxOf_concat {names : List String} {name : String} (h : name ∉ names) :
    (names ++ [name]).finIdxOf? name =
      some ⟨names.length, by rw [List.length_append]; exact Nat.lt_add_one _⟩ := by
  rw [List.finIdxOf?_eq_some_iff]
  refine ⟨by simp, fun j hj heq => h ?_⟩
  have hj : j.val < names.length := hj
  simp only [Fin.getElem_fin, List.getElem_append_left hj] at heq
  exact heq ▸ List.getElem_mem hj

theorem GroupNames.define_lookup (t : GroupNames) (name : String) :
    (t.define name).2 = (t.define name).1.lookup name := by
  unfold define
  cases hlookup : t.lookup name with
  | some slot => exact hlookup.symm
  | none =>
    simp only
    split
    · simp only [lookup, finIdxOf_concat (lookup_eq_none.1 hlookup)]
      rfl
    · exact hlookup.symm

/-- The names that have a slot are the first ten of those that have been given one. -/
theorem GroupNames.define_take {t : GroupNames} {names : List String} (h : t.defined = names.take 10)
    (name : String) :
    (t.define name).1.defined = (if name ∈ names then names else names ++ [name]).take 10 := by
  have hlength : t.defined.length = min 10 names.length := by rw [h, List.length_take]
  unfold define
  cases hlookup : t.lookup name with
  | some slot =>
    have hmem : name ∈ names := by
      apply List.mem_of_mem_take (i := 10)
      rw [← h]
      apply Decidable.of_not_not
      intro hnot
      rw [lookup_eq_none.2 hnot] at hlookup
      simp at hlookup
    simp only [if_pos hmem, h]
  | none =>
    have hnew := lookup_eq_none.1 hlookup
    simp only
    split
    · rename_i hroom
      have hall : names.take 10 = names := List.take_of_length_le (by omega)
      rw [h, hall] at hnew
      have hnext : (names ++ [name]).take 10 = names ++ [name] := by
        apply List.take_of_length_le
        rw [List.length_append, List.length_singleton]
        omega
      simp only [if_neg hnew, hnext, h, hall]
    · rename_i hfull
      split
      · exact h
      · rw [h, List.take_append_of_le_length (by omega)]

/-- The names that have a slot are the first ten of those that have been opened. -/
theorem GroupNames.define_enter {t : GroupNames} {s : Scope} (h : t.defined = s.names.take 10)
    (name : GroupName) :
    (t.define name.text).1.defined = (s.enter (.named name)).names.take 10 := by
  rw [define_take h, Scope.enter]
  split <;> rfl

variable {o : Options} {s s' : Scope}

theorem Builder.Knows.push {b : Builder} (h : b.Knows s) (op : Container) : (b.push op).Knows s :=
  ⟨h.groups, h.names⟩

theorem Builder.openGroup_enter {b : Builder} (h : b.Knows s) (opener : Opener) :
    ∃ b' : Builder, b.openGroup opener.kind = b'.push (opener.container s) ∧ b'.Knows (s.enter opener) ∧
      b'.items = b.items ∧ b'.outer = b.outer := by
  cases opener with
  | plain =>
    have hgroups := h.groups
    by_cases hnumbered : s.groups + 1 < 10
    · have hsame : b.groups = s.groups := by omega
      refine ⟨{ b with groups := b.groups + 1 }, ?_, ⟨?_, h.names⟩, rfl, rfl⟩
      · simp only [openGroup, Opener.kind, Opener.container, Scope.nextSlot?, hsame, dif_pos hnumbered]
      · simp only [Scope.enter]
        omega
    · have hfull : ¬ b.groups + 1 < 10 := by omega
      refine ⟨b, ?_, ⟨?_, h.names⟩, rfl, rfl⟩
      · simp only [openGroup, Opener.kind, Opener.container, Scope.nextSlot?, dif_neg hfull,
          dif_neg hnumbered]
      · simp only [Scope.enter]
        omega
  | silent => exact ⟨b, rfl, ⟨h.groups, h.names⟩, rfl, rfl⟩
  | named name =>
    have hdefined := GroupNames.define_enter h.names name
    have hslot := GroupNames.define_lookup b.names name.text
    have hsome : name.text.isEmpty = false := by simpa using name.nonempty
    refine ⟨{ b with names := (b.names.define name.text).1 }, ?_, ⟨?_, hdefined⟩, rfl, rfl⟩
    · rw [GroupNames.lookup_eq hdefined] at hslot
      simp only [openGroup, Opener.kind, Opener.container, hsome, Bool.false_eq_true, if_false, hslot]
    · simp only [Scope.enter]
      split <;> exact h.groups
  | look negated behind => exact ⟨b, rfl, ⟨h.groups, h.names⟩, rfl, rfl⟩

/-! ## Items -/

/-- Wherever the items stand in a branch, they become the nodes. -/
def Makes (nodes : List Node) (items : List Item) : Prop :=
  ∀ (next : Nat) (run : List Node) (rest : List Item), ∃ (next' : Nat) (made : List Node),
    Sequence.alternatives next run (items ++ rest) =
      Sequence.alternatives next' (made.reverse ++ run) rest ∧ made.map Node.bare = nodes

theorem Makes.none : Makes [] [] := fun next _ _ => ⟨next, [], rfl, rfl⟩

theorem Makes.atom {node bare : Node} (h : node.bare = bare) : Makes [bare] [.atom node] :=
  fun next _ _ => ⟨next, [node], rfl, by rw [List.map_singleton, h]⟩

theorem Makes.append {nodes nodes' : List Node} {items items' : List Item} (h : Makes nodes items)
    (h' : Makes nodes' items') : Makes (nodes ++ nodes') (items ++ items') := by
  intro next run rest
  obtain ⟨next₁, made, hfirst, hmade⟩ := h next run (items' ++ rest)
  obtain ⟨next₂, made', hsecond, hmade'⟩ := h' next₁ (made.reverse ++ run) rest
  refine ⟨next₂, made ++ made', ?_, by rw [List.map_append, hmade, hmade']⟩
  rw [List.append_assoc, hfirst, hsecond, List.reverse_append, List.append_assoc]

theorem Makes.loop {node : Node} {items : List Item} (h : Makes [node] items) (q : Quantifier) :
    Makes [.box 0 (.loop q) (.ofNodes [node])] (items ++ [.quantifier q]) := by
  intro next run rest
  obtain ⟨next₁, made, hmade, hbare⟩ := h next run (.quantifier q :: rest)
  obtain ⟨atom, rfl, rfl⟩ := List.map_eq_singleton_iff.1 hbare
  refine ⟨next₁ + 1, [Sequence.loopNode next₁ q atom], ?_, ?_⟩
  · rw [List.append_assoc, List.singleton_append, hmade]
    rfl
  · simp only [List.map_singleton, Sequence.loopNode, Node.bare, Chain.bare_ofNodes]

/-- The items become the branches. -/
def Parts (branches : List (List Node)) (items : List Item) : Prop :=
  ∀ next, (Sequence.alternatives next [] items).1.map (List.map Node.bare) = branches

theorem filled_of_ne_nil {nodes : List Node} (h : nodes ≠ []) : filled nodes = nodes := by
  cases nodes with
  | nil => exact absurd rfl h
  | cons node nodes => rfl

theorem alternatives_nil (next : Nat) (made : List Node) :
    (Sequence.alternatives next made.reverse []).1.map (List.map Node.bare) =
      [filled (made.map Node.bare)] := by
  cases hrun : made.reverse with
  | nil =>
    obtain rfl := List.reverse_eq_nil_iff.1 hrun
    rfl
  | cons node run =>
    obtain rfl := List.reverse_eq_iff.1 hrun
    rw [filled_of_ne_nil (by simp)]
    rfl

theorem alternatives_bar (next : Nat) (made : List Node) (rest : List Item) :
    ∃ next', (Sequence.alternatives next made.reverse (.bar :: rest)).1.map (List.map Node.bare) =
      filled (made.map Node.bare) :: (Sequence.alternatives next' [] rest).1.map (List.map Node.bare) := by
  cases hrun : made.reverse with
  | nil =>
    obtain rfl := List.reverse_eq_nil_iff.1 hrun
    exact ⟨next + 1, rfl⟩
  | cons node run =>
    obtain rfl := List.reverse_eq_iff.1 hrun
    refine ⟨next, ?_⟩
    rw [filled_of_ne_nil (by simp)]
    rfl

theorem Parts.last {nodes : List Node} {items : List Item} (h : Makes nodes items) :
    Parts [filled nodes] items := by
  intro next
  obtain ⟨next', made, hmade, rfl⟩ := h next [] []
  rw [List.append_nil, List.append_nil] at hmade
  rw [hmade, alternatives_nil]

theorem Parts.or {nodes : List Node} {branches : List (List Node)} {items rest : List Item}
    (h : Makes nodes items) (hrest : Parts branches rest) :
    Parts (filled nodes :: branches) (items ++ .bar :: rest) := by
  intro next
  obtain ⟨next₁, made, hmade, rfl⟩ := h next [] (.bar :: rest)
  obtain ⟨next₂, hbar⟩ := alternatives_bar next₁ made rest
  rw [List.append_nil] at hmade
  rw [hmade, hbar, hrest next₂]

def Alternatives.branches (o : Options) (s : Scope) : Alternatives → List (List Node)
  | .last branch => [filled (branch.nodes o s)]
  | .or branch rest => filled (branch.nodes o s) :: rest.branches o (branch.scope s)

theorem chain_branches (o : Options) : ∀ (e : Alternatives) (s : Scope) (next : Nat)
    (runs : List (List Node)), runs.map (List.map Node.bare) = e.branches o s →
      (Sequence.chain next runs).1.bare = e.chain o s
  | .last branch, s, next, runs, h => by
    obtain ⟨run, rfl, hrun⟩ := List.map_eq_singleton_iff.1 h
    simp only [Sequence.chain, Chain.bare_ofNodes, hrun, Alternatives.chain]
  | .or branch rest, s, next, runs, h => by
    obtain ⟨run, others, rfl, hrun, hothers⟩ := List.map_eq_cons_iff.1 h
    have hchain := chain_branches o rest (branch.scope s) (next + 1) others hothers
    cases others with
    | nil => cases rest <;> simp [Alternatives.branches] at hothers
    | cons other others =>
      simp only [Sequence.chain, Chain.bare, Chain.bare_ofNodes, hrun, hchain, Alternatives.chain]

theorem Parts.assemble {e : Alternatives} {items : List Item} (h : Parts (e.branches o s) items)
    (next : Nat) : (Sequence.assemble next items).1.bare = e.chain o s :=
  chain_branches o e s _ _ (h next)

/-! ## Tokens -/

/-- The tokens of the pieces lead from one scope to another, and add items such as described. -/
def Builds (o : Options) (lexemes : List Lexeme) (s s' : Scope) (Made : List Item → Prop) : Prop :=
  ∀ (b : Builder) (tokens : List (Nat × Token)), b.Knows s →
    tokens.map Prod.snd = lexemes.map (Lexeme.token o) →
    ∃ (b' : Builder) (items : List Item), b.addAll tokens = .ok b' ∧ b'.Knows s' ∧ b'.outer = b.outer ∧
      b'.items = items.reverse ++ b.items ∧ Made items

theorem Builder.addAll_append {tokens : List (Nat × Token)} (rest : List (Nat × Token)) :
    ∀ {b b' : Builder}, b.addAll tokens = .ok b' → b.addAll (tokens ++ rest) = b'.addAll rest := by
  induction tokens with
  | nil =>
    intro b b' h
    obtain rfl := Except.ok.inj h
    rfl
  | cons entry tokens ih =>
    intro b b' h
    obtain ⟨pos, token⟩ := entry
    simp only [List.cons_append, addAll] at h ⊢
    split at h
    · exact ih h
    · simp at h

namespace Builds

variable {lexemes lexemes' : List Lexeme} {Made Made' : List Item → Prop}

theorem imp (h : Builds o lexemes s s' Made) (himp : ∀ items, Made items → Made' items) :
    Builds o lexemes s s' Made' := by
  intro b tokens hb htokens
  obtain ⟨b', items, hadd, hb', houter, hitems, hmade⟩ := h b tokens hb htokens
  exact ⟨b', items, hadd, hb', houter, hitems, himp items hmade⟩

theorem nil (h : Made []) : Builds o [] s s Made := by
  intro b tokens hb htokens
  obtain rfl := List.map_eq_nil_iff.1 htokens
  exact ⟨b, [], rfl, hb, rfl, rfl, h⟩

theorem append {s₁ : Scope} (h : Builds o lexemes s s₁ Made) (h' : Builds o lexemes' s₁ s' Made') :
    Builds o (lexemes ++ lexemes') s s'
      fun items => ∃ first second, items = first ++ second ∧ Made first ∧ Made' second := by
  intro b tokens hb htokens
  rw [List.map_append] at htokens
  obtain ⟨tokens₁, tokens₂, rfl, htokens₁, htokens₂⟩ := List.map_eq_append_iff.1 htokens
  obtain ⟨b₁, items₁, hadd₁, hb₁, houter₁, hitems₁, hmade₁⟩ := h b tokens₁ hb htokens₁
  obtain ⟨b₂, items₂, hadd₂, hb₂, houter₂, hitems₂, hmade₂⟩ := h' b₁ tokens₂ hb₁ htokens₂
  refine ⟨b₂, items₁ ++ items₂, ?_, hb₂, houter₂.trans houter₁, ?_, items₁, items₂, rfl, hmade₁, hmade₂⟩
  · rw [Builder.addAll_append tokens₂ hadd₁, hadd₂]
  · rw [hitems₂, hitems₁, List.reverse_append, List.append_assoc]

theorem one {lexeme : Lexeme} (h : ∀ (b : Builder) (pos : Nat), b.Knows s → ∃ (b' : Builder) (item : Item),
      b.add pos (lexeme.token o) = .ok b' ∧ b'.Knows s ∧ b'.outer = b.outer ∧ b'.items = item :: b.items ∧
        Made [item]) : Builds o [lexeme] s s Made := by
  intro b tokens hb htokens
  obtain ⟨⟨pos, token⟩, rfl, rfl⟩ := List.map_eq_singleton_iff.1 htokens
  obtain ⟨b', item, hadd, hb', houter, hitems, hmade⟩ := h b pos hb
  exact ⟨b', [item], by simp only [Builder.addAll, hadd], hb', houter, hitems, hmade⟩

theorem bar : Builds o [.bar] s s (· = [.bar]) :=
  one fun _ _ hb => ⟨_, .bar, rfl, ⟨hb.groups, hb.names⟩, rfl, rfl, rfl⟩

theorem times (n : Times) : Builds o [.times n] s s (· = [.quantifier n.toQuantifier]) :=
  one fun _ _ hb => ⟨_, .quantifier n.toQuantifier, rfl, ⟨hb.groups, hb.names⟩, rfl, rfl, rfl⟩

theorem leaf {lexeme : Lexeme} {op : Leaf} (h : ∀ (b : Builder) (pos : Nat), b.Knows s →
      ∃ names : GroupNames, names.defined = b.names.defined ∧
        b.add pos (lexeme.token o) = .ok ({ b with names }.addLeaf op)) :
    Builds o [lexeme] s s (Makes [.leaf 0 op]) := by
  apply one
  intro b pos hb
  obtain ⟨names, hnames, hadd⟩ := h b pos hb
  exact ⟨_, .atom (.leaf b.next op), hadd, ⟨hb.groups, hnames.trans hb.names⟩, rfl, rfl, .atom rfl⟩

theorem sign (sign : Sign) (h : sign.expressible o s = true) :
    Builds o [.sign sign] s s (Makes [.leaf 0 (sign.op o s)]) := by
  apply leaf
  intro b pos hb
  have hplain : ∀ op, (Lexeme.sign sign).token o = .leaf op → sign.op o s = op →
      ∃ names : GroupNames, names.defined = b.names.defined ∧
        b.add pos ((Lexeme.sign sign).token o) = .ok ({ b with names }.addLeaf (sign.op o s)) := by
    intro op htoken hop
    exact ⟨b.names, rfl, by rw [htoken, hop]; rfl⟩
  cases sign with
  | unit u => exact hplain _ rfl rfl
  | symbol test => exact hplain _ rfl rfl
  | assertion condition =>
    cases condition with
    | lineStart =>
      have hmultiline : o.multiline = true := h
      apply hplain (.assertion .lineStart) _ rfl
      simp only [Lexeme.token, Sign.token, hmultiline, if_true]
    | schemeStart => exact hplain _ rfl rfl
    | lineEnd => exact hplain _ rfl rfl
    | wordBoundary => exact hplain _ rfl rfl
    | notWordBoundary => exact hplain _ rfl rfl
    | afterNonLetter => exact hplain _ rfl rfl
  | pin edge => exact hplain _ rfl rfl
  | set negated members => exact hplain _ rfl rfl
  | reference index => exact hplain _ rfl rfl
  | referenceName name =>
    have hlookup := GroupNames.lookup_eq hb.names name.text
    obtain ⟨slot, hslot⟩ := Option.isSome_iff_exists.1 h
    rw [hslot] at hlookup
    refine ⟨b.names, rfl, ?_⟩
    simp only [Lexeme.token, Sign.token, Builder.add, hlookup, Sign.op, hslot]
  | cross index ignoreCase => exact hplain _ rfl rfl
  | crossName name ignoreCase =>
    have hlookup := GroupNames.lookup_eq hb.names name.text
    simp only [Lexeme.token, Sign.token, Builder.add, Sign.op, Scope.target]
    cases hslot : s.slot? name.text with
    | some slot =>
      rw [hslot] at hlookup
      exact ⟨b.names, rfl, by rw [hlookup]⟩
    | none =>
      rw [hslot] at hlookup
      refine ⟨b.names.want name.text, ?_, by rw [hlookup]⟩
      unfold GroupNames.want
      split <;> rfl

theorem group (opener : Opener) {inside : Alternatives}
    (h : Builds o inside.lexemes (s.enter opener) s' (Parts (inside.branches o (s.enter opener)))) :
    Builds o (.opening opener :: (inside.lexemes ++ [.closing])) s s'
      (Makes [.box 0 (opener.container s) (inside.chain o (s.enter opener))]) := by
  intro b tokens hb htokens
  rw [List.map_cons, List.map_append] at htokens
  obtain ⟨⟨pos, token⟩, rest, rfl, rfl, hrest⟩ := List.map_eq_cons_iff.1 htokens
  obtain ⟨middle, last, rfl, hmiddle, hlast⟩ := List.map_eq_append_iff.1 hrest
  obtain ⟨⟨pos', token'⟩, rfl, rfl⟩ := List.map_eq_singleton_iff.1 hlast
  obtain ⟨b₁, hopen, hb₁, hitems₁, houter₁⟩ := Builder.openGroup_enter hb opener
  obtain ⟨b₂, items, hadd, hb₂, houter₂, hitems₂, hparts⟩ :=
    h _ middle (hb₁.push (opener.container s)) hmiddle
  have houter : b₂.outer = ⟨opener.container s, b.items⟩ :: b.outer := by
    rw [houter₂, ← hitems₁, ← houter₁]
    rfl
  have hinside : b₂.items.reverse = items := by
    rw [hitems₂]
    exact (congrArg List.reverse (List.append_nil _)).trans (List.reverse_reverse items)
  obtain ⟨b₃, hclose, hb₃, houter₃, hitems₃⟩ : ∃ b₃ : Builder,
      b₂.add pos' .closing = .ok b₃ ∧ b₃.Knows s' ∧ b₃.outer = b.outer ∧
        b₃.items = .atom (.box (Sequence.assemble b₂.next items).2 (opener.container s)
          (Sequence.assemble b₂.next items).1) :: b.items := by
    simp only [Builder.add, houter, hinside]
    exact ⟨_, rfl, ⟨hb₂.groups, hb₂.names⟩, rfl, rfl⟩
  refine ⟨b₃, [_], ?_, hb₃, houter₃, hitems₃, .atom ?_⟩
  · have hfirst : b.add pos ((Lexeme.opening opener).token o) = .ok (b₁.push (opener.container s)) :=
      congrArg Except.ok hopen
    have hlast : b₂.add pos' (Lexeme.closing.token o) = .ok b₃ := hclose
    rw [Builder.addAll]
    simp only [hfirst]
    rw [Builder.addAll_append _ hadd]
    simp only [Builder.addAll, hlast]
  · simp only [Node.bare, hparts.assemble]

end Builds

/-! ## Expressions -/

mutual

/-- The pieces of an expression lead to the groups that it opens, and their items become its tree. -/
theorem Atom.builds (o : Options) : ∀ (atom : Atom) (s : Scope), atom.expressible o s = true →
    Builds o atom.lexemes s (atom.scope s) (Makes [atom.node o s])
  | .sign sign, _, h => .sign sign h
  | .group opener inside, s, h => .group opener (inside.builds o (s.enter opener) h)
  | .loop n atom, s, h => by
    apply ((atom.builds o s h).append (.times n)).imp
    rintro items ⟨first, second, rfl, hfirst, rfl⟩
    exact hfirst.loop n.toQuantifier

theorem Branch.builds (o : Options) : ∀ (branch : Branch) (s : Scope), branch.expressible o s = true →
    Builds o branch.lexemes s (branch.scope s) (Makes (branch.nodes o s))
  | .nil, _, _ => .nil .none
  | .cons atom rest, s, h => by
    obtain ⟨hatom, hrest⟩ := Bool.and_eq_true_iff.1 h
    apply ((atom.builds o s hatom).append (rest.builds o (atom.scope s) hrest)).imp
    rintro items ⟨first, second, rfl, hfirst, hsecond⟩
    exact hfirst.append hsecond

theorem Alternatives.builds (o : Options) : ∀ (e : Alternatives) (s : Scope), e.expressible o s = true →
    Builds o e.lexemes s (e.scope s) (Parts (e.branches o s))
  | .last branch, s, h => (branch.builds o s h).imp fun _ => .last
  | .or branch rest, s, h => by
    obtain ⟨hbranch, hrest⟩ := Bool.and_eq_true_iff.1 h
    apply ((branch.builds o s hbranch).append
      (Builds.bar.append (rest.builds o (branch.scope s) hrest))).imp
    rintro items ⟨first, second, rfl, hfirst, bar, others, rfl, rfl, hothers⟩
    exact Parts.or hfirst hothers

end

theorem tree_bare (p : Pattern) : p.tree.bare = .box 0 (.group (some Slot.whole)) p.body.bare .nil := rfl

/-- An expression in writing compiles, under all options that allow its signs, and to its tree: below the
root stand its branches, all but the last in an alternative each, an empty one as a node that matches without
reading; groups have their slots in the order of their opening parentheses, nine plain ones and ten names. -/
theorem compile_text (o : Options) (e : Alternatives) (h : e.expressible o {} = true) :
    ∃ p, compile o e.text = .ok p ∧ p.options = o ∧ p.names.defined = (e.scope {}).names.take 10 ∧
      p.tree.bare = .box 0 (.group (some Slot.whole)) (e.chain o {}) .nil := by
  obtain ⟨tokens, hread, htokens⟩ := readFrom_lexemes (o := o) e.lexemes 0
  obtain ⟨b, items, hadd, hb, houter, hitems, hparts⟩ := e.builds o {} h {} tokens ⟨rfl, rfl⟩ htokens
  have houter : b.outer = [] := houter
  have hinside : b.items.reverse = items := by
    rw [hitems]
    exact (congrArg List.reverse (List.append_nil _)).trans (List.reverse_reverse items)
  have hread : Token.read o e.text = (tokens, none) := hread
  refine ⟨⟨o, b.names, (Sequence.assemble b.next items).1, (Sequence.assemble b.next items).2⟩, ?_, rfl,
    hb.names, ?_⟩
  · simp only [compile_eq, build, hread, hadd, Builder.finish, houter, hinside]
  · rw [tree_bare, hparts.assemble]

def nameN : GroupName := ⟨"n", by decide, by decide +kernel⟩

/-- A named group, one to three times, as few as possible; then what it holds, a look behind at a class, and
the seventh group of the attached match, if only up to case. -/
def someSigns : Alternatives :=
  .last <|
    .cons (.loop ⟨⟨1, some 3, true⟩, fun bound h => Option.some.inj h ▸ by decide⟩
      (.group (.named nameN) (.or (.cons (.sign (.unit 97)) .nil) (.last .nil)))) <|
    .cons (.sign (.referenceName nameN)) <|
    .cons (.group (.look true (some 2))
      (.last (.cons (.sign (.set true (.range 97 122 (by decide) .none))) .nil))) <|
    .cons (.sign (.cross ⟨7, by decide⟩ true)) .nil

/-- The tree of the expression is found in what its writing compiles to. -/
theorem compile_someSigns :
    someSigns.text =
      ("(?\x7bn\x7d\\x\x7b0061\x7d|)\x7b1,3\x7d?\\p\x7bn\x7d" ++
        "(?~2[^\\x\x7b0061\x7d-\\x\x7b007a\x7d])\\Y7").toList ∧
    ∃ p, compile {} someSigns.text = .ok p ∧ p.tree.bare =
      .box 0 (.group (some Slot.whole))
        (.box 0 (.loop ⟨1, some 3, true⟩)
          (.box 0 (.group (some (.named 0)))
            (.box 0 .alternative (.leaf 0 (.unit (.literal 97)) .nil) (.leaf 0 .empty .nil)) .nil)
          (.leaf 0 (.reference (.named 0))
            (.box 0 (.look ⟨true, some 2⟩)
              (.leaf 0 (.unit (.set (UnitSet.empty.insertRange 97 122) true)) .nil)
              (.leaf 0 (.cross (.slot (.numbered 7)) true) .nil)))) .nil := by
  obtain ⟨p, hp, -, -, htree⟩ := compile_text {} someSigns (by decide +kernel)
  exact ⟨by decide +kernel, p, hp, htree⟩

end SpanRegex.Pattern
