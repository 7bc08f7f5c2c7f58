import SpanRegex.Matching.Condition
import SpanRegex.Pattern.Compile

/-! # Expressions

The patterns that pattern text can express, apart from how they are written: how each is written, and the
tree that it stands for.

* `ClassMembers`: the inside of a character class, and the set that it collects.
* `Sign`, `Opener`, `Times`: what stands for one leaf, what opens a group, how often an atom repeats.
* `Atom`, `Branch`, `Alternatives`: the expressions.
* `Lexeme`, `Alternatives.text`: expressions in writing.
* `Scope`: the groups opened so far, which decide what slots groups get and what references mean.
* `Alternatives.expressible`: the options and the groups allow every sign of an expression.
* `Alternatives.chain`: the tree of an expression, its nodes not numbered; `Chain.bare`.
-/

namespace SpanRegex.Pattern
set_option autoImplicit false

/-! ## Trees without numbers -/

/-- The chain with every node numbered 0. -/
def Chain.bare : Chain → Chain
  | .nil => .nil
  | .leaf _ op next => .leaf 0 op next.bare
  | .box _ op body next => .box 0 op body.bare next.bare

def Node.bare : Node → Node
  | .leaf _ op => .leaf 0 op
  | .box _ op body => .box 0 op body.bare

theorem Chain.bare_ofNodes (nodes : List Node) :
    (Chain.ofNodes nodes).bare = .ofNodes (nodes.map Node.bare) := by
  induction nodes with
  | nil => rfl
  | cons node nodes ih =>
    have hbefore : (node.before (.ofNodes nodes)).bare = node.bare.before (Chain.ofNodes nodes).bare := by
      cases node <;> rfl
    simp only [Chain.ofNodes, List.foldr_cons, List.map_cons] at hbefore ih ⊢
    rw [hbefore, ih]

/-! ## Signs -/

/-- A name that can be written between braces. -/
structure GroupName where
  text : String
  nonempty : text ≠ ""
  closed : '\x7d' ∉ text.toList

/-- How often an atom repeats, the bounds in order. -/
structure Times extends Quantifier where
  ordered : ∀ bound, max = some bound → min ≤ bound

/-- What opens a group. -/
inductive Opener
  | plain
  | silent
  | named (name : GroupName)
  /-- A look ahead, or behind by a number of units. -/
  | look (negated : Bool) (behind : Option UInt32)

/-- The rest of the inside of a class. -/
inductive ClassMembers
  | none
  | unit (unit : CodeUnit) (rest : ClassMembers)
  | range (first last : CodeUnit) (ordered : first ≤ last) (rest : ClassMembers)
  | named (symbol : Symbol) (proper : symbol ≠ .anyChar) (rest : ClassMembers)
  | nested (join : ClassJoin) (negated : Bool) (inner rest : ClassMembers)

/-- What stands for one leaf. -/
inductive Sign
  | unit (unit : CodeUnit)
  | symbol (symbol : Symbol)
  | assertion (condition : Assertion)
  | pin (edge : Edge)
  | set (negated : Bool) (members : ClassMembers)
  /-- A reference to one of the slots 1 to 9. -/
  | reference (index : Fin 9)
  | referenceName (name : GroupName)
  | cross (index : SlotIndex) (ignoreCase : Bool)
  | crossName (name : GroupName) (ignoreCase : Bool)

/-! ## Expressions -/

mutual

/-- What can be repeated. -/
inductive Atom
  | sign (sign : Sign)
  | group (opener : Opener) (inside : Alternatives)
  | loop (times : Times) (atom : Atom)

/-- Atoms in a row, or none. -/
inductive Branch
  | nil
  | cons (atom : Atom) (rest : Branch)

/-- Branches with a bar between any two. -/
inductive Alternatives
  | last (branch : Branch)
  | or (branch : Branch) (rest : Alternatives)

end

/-! ## Writing -/

def hexDigits (u : CodeUnit) : List Char :=
  [u.toNat / 4096, u.toNat / 256 % 16, u.toNat / 16 % 16, u.toNat % 16].map Nat.digitChar

/-- The escape of the unit after its backslash. -/
def unitCode (u : CodeUnit) : List Char := 'x' :: '\x7b' :: (hexDigits u ++ ['\x7d'])

def unitText (u : CodeUnit) : List Char := '\\' :: unitCode u

def Symbol.letter : Symbol → Char
  | .anyChar => '.'
  | .digit => 'd'
  | .notDigit => 'D'
  | .word => 'w'
  | .notWord => 'W'
  | .space => 's'
  | .notSpace => 'S'
  | .upper => 'u'
  | .lower => 'l'

def Symbol.text : Symbol → List Char
  | .anyChar => ['.']
  | symbol => ['\\', symbol.letter]

def Assertion.text : Assertion → List Char
  | .lineStart => ['^']
  | .schemeStart => ['~']
  | .lineEnd => ['$']
  | .wordBoundary => ['\\', 'b']
  | .notWordBoundary => ['\\', 'B']
  | .afterNonLetter => ['\\', 'c']

def Edge.text : Edge → List Char
  | .start => ['\\', 'm']
  | .stop => ['\\', 'M']

def GroupName.braced (name : GroupName) : List Char := '\x7b' :: (name.text.toList ++ ['\x7d'])

def ClassJoin.text : ClassJoin → List Char
  | .union => ['[']
  | .inter => ['&', '&', '[']
  | .diff => ['-', '[']

def negationText (negated : Bool) : List Char := if negated then ['^'] else []

def ClassMembers.text : ClassMembers → List Char
  | .none => []
  | .unit u rest => unitText u ++ rest.text
  | .range first last _ rest => unitText first ++ '-' :: (unitText last ++ rest.text)
  | .named symbol _ rest => '\\' :: symbol.letter :: rest.text
  | .nested join negated inner rest =>
    join.text ++ (negationText negated ++ (inner.text ++ ']' :: rest.text))

def Sign.text : Sign → List Char
  | .unit u => unitText u
  | .symbol test => test.text
  | .assertion condition => condition.text
  | .pin edge => edge.text
  | .set negated members => '[' :: (negationText negated ++ (members.text ++ [']']))
  | .reference index => ['\\', Nat.digitChar (index.val + 1)]
  | .referenceName name => '\\' :: 'p' :: name.braced
  | .cross index ignoreCase => ['\\', if ignoreCase then 'Y' else 'y', Nat.digitChar index.val]
  | .crossName name ignoreCase => '\\' :: (if ignoreCase then 'Y' else 'y') :: name.braced

def decimalText (n : UInt32) : List Char := Nat.toDigits 10 n.toNat

def Opener.text : Opener → List Char
  | .plain => ['(']
  | .silent => ['(', '?', ':']
  | .named name => '(' :: '?' :: name.braced
  | .look negated none => ['(', '?', if negated then '!' else '=']
  | .look negated (some n) => '(' :: '?' :: (if negated then '~' else '#') :: decimalText n

def Quantifier.bounds (q : Quantifier) : List Char :=
  match q.max with
  | none => decimalText q.min ++ [',']
  | some max => if max = q.min then decimalText q.min else decimalText q.min ++ ',' :: decimalText max

def Quantifier.text (q : Quantifier) : List Char :=
  '\x7b' :: (q.bounds ++ '\x7d' :: if q.lazy then ['?'] else [])

/-- A piece of an expression in writing. -/
inductive Lexeme
  | opening (opener : Opener)
  | closing
  | bar
  | times (times : Times)
  | sign (sign : Sign)

def Lexeme.text : Lexeme → List Char
  | .opening opener => opener.text
  | .closing => [')']
  | .bar => ['|']
  | .times n => n.toQuantifier.text
  | .sign s => s.text

mutual

def Atom.lexemes : Atom → List Lexeme
  | .sign sign => [.sign sign]
  | .group opener inside => .opening opener :: (inside.lexemes ++ [.closing])
  | .loop times atom => atom.lexemes ++ [.times times]

def Branch.lexemes : Branch → List Lexeme
  | .nil => []
  | .cons atom rest => atom.lexemes ++ rest.lexemes

def Alternatives.lexemes : Alternatives → List Lexeme
  | .last branch => branch.lexemes
  | .or branch rest => branch.lexemes ++ .bar :: rest.lexemes

end

/-- The expression in writing. -/
def Alternatives.text (e : Alternatives) : List Char := e.lexemes.flatMap Lexeme.text

/-! ## Slots -/

/-- The groups that have been opened: how many plain ones, and the names of the others in the order in
which they were first opened. -/
structure Scope where
  groups : Nat := 0
  names : List String := []

namespace Scope

def slot? (s : Scope) (name : String) : Option SlotIndex :=
  ((s.names.take 10).finIdxOf? name).map (Fin.castLE (List.length_take_le 10 s.names))

def enter (s : Scope) : Opener → Scope
  | .plain => { s with groups := s.groups + 1 }
  | .named name => if name.text ∈ s.names then s else { s with names := s.names ++ [name.text] }
  | .silent | .look _ _ => s

/-- The number of the next plain group: nine have one. -/
def nextSlot? (s : Scope) : Option Slot :=
  if h : s.groups + 1 < 10 then some (.numbered ⟨s.groups + 1, h⟩) else none

end Scope

def Opener.container (s : Scope) : Opener → Container
  | .plain => .group s.nextSlot?
  | .silent => .group none
  | .named name => .group (((s.enter (.named name)).slot? name.text).map .named)
  | .look negated behind => .look ⟨negated, behind.map UInt32.toNat⟩

mutual

/-- The groups that have been opened after the expression. -/
def Atom.scope (s : Scope) : Atom → Scope
  | .sign _ => s
  | .group opener inside => inside.scope (s.enter opener)
  | .loop _ atom => atom.scope s

def Branch.scope (s : Scope) : Branch → Scope
  | .nil => s
  | .cons atom rest => rest.scope (atom.scope s)

def Alternatives.scope (s : Scope) : Alternatives → Scope
  | .last branch => branch.scope s
  | .or branch rest => rest.scope (branch.scope s)

end

/-! ## What can be written -/

/-- The options allow the sign, and a name that it refers to has a slot. -/
def Sign.expressible (o : Options) (s : Scope) : Sign → Bool
  | .assertion .lineStart => o.multiline
  | .referenceName name => (s.slot? name.text).isSome
  | _ => true

mutual

def Atom.expressible (o : Options) (s : Scope) : Atom → Bool
  | .sign sign => sign.expressible o s
  | .group opener inside => inside.expressible o (s.enter opener)
  | .loop _ atom => atom.expressible o s

def Branch.expressible (o : Options) (s : Scope) : Branch → Bool
  | .nil => true
  | .cons atom rest => atom.expressible o s && rest.expressible o (atom.scope s)

def Alternatives.expressible (o : Options) (s : Scope) : Alternatives → Bool
  | .last branch => branch.expressible o s
  | .or branch rest => branch.expressible o s && rest.expressible o (branch.scope s)

end

/-! ## Trees -/

def addUnits (ignoreCase : Bool) (s : UnitSet) (first last : CodeUnit) : UnitSet :=
  if ignoreCase then s.insertCases first last else s.insertRange first last

def ClassJoin.apply (join : ClassJoin) (s inner : UnitSet) : UnitSet :=
  match join with
  | .union => s.union inner
  | .inter => s.inter inner
  | .diff => s.diff inner

/-- The set that the members make of the set before them. -/
def ClassMembers.collect (ignoreCase : Bool) (s : UnitSet) : ClassMembers → UnitSet
  | .none => s
  | .unit u rest => rest.collect ignoreCase (addUnits ignoreCase s u u)
  | .range first last _ rest => rest.collect ignoreCase (addUnits ignoreCase s first last)
  | .named symbol _ rest => rest.collect ignoreCase (s.union (.ofPred fun u => symbol.passes false u))
  | .nested join negated inner rest =>
    let set := inner.collect ignoreCase .empty
    rest.collect ignoreCase (join.apply s (if negated then set.compl else set))

def Scope.target (s : Scope) (name : String) : CrossTarget :=
  match s.slot? name with
  | some slot => .slot (.named slot)
  | none => .unresolved name

def Sign.op (o : Options) (s : Scope) : Sign → Leaf
  | .unit u => .unit (.literal u)
  | .symbol test => .unit (.symbol test)
  | .assertion condition => .assertion condition
  | .pin edge => .pin edge
  | .set negated members => .unit (.set (members.collect o.ignoreCase .empty) negated)
  | .reference index => .reference (.numbered index.succ)
  | .referenceName name =>
    match s.slot? name.text with
    | some slot => .reference (.named slot)
    | none => .empty
  | .cross index ignoreCase => .cross (.slot (.numbered index)) ignoreCase
  | .crossName name ignoreCase => .cross (s.target name.text) ignoreCase

/-- The nodes of a branch; one that matches without reading where there is none. -/
def filled : List Node → List Node
  | [] => [.leaf 0 .empty]
  | nodes => nodes

mutual

/-- The tree of the expression after the groups of the scope, its nodes not numbered. -/
def Atom.node (o : Options) (s : Scope) : Atom → Node
  | .sign sign => .leaf 0 (sign.op o s)
  | .group opener inside => .box 0 (opener.container s) (inside.chain o (s.enter opener))
  | .loop times atom => .box 0 (.loop times.toQuantifier) (.ofNodes [atom.node o s])

def Branch.nodes (o : Options) (s : Scope) : Branch → List Node
  | .nil => []
  | .cons atom rest => atom.node o s :: rest.nodes o (atom.scope s)

def Alternatives.chain (o : Options) (s : Scope) : Alternatives → Chain
  | .last branch => .ofNodes (filled (branch.nodes o s))
  | .or branch rest =>
    .box 0 .alternative (.ofNodes (filled (branch.nodes o s))) (rest.chain o (branch.scope s))

end

end SpanRegex.Pattern
