import SpanRegex.CodeUnit.Blanks
import SpanRegex.Pattern.ClassText
import SpanRegex.Pattern.Options
import SpanRegex.Pattern.Tree

/-! # Pattern tokens

Pattern text is first cut into tokens, each with the position of its first character.

* `Token`: a bracket, a bar, a quantifier or an atom; names are left as they are written.
* `Token.scan`: reads one token.
* `Token.read`: all tokens up to the first fault, and that fault.
-/

namespace SpanRegex.Pattern
set_option autoImplicit false

/-! ## Tokens -/

/-- How a group opens. -/
inductive Opening
  /-- A group with the next number. -/
  | plain
  /-- A group that records nothing. -/
  | silent
  | named (name : String)
  | look (look : Look)
  deriving DecidableEq, Repr

/-- A token of pattern text. -/
inductive Token
  | opening (kind : Opening)
  | closing
  | bar
  | quantifier (quantifier : Quantifier)
  | literal (char : Char)
  /-- An atom of one node. -/
  | leaf (op : Leaf)
  /-- A reference to the named group. -/
  | referenceName (name : String)
  /-- A reference to the named group of the attached match. -/
  | crossName (name : String) (ignoreCase : Bool)
  deriving DecidableEq

namespace Token

/-! ## Reading one token -/

/-- The length of a look behind, and the look. -/
def scanBehind (negated : Bool) (pos : Nat) (cs : List Char) : Except Error (Token × Nat) :=
  match Escape.decimal cs with
  | some (n, width) => .ok (.opening (.look ⟨negated, some n.toNat⟩), width + 3)
  | none => .error ⟨.invalidGroup, pos⟩

/-- Reads the opening of a group, whose parenthesis stands at `pos`. -/
def scanOpening (pos : Nat) : List Char → Except Error (Token × Nat)
  | '?' :: ':' :: _ => .ok (.opening .silent, 3)
  | '?' :: '=' :: _ => .ok (.opening (.look ⟨false, none⟩), 3)
  | '?' :: '!' :: _ => .ok (.opening (.look ⟨true, none⟩), 3)
  | '?' :: '#' :: cs => scanBehind false (pos + 2) cs
  | '?' :: '~' :: cs => scanBehind true (pos + 2) cs
  | '?' :: '\x7b' :: cs =>
    match Escape.name cs with
    | some (name, width) => .ok (.opening (.named name), width + 3)
    | none => .error ⟨.invalidGroup, pos + 2⟩
  | '?' :: _ => .error ⟨.invalidGroup, pos + 2⟩
  | _ => .ok (.opening .plain, 1)

/-- Reads the bounds of a quantifier after its opening brace. -/
def scanBounds (cs : List Char) : Option (UInt32 × Option UInt32 × Nat) := do
  let (min, width) ← Escape.decimal cs
  match cs.drop width with
  | '\x7d' :: _ => some (min, some min, width + 1)
  | ',' :: '\x7d' :: _ => some (min, none, width + 2)
  | ',' :: rest =>
    let (max, more) ← Escape.decimal rest
    if (rest.drop more).head? == some '\x7d' && min ≤ max then
      some (min, some max, width + more + 2)
    else none
  | _ => none

/-- A quantifier of the given width, lazy if a question mark follows it. -/
def quantified (min : UInt32) (max : Option UInt32) (width : Nat) (cs : List Char) : Token × Nat :=
  if (cs.drop (width - 1)).head? == some '?' then (.quantifier ⟨min, max, true⟩, width + 1)
  else (.quantifier ⟨min, max, false⟩, width)

/-- The atom of an escape letter. -/
def escaped? : Char → Option Leaf
  | 'd' => some (.unit (.symbol .digit))
  | 'D' => some (.unit (.symbol .notDigit))
  | 'w' => some (.unit (.symbol .word))
  | 'W' => some (.unit (.symbol .notWord))
  | 's' => some (.unit (.symbol .space))
  | 'S' => some (.unit (.symbol .notSpace))
  | 'u' => some (.unit (.symbol .upper))
  | 'l' => some (.unit (.symbol .lower))
  | 'b' => some (.assertion .wordBoundary)
  | 'B' => some (.assertion .notWordBoundary)
  | 'c' => some (.assertion .afterNonLetter)
  | 'm' => some (.pin .start)
  | 'M' => some (.pin .stop)
  | _ => none

def digitSlot? (c : Char) : Option SlotIndex :=
  if h : c.isDigit ∧ c.toNat - '0'.toNat < 10 then some ⟨c.toNat - '0'.toNat, h.2⟩ else none

/-- Reads the group name in braces after an escape letter. -/
def scanName (cs : List Char) : Option (String × Nat) :=
  match cs with
  | '\x7b' :: cs => (Escape.name cs).map fun (name, width) => (name, width + 1)
  | _ => none

def scanCross (ignoreCase : Bool) (cs : List Char) : Option (Token × Nat) :=
  match scanName cs with
  | some (name, width) => some (.crossName name ignoreCase, width)
  | none => do
    let slot ← cs.head?.bind digitSlot?
    pure (.leaf (.cross (.slot (.numbered slot)) ignoreCase), 1)

/-- Reads the escape after a backslash at `pos`. A digit from 1 to 9 refers to a group, unless it
is octal and an octal digit follows. -/
def scanEscape (pos : Nat) : List Char → Except Error (Token × Nat)
  | [] => .error ⟨.incompleteEscape, pos⟩
  | c :: cs =>
    match escaped? c with
    | some op => .ok (.leaf op, 2)
    | none =>
      let found : Option (Token × Nat) :=
        if c == 'p' then
          (scanName cs).map fun (name, width) => (.referenceName name, width)
        else if c == 'y' || c == 'Y' then scanCross (c == 'Y') cs
        else if c.isDigit && c != '0' && !(cs.head?.any Escape.isOctal && Escape.isOctal c) then
          (digitSlot? c).map fun slot => (.leaf (.reference (.numbered slot)), 0)
        else
          (Escape.unit c cs).map fun (u, width) => (.leaf (.unit (.literal u)), width)
      match found with
      | some (token, width) => .ok (token, width + 2)
      | none => .error ⟨.invalidEscape, pos⟩

/-- Reads the token that starts with `c`, the character at `pos`; answers it with its width. -/
def scan (o : Options) (pos : Nat) (c : Char) (cs : List Char) : Except Error (Token × Nat) :=
  match c with
  | '(' => scanOpening pos cs
  | ')' => .ok (.closing, 1)
  | '|' => .ok (.bar, 1)
  | '*' => .ok (quantified 0 none 1 cs)
  | '+' => .ok (quantified 1 none 1 cs)
  | '?' => .ok (quantified 0 (some 1) 1 cs)
  | '\x7b' =>
    match scanBounds cs with
    | some (min, max, width) => .ok (quantified min max (width + 1) cs)
    | none => .error ⟨.malformedQuantifier, pos⟩
  | '[' =>
    let negated := cs.head? == some '^'
    let skip := if negated then 1 else 0
    match ClassLevel.scan o.ignoreCase [] { negated } skip (pos + 1) cs with
    | .ok (level, stop) => .ok (.leaf (.unit (.set level.members level.negated)), stop - pos)
    | .error e => .error e
  | '\\' => scanEscape pos cs
  | '.' => .ok (.leaf (.unit (.symbol .anyChar)), 1)
  | '^' => .ok (.leaf (.assertion (if o.multiline then .lineStart else .schemeStart)), 1)
  | '~' => .ok (.leaf (.assertion .schemeStart), 1)
  | '$' => .ok (.leaf (.assertion .lineEnd), 1)
  | c => .ok (.literal c, 1)

/-! ## Reading a pattern -/

/-- The tokens of the characters with their positions, up to the first fault. White space between
tokens is passed over in an extended pattern; the first `skip` characters belong to a token that
has been read. -/
def readFrom (o : Options) (skip pos : Nat) : List Char → List (Nat × Token) × Option Error
  | [] => ([], none)
  | c :: cs =>
    match skip with
    | skip + 1 => readFrom o skip (pos + 1) cs
    | 0 =>
      if o.extended && CodeUnit.isSpaceChar c then readFrom o 0 (pos + 1) cs
      else
        match scan o pos c cs with
        | .error e => ([], some e)
        | .ok (token, width) =>
          let (tokens, fault) := readFrom o (width - 1) (pos + 1) cs
          ((pos, token) :: tokens, fault)

/-- The tokens of a pattern text with their positions, up to the first fault, and that fault. -/
def read (o : Options) (cs : List Char) : List (Nat × Token) × Option Error := readFrom o 0 0 cs

end Token

end SpanRegex.Pattern
