import SpanRegex.CodeUnit.Sets
import SpanRegex.Pattern.Error
import SpanRegex.Pattern.Escape

/-! # The text of character classes

A class is read from left to right, every member changing the set collected so far. Brackets open
inner classes, which are joined to the set around them when they close.

* `ClassPiece`: a member, an opening or a closing bracket; `ClassPiece.scan` reads one.
* `ClassLevel`: the set collected since a bracket was opened.
* `ClassLevel.scan`: reads the rest of a class, to its closing bracket.
-/

namespace SpanRegex.Pattern
set_option autoImplicit false

/-! ## Pieces -/

/-- How an inner class changes the set around it. -/
inductive ClassJoin
  | union
  | inter
  | diff
  deriving DecidableEq, Repr

inductive ClassPiece
  | finish
  /-- An opening bracket, with what joins the inner class. -/
  | nest (join : ClassJoin) (negated : Bool)
  | range (first last : CodeUnit)
  | named (members : UnitSet)

/-- A class member before it is known whether it starts a range. -/
inductive ClassMember
  | unit (unit : CodeUnit)
  | named (members : UnitSet)

namespace ClassMember

/-- The named set of an escape letter. -/
def named? : Char → Option UnitSet
  | 'd' => some .digits
  | 'D' => some UnitSet.digits.compl
  | 'w' => some .words
  | 'W' => some UnitSet.words.compl
  | 's' => some .spaces
  | 'S' => some UnitSet.spaces.compl
  | 'u' => some .uppers
  | 'l' => some .lowers
  | _ => none

/-- Reads the member that starts with `c`, the character at `pos`. -/
def scan (pos : Nat) (c : Char) (cs : List Char) : Except Error (ClassMember × Nat) :=
  if c != '\\' then
    match CodeUnit.ofChar c with
    | [u] => .ok (.unit u, 1)
    | _ => .error ⟨.wideClassMember, pos⟩
  else
    match cs with
    | [] => .error ⟨.unclosedClass, pos + 1⟩
    | e :: more =>
      match named? e with
      | some members => .ok (.named members, 2)
      | none =>
        if e == 'b' then .ok (.unit 0x08, 2)
        else
          match Escape.unit e more with
          | some (u, width) => .ok (.unit u, width + 2)
          | none => .error ⟨.invalidEscape, pos⟩

end ClassMember

namespace ClassPiece

/-- The opening of an inner class, after the `width` characters of its bracket. -/
def nested (join : ClassJoin) (width : Nat) (cs : List Char) : ClassPiece × Nat :=
  if cs.head? == some '^' then (.nest join true, width + 1) else (.nest join false, width)

/-- Reads the piece that starts with `c`, the character at `pos`. -/
def scan (pos : Nat) (c : Char) (cs : List Char) : Except Error (ClassPiece × Nat) :=
  match c, cs with
  | ']', _ => .ok (.finish, 1)
  | '[', cs => .ok (nested .union 1 cs)
  | '&', '&' :: '[' :: cs => .ok (nested .inter 3 cs)
  | '-', '[' :: cs => .ok (nested .diff 2 cs)
  | c, cs => do
    let (first, width) ← ClassMember.scan pos c cs
    match first with
    | .named members => pure (.named members, width)
    | .unit u =>
      match cs.drop (width - 1) with
      | '-' :: d :: more =>
        if d == ']' || d == '[' then pure (.range u u, width)
        else
          let (last, more) ← ClassMember.scan (pos + width + 1) d more
          match last with
          | .unit v =>
            if u ≤ v then pure (.range u v, width + 1 + more) else throw ⟨.invalidRange, pos⟩
          | .named _ => throw ⟨.invalidRange, pos⟩
      | _ => pure (.range u u, width)

end ClassPiece

/-! ## Collecting a class -/

/-- What has been read since a bracket was opened. -/
structure ClassLevel where
  negated : Bool
  members : UnitSet := .empty
  deriving DecidableEq

namespace ClassLevel

/-- The set that an inner class stands for. -/
def denoted (l : ClassLevel) : UnitSet := if l.negated then l.members.compl else l.members

/-- Joins an inner class to the set around it. -/
def joined (l : ClassLevel) (join : ClassJoin) (inner : ClassLevel) : ClassLevel :=
  match join with
  | .union => { l with members := l.members.union inner.denoted }
  | .inter => { l with members := l.members.inter inner.denoted }
  | .diff => { l with members := l.members.diff inner.denoted }

def addRange (ignoreCase : Bool) (l : ClassLevel) (first last : CodeUnit) : ClassLevel :=
  { l with
    members :=
      if ignoreCase then l.members.insertCases first last else l.members.insertRange first last }

/-- Reads class text up to the bracket that closes the outermost class; answers that class and the
position after the bracket. `outer` holds the classes around the innermost one, and the first
`skip` characters belong to a piece that has been read. -/
def scan (ignoreCase : Bool) (outer : List (ClassJoin × ClassLevel)) (inner : ClassLevel)
    (skip pos : Nat) : List Char → Except Error (ClassLevel × Nat)
  | [] => .error ⟨.unclosedClass, pos⟩
  | c :: cs =>
    match skip with
    | skip + 1 => scan ignoreCase outer inner skip (pos + 1) cs
    | 0 =>
      match ClassPiece.scan pos c cs with
      | .error e => .error e
      | .ok (piece, width) =>
        let skip := width - 1
        match piece, outer with
        | .finish, [] => .ok (inner, pos + 1)
        | .finish, (join, around) :: outer =>
          scan ignoreCase outer (around.joined join inner) skip (pos + 1) cs
        | .nest join negated, outer =>
          scan ignoreCase ((join, inner) :: outer) { negated } skip (pos + 1) cs
        | .range first last, outer =>
          scan ignoreCase outer (inner.addRange ignoreCase first last) skip (pos + 1) cs
        | .named members, outer =>
          scan ignoreCase outer { inner with members := inner.members.union members } skip (pos + 1)
            cs

end ClassLevel

end SpanRegex.Pattern
