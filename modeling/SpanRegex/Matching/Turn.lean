import SpanRegex.Matching.Machine

/-! # Turns of the machine

* `Setting`: what stays fixed during a search.
* `Leaf.read?`: where a node without children leaves the walk.
* `Setting.visit`: one visit of a node; `Machine.settle`: one frame taken from the stack.
* `Setting.turn`: one turn of the machine; `Setting.run`: turns until the attempt is decided.
-/

namespace SpanRegex
set_option autoImplicit false

open Pattern (Chain Container Leaf Look Options Quantifier Slot)

/-! ## Settings and phases -/

/-- What stays fixed during a search. -/
structure Setting where
  pattern : Pattern
  input : Input
  attached : Option Attachment
  /-- The number of visits that are allowed. -/
  limit : Option Nat

/-- What the machine does next. -/
inductive Phase
  /-- It visits the node at the cursor. -/
  | walk (cursor : Cursor)
  /-- It goes back to the latest choice, the rest of the walk having succeeded or failed. -/
  | settle (success : Bool)
  deriving DecidableEq, Inhabited

/-- How an attempt ends. -/
inductive Verdict
  | matched
  | failed
  /-- No further visit is allowed. -/
  | exhausted
  deriving DecidableEq, Repr

inductive Turn
  | going (phase : Phase) (machine : Machine)
  | over (verdict : Verdict) (machine : Machine)

/-! ## Nodes without children -/

/-- The offset after a text that is expected at the offset. -/
def Input.after? (i : Input) (pos : Nat) (ignoreCase : Bool) (expected : Option Text) :
    Option Nat :=
  match expected with
  | some t => if i.holdsAt pos t (Pattern.sameUnit ignoreCase) then some (pos + t.size) else none
  | none => none

/-- The text that a cross reference expects. -/
def Setting.crossText? (s : Setting) (target : Pattern.CrossTarget) : Option Text := do
  let attached ← s.attached
  let bounds ← attached.bounds? s.pattern.names target
  bounds.heldText? attached.text

/-- The offset at which a node without children leaves the walk, if it matches at `pos`. -/
def Setting.read? (s : Setting) (captures : Captures) (pos : Nat) : Leaf → Option Nat
  | .empty => some pos
  | .unit test =>
    match s.input.at? pos with
    | some u => if test.passes s.pattern.options u then some (pos + 1) else none
    | none => none
  | .assertion condition =>
    if condition.holds s.pattern.options s.input pos then some pos else none
  | .pin _ => some pos
  | .reference slot => s.input.after? pos false ((captures.get slot).heldText? s.input.text)
  | .cross target ignoreCase => s.input.after? pos ignoreCase (s.crossText? target)

/-! ## Visits -/

def Setting.visitLeaf (s : Setting) (m : Machine) (c : Cursor) (op : Leaf) (next : Chain) :
    Phase × Machine :=
  match s.read? m.captures c.pos op with
  | some pos =>
    match op with
    | .pin edge => (.walk (c.leave next pos), m.pin edge pos)
    | _ => (.walk (c.leave next pos), m)
  | none => (.settle false, m)

/-- Visits a group: its start is noted on the way in and its span recorded on the way out. -/
def visitGroup (m : Machine) (c : Cursor) (id : Nat) (capture : Option Slot) (body next : Chain) :
    Phase × Machine :=
  if c.entering then
    (.walk (c.descend body c.pos), { m with starts := m.starts.set id c.pos })
  else
    match capture with
    | some slot => (.walk (c.leave next c.pos), m.record slot c.pos id)
    | none => (.walk (c.leave next c.pos), m)

/-- Visits a look. A look behind that would start before the text cannot succeed. -/
def visitLook (m : Machine) (c : Cursor) (look : Look) (body next : Chain) : Phase × Machine :=
  if c.entering then
    let behind := look.behind.getD 0
    if c.pos < behind then
      if look.negated then (.walk (c.leave next c.pos), m) else (.settle false, m)
    else
      let choice := if look.negated then Choice.refuse else Choice.require
      (.walk (c.descend body (c.pos - behind)), m.push c choice)
  else
    (.settle true, m)

/-- Visits an alternative: on the way in the others are kept as a choice, on the way out they are
passed over. -/
def visitAlternative (m : Machine) (c : Cursor) (body : Chain) : Phase × Machine :=
  if c.entering then (.walk (c.descend body c.pos), m.push c .skip)
  else (.walk (c.leave .nil c.pos), m)

/-- Sets up a loop that is entered. -/
def enterLoop (m : Machine) (id : Nat) (q : Quantifier) : Machine :=
  let spare := match q.max with
    | some max => max - min max q.min
    | none => 0
  (m.setCount id ⟨q.min, spare⟩).setGuard id none

/-- Decides about a loop that owes no repetition. -/
def decideLoop (m : Machine) (c : Cursor) (id : Nat) (q : Quantifier) (body next : Chain) :
    Phase × Machine :=
  let onward := Phase.walk (c.leave next c.pos)
  let inward := Phase.walk (c.descend body c.pos)
  match q.max with
  | none =>
    if m.guards.get id == some c.pos then (onward, m)
    else
      let m := m.setGuard id (some c.pos)
      if q.lazy then (onward, m.push c .again) else (inward, m.push c .skip)
  | some _ =>
    let count := m.counts.get id
    if count.spare == 0 then (onward, m)
    else if q.lazy then (onward, m.push c .oneMore)
    else (inward, (m.setCount id { count with spare := count.spare - 1 }).push c .settleForLess)

/-- Visits a loop: repetitions that are due come first. -/
def visitLoop (m : Machine) (c : Cursor) (id : Nat) (q : Quantifier) (body next : Chain) :
    Phase × Machine :=
  let m := if c.entering then enterLoop m id q else m
  let count := m.counts.get id
  if count.due == 0 then decideLoop m c id q body next
  else (.walk (c.descend body c.pos), m.setCount id { count with due := count.due - 1 })

def Setting.visit (s : Setting) (m : Machine) (c : Cursor) : Phase × Machine :=
  match c.chain with
  | .nil => (.settle true, m)
  | .leaf _ op next => s.visitLeaf m c op next
  | .box id op body next =>
    match op with
    | .group capture => visitGroup m c id capture body next
    | .look look => visitLook m c look body next
    | .alternative => visitAlternative m c body
    | .loop q => visitLoop m c id q body next

/-! ## Going back to a choice -/

def Cursor.loop? (c : Cursor) : Option (Nat × Chain) :=
  match c.chain with
  | .box id (.loop _) body _ => some (id, body)
  | _ => none

/-- Carries out a failed choice, the machine being back at its frame. -/
def Machine.retry (m : Machine) (c : Cursor) (choice : Choice) : Phase × Machine :=
  match choice with
  | .require => (.settle false, m)
  | .refuse | .skip => (.walk c.proceed, m)
  | .again =>
    match c.loop? with
    | some (_, body) => (.walk (c.descend body c.pos), m)
    | none => (.settle false, m)
  | .settleForLess => (.walk c.proceed, m.push c .giveBack)
  | .oneMore =>
    match c.loop? with
    | some (id, body) =>
      let count := m.counts.get id
      let m := m.setCount id { count with spare := count.spare - min count.spare 1 }
      (.walk (c.descend body c.pos), m.push c .giveBack)
    | none => (.settle false, m)
  | .giveBack =>
    match c.loop? with
    | some (id, _) =>
      let count := m.counts.get id
      (.settle false, m.setCount id { count with spare := count.spare + 1 })
    | none => (.settle false, m)

/-- Carries out a choice after success, the machine being back at its frame. -/
def Machine.accept (m : Machine) (c : Cursor) (choice : Choice) : Phase × Machine :=
  match choice with
  | .require => (.walk c.proceed, m)
  | .refuse => (.settle false, m)
  | _ => (.settle true, m)

/-- Takes the latest choice from the stack and carries it out. -/
def Machine.settle (m : Machine) (success : Bool) : Turn :=
  match m.frames with
  | [] => .over (if success then .matched else .failed) m
  | f :: frames =>
    let m := { m with frames }.unwind f.trail
    let (phase, m) := if success then m.accept f.cursor f.choice else m.retry f.cursor f.choice
    .going phase m

/-! ## Runs -/

def Setting.exceeds (s : Setting) (visits : Nat) : Bool := s.limit.any (· < visits)

/-- One turn of the machine. Leaving the root is no visit. -/
def Setting.turn (s : Setting) (m : Machine) : Phase → Turn
  | .settle success => m.settle success
  | .walk c =>
    match c.chain with
    | .nil => .going (.settle true) m
    | _ =>
      let m := { m with visits := m.visits + 1 }
      if s.exceeds m.visits then .over .exhausted m
      else
        let (phase, m) := s.visit m c
        .going phase m

/-- Takes turns until the attempt is decided, at most `fuel` of them. -/
def Setting.run (s : Setting) (fuel : Nat) (phase : Phase) (m : Machine) :
    Option (Verdict × Machine) :=
  match fuel with
  | 0 => none
  | fuel + 1 =>
    match s.turn m phase with
    | .going phase m => s.run fuel phase m
    | .over verdict m => some (verdict, m)

def Setting.attempt (s : Setting) (fuel pos : Nat) (m : Machine) : Option (Verdict × Machine) :=
  s.run fuel (.walk (.start s.pattern.tree pos)) m.ready

end SpanRegex
