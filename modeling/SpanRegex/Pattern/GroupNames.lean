/-! # Group names

Named groups have ten slots of their own, given out in the order in which the names first open.

* `SlotIndex`: one of ten slots.
* `GroupNames`: the names that have a slot, and the names that references want from elsewhere.
* `GroupNames.lookup`, `GroupNames.name?`: from a name to its slot and back.
* `GroupNames.define`: the slot of a name, a new one if there is room.
-/

namespace SpanRegex.Pattern
set_option autoImplicit false

/-- One of the ten capture slots of a kind. -/
abbrev SlotIndex := Fin 10

/-- The names of a pattern: slot `i` belongs to the `i`-th defined name. -/
structure GroupNames where
  /-- The names with a slot, in slot order. -/
  defined : List String
  /-- The names that cross references look up elsewhere, in order of first mention. -/
  unresolved : List String
  fits : defined.length ≤ 10
  deriving DecidableEq, Repr

namespace GroupNames

def empty : GroupNames := ⟨[], [], Nat.zero_le 10⟩

instance : Inhabited GroupNames := ⟨empty⟩

def lookup (t : GroupNames) (name : String) : Option SlotIndex :=
  (t.defined.finIdxOf? name).map (Fin.castLE t.fits)

def name? (t : GroupNames) (slot : SlotIndex) : Option String := t.defined[slot.val]?

def size (t : GroupNames) : Nat := t.defined.length

/-- Gives the name a slot: the one it has, or the next free one. -/
def define (t : GroupNames) (name : String) : GroupNames × Option SlotIndex :=
  match t.lookup name with
  | some slot => (t, some slot)
  | none =>
    if h : t.defined.length < 10 then
      ({ t with defined := t.defined ++ [name], fits := by simp; omega },
        some ⟨t.defined.length, h⟩)
    else
      (t, none)

/-- Records that a cross reference looks the name up elsewhere. -/
def want (t : GroupNames) (name : String) : GroupNames :=
  if name ∈ t.unresolved then t else { t with unresolved := t.unresolved ++ [name] }

end GroupNames

end SpanRegex.Pattern
