/-! # Stores

A store holds one value for each node number; a number that has not been written holds the
default value.

* `Store`, `Store.get`, `Store.set`; `Store.get_set` says what a write changes.
-/

namespace SpanRegex
set_option autoImplicit false

/-- Values by number. -/
structure Store (α : Type) where
  cells : Array α := #[]
  deriving DecidableEq

namespace Store

variable {α : Type} [Inhabited α]

instance : Inhabited (Store α) := ⟨{}⟩

def get (s : Store α) (i : Nat) : α := s.cells.getD i default

def set (s : Store α) (i : Nat) (a : α) : Store α :=
  if h : i < s.cells.size then ⟨s.cells.set i a⟩
  else ⟨(s.cells ++ Array.replicate (i - s.cells.size) default).push a⟩

@[simp] theorem get_set (s : Store α) (i j : Nat) (a : α) :
    (s.set i a).get j = if i = j then a else s.get j := by
  unfold set get
  split
  · rename_i h
    simp only [Array.getD_eq_getD_getElem?, Array.getElem?_set]
    by_cases hij : i = j <;> simp [hij]
  · rename_i h
    simp only [Array.getD_eq_getD_getElem?, Array.getElem?_push, Array.size_append,
      Array.size_replicate, Array.getElem?_append, Array.getElem?_replicate]
    by_cases hij : i = j
    · subst hij
      rw [if_pos (by omega)]
      simp
    · rw [if_neg (by omega), if_neg hij]
      by_cases hj : j < s.cells.size
      · simp [hj]
      · by_cases hk : j - s.cells.size < i - s.cells.size <;> simp [hj, hk]

end Store

end SpanRegex
