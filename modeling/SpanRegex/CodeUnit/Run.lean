import SpanRegex.Text

/-! # Runs of code units

A property of code units is given as an ascending list of runs.

* `Run`: every `step`-th unit from `first` to `last`.
* `Run.decides`: membership in an ascending list of runs, settled by the first run that does not
  end before the unit.
-/

namespace SpanRegex
set_option autoImplicit false

/-- The code units `first`, `first + step`, … up to `last`. -/
structure Run where
  first : Nat
  last : Nat
  step : Nat := 1

namespace Run

def holds (r : Run) (n : Nat) : Bool := r.first ≤ n && n ≤ r.last && (n - r.first) % r.step == 0

/-- Membership in ascending runs: the first run that ends at or after the number decides. -/
def decides : List Run → Nat → Bool
  | [], _ => false
  | r :: rest, n => if n ≤ r.last then r.holds n else decides rest n

end Run

end SpanRegex
