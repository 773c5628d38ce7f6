/-!
# Sorted ranges of code points

* `inRanges` : membership in a table of closed ranges listed in increasing order.
-/

namespace Avr.Text

/-- Whether `n` lies in one of the ranges, which are listed in increasing order, ends included. -/
def inRanges : List (Nat × Nat) → Nat → Bool
  | [], _ => false
  | (lo, hi) :: rest, n => if n < lo then false else decide (n ≤ hi) || inRanges rest n

end Avr.Text
