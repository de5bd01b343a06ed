import Soundscape.Number.Scalar
import Soundscape.Random.Source

/-!
# Uniform draws from an interval

One word gives a fraction below one, which is spread over the interval.
-/

namespace Soundscape

namespace Draw

/-- A number from `low` to `high`, for `low ≤ high`. -/
def uniform {α : Type} [Scalar α] (low high : α) : Draw α := fun s =>
  let (w, s) := s.next
  (Scalar.fraction w * Scalar.spread low high + low, s)

/-- Whether a number can be drawn: the bounds are in order, and the factor that spreads fractions
from one to the other is finite.  A draw that cannot be made aborts the program. -/
def isPossible {α : Type} [Scalar α] (low high : α) : Bool :=
  decide (low ≤ high) && Scalar.isFinite (Scalar.spread low high)

end Draw

end Soundscape
