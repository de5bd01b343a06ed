import Mathlib.Algebra.Order.Field.Rat
import Mathlib.Tactic.NormNum
import Soundscape.Number.Scalar

/-!
# Exact numbers

What holds of a curve at every number holds wherever nothing is rounded: in an ordered field whose
decimals are what they say.  The exact fractions are such numbers (`Fraction.exact`).  A square root
leaves them, and the real numbers are such numbers as well, however they are drawn and written, so
the laws of curves are stated for all of these fields at once.
-/

namespace Soundscape

/-- Numbers that are computed with in an ordered field. -/
class ExactScalar (α : Type) extends Field α, LinearOrder α, IsStrictOrderedRing α, Scalar α where
  /-- A decimal is the number of its digits over a power of ten. -/
  decimal_eq (digits places : Nat) :
    (OfScientific.ofScientific digits true places : α) = digits / 10 ^ places

@[reducible] def Fraction.exact : ExactScalar Rat where
  __ := (inferInstance : Field Rat)
  __ := (inferInstance : LinearOrder Rat)
  __ := (inferInstance : IsStrictOrderedRing Rat)
  __ := (inferInstance : Scalar Rat)
  decimal_eq digits places := by
    show Rat.ofScientific digits true places = _
    rw [Rat.ofScientific_true_def, Rat.mkRat_eq_div]
    norm_num

namespace ExactScalar

variable {α : Type} [ExactScalar α]

theorem larger_self (x : α) : Scalar.larger x x = x := if_pos le_rfl

theorem clamp_of_mem {x low high : α} (hlow : low ≤ x) (hhigh : x ≤ high) :
    Scalar.clamp x low high = x := by
  unfold Scalar.clamp
  rw [if_neg (not_lt.mpr hlow)]
  exact if_neg (not_lt.mpr hhigh)

end ExactScalar

end Soundscape
