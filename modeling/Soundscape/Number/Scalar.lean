import Soundscape.Number.Numeral
import Soundscape.Number.Style

/-!
# The numbers of a script

Times, levels and random values are numbers of some type `α`.  The program runs on doubles; the
laws of time and level are stated on exact fractions, where adding up steps loses nothing.  Both
are instances of `Scalar`, so one set of definitions serves both.
-/

namespace Soundscape

/-- Numbers that can be computed with, compared, read, written and drawn. -/
class Scalar (α : Type) extends Zero α, One α, Add α, Sub α, Mul α, Div α, Neg α, LE α, LT α,
    OfScientific α where
  decLe : DecidableLE α
  decLt : DecidableLT α
  isFinite : α → Bool
  ofNat : Nat → α
  /-- The largest natural number that is not above, zero for a negative number. -/
  floor : α → Nat
  /-- The number that a numeral says, rounded to this type, if it has it. -/
  ofNumeral? : Numeral → Option α
  text : α → String
  /-- The upper 52 bits of a word as a fraction of one. -/
  fraction : UInt64 → α
  /-- The factor that spreads such fractions over the interval from the first number to the
  second, without ever passing the second. -/
  spread : α → α → α
  /-- A positive number that no positive number drawn between the two is below. -/
  leastDrawn : α → α → α

attribute [reducible, instance] Scalar.decLe Scalar.decLt

namespace Scalar

variable {α : Type} [Scalar α]

/-- Equality as comparison sees it: signed zeros are the same, and what is no number differs from
itself. -/
def same (a b : α) : Bool := decide (a ≤ b) && decide (b ≤ a)

/-- The larger of two numbers, or the one that is a number. -/
def larger (a b : α) : α :=
  if a ≤ b then b else if a ≤ a then a else b

/-- The smaller of two numbers, or the one that is a number. -/
def smaller (a b : α) : α :=
  if a ≤ b then a else if b ≤ b then b else a

/-- The number moved into the interval from `low` to `high`. -/
def clamp (x low high : α) : α :=
  let x := if x < low then low else x
  if high < x then high else x

/-- The natural number that a number is, if it is one. -/
def natural? (x : α) : Option Nat :=
  if same x (ofNat (floor x)) then some (floor x) else none

end Scalar

/-! ## Doubles -/

def largestFraction : Float := 1.0 - 2.220446049250313e-16

/-- The first of the doubles with bit patterns `n`, `n - 1`, … that fits. -/
def firstFitting (fits : Float → Bool) : Nat → Float
  | 0 => 0.0
  | n + 1 =>
    let x := Float.ofBits (n + 1).toUInt64
    if fits x then x else firstFitting fits n

/-- The factor that spreads fractions over an interval of doubles: the largest one that takes no
fraction past its end. -/
def spreadDoubles (low high : Float) : Float :=
  let scale := (high - low) / largestFraction
  if scale.isFinite then
    firstFitting (fun s => !(high < s * largestFraction + low)) scale.toBits.toNat
  else scale

/-- A positive number that no positive double drawn between the two is below.  From a negative
number the first doubles above zero are as far apart as those below its magnitude. -/
def leastDrawnDouble (low high : Float) : Float :=
  if 0.0 < low then low
  else if low < 0.0 then
    let size := -low
    size - Float.ofBits (size.toBits - 1)
  else
    let step := spreadDoubles low high * 2.220446049250313e-16
    if 0.0 < step then step else Float.ofBits 1

instance : Scalar Float where
  zero := 0.0
  one := 1.0
  decLe a b := Float.decLe a b
  decLt a b := Float.decLt a b
  isFinite x := x.isFinite
  ofNat n := n.toFloat
  floor x := x.toUInt64.toNat
  ofNumeral? n := some n.toFloat
  text x := NumberStyle.plain.text (.ofFloat x)
  fraction w := Float.ofBits ((w >>> 12) ||| 0x3ff0000000000000) - 1.0
  spread := spreadDoubles
  leastDrawn := leastDrawnDouble

/-! ## Exact fractions -/

/-- The text of a fraction: numerator, bar and denominator. -/
def fractionText (x : Rat) : String :=
  toString x.num ++ (if x.den = 1 then "" else "/" ++ Nat.repr x.den)

def spreadFractions (low high : Rat) : Rat := (high - low) / (1 - mkRat 1 Double.binadeStart)

/-- The first number above zero that is `low` and some steps. -/
def leastStepped (low step : Rat) : Rat :=
  if 0 < low then low else Rat.ofInt ((-low / step).floor + 1) * step + low

/-- The least positive number drawn between the two.  The draws are the same in either order. -/
def leastDrawnFraction (low high : Rat) : Rat :=
  let step := spreadFractions low high * mkRat 1 Double.binadeStart
  if step < 0 then leastStepped high (-step) else leastStepped low step

instance : Scalar Rat where
  zero := 0
  one := 1
  decLe a b := inferInstanceAs (Decidable (a ≤ b))
  decLt a b := inferInstanceAs (Decidable (a < b))
  isFinite _ := true
  ofNat n := Rat.ofInt n
  floor x := x.floor.toNat
  ofNumeral? n := n.toRat?
  text := fractionText
  fraction w := mkRat (w >>> 12).toNat Double.binadeStart
  spread := spreadFractions
  leastDrawn := leastDrawnFraction

end Soundscape
