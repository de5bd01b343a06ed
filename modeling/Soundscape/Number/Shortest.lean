import Soundscape.Number.Binary64

/-!
# The fewest digits that read back

A positive double `m * 2 ^ q` owns the interval of reals that round to it; the ends belong to it
when `m` is even.  Its shortest decimal is a point of the coarsest power-of-ten grid that has a
point in that interval.  Only the two grid points around the value need a look: when any point of
a grid lies in the interval, one of those two does.
-/

namespace Soundscape

/-- The decimal number `digits * 10 ^ exponent`. -/
structure Decimal where
  digits : Nat
  exponent : Int
  deriving Repr, DecidableEq

/-- Which of two equally near candidates is taken. -/
inductive Tie where
  | up
  | toEven
  deriving Repr, DecidableEq

/-- The choice between `c` and `c + 1`. -/
def Tie.choose (tie : Tie) (c : Nat) : Nat :=
  match tie with
  | .up => c + 1
  | .toEven => if c % 2 = 0 then c else c + 1

namespace Shortest

/-- The interval of reals that round to a double, in quarters of its last binary place. -/
structure Interval where
  low : Nat
  value : Nat
  high : Nat
  closed : Bool

/-- The interval of `m * 2 ^ q`: half a place to each side, a quarter below the start of a binade. -/
def Interval.of (m : Nat) (q : Int) : Interval where
  low := 4 * m - (if m = Double.binadeStart ∧ Double.leastExponent < q then 1 else 2)
  value := 4 * m
  high := 4 * m + 2
  closed := m % 2 == 0

/-- A power-of-ten grid laid over the quarters: `c` steps of the grid are `c * step` where one
quarter is `quarter`. -/
structure Grid where
  step : Nat
  quarter : Nat

/-- The grid of the multiples of `10 ^ j`, for quarters of size `2 ^ (q - 2)`. -/
def Grid.of (q j : Int) : Grid where
  step := Nat.pow 10 j.toNat * Nat.pow 2 (2 - q).toNat
  quarter := Nat.pow 10 (-j).toNat * Nat.pow 2 (q - 2).toNat

/-- Whether `c` steps of the grid lie in the interval. -/
def Interval.holds (i : Interval) (g : Grid) (c : Nat) : Bool :=
  if i.closed then i.low * g.quarter ≤ c * g.step && c * g.step ≤ i.high * g.quarter
  else i.low * g.quarter < c * g.step && c * g.step < i.high * g.quarter

/-- The grid point of the interval nearest to the value. -/
def Interval.nearest? (i : Interval) (g : Grid) (tie : Tie) : Option Nat :=
  let c := i.value * g.quarter / g.step
  match i.holds g c, i.holds g (c + 1) with
  | false, false => none
  | true, false => some c
  | false, true => some (c + 1)
  | true, true =>
    let below := i.value * g.quarter - c * g.step
    let above := (c + 1) * g.step - i.value * g.quarter
    some (if below < above then c else if above < below then c + 1 else tie.choose c)

/-- Tries the grids of `10 ^ j`, `10 ^ (j - 1)`, and so on; the last one tried is cut short. -/
def search (tie : Tie) (i : Interval) (q : Int) : Nat → Int → Decimal
  | 0, j =>
    let g := Grid.of q j
    ⟨i.value * g.quarter / g.step, j⟩
  | turns + 1, j =>
    match i.nearest? (Grid.of q j) tie with
    | some c => ⟨c, j⟩
    | none => search tie i q turns (j - 1)

/-- An exponent of ten whose grid is coarser than `m * 2 ^ q`. -/
def coarse (m : Nat) (q : Int) : Int :=
  (m.log2 + q) * 30103 / 100000 + 2

end Shortest

/-- The shortest decimal that reads back as `m * 2 ^ q`, and the nearest of those. -/
def Decimal.shortest (tie : Tie) (m : Nat) (q : Int) : Decimal :=
  Shortest.search tie (.of m q) q 40 (Shortest.coarse m q)

end Soundscape
