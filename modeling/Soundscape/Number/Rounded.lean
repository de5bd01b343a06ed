import Soundscape.Number.Binary64

/-!
# Numbers rounded to nine places

A measured quantity is shown to nine places after the point, or from a thousand on to ten
significant digits with an exponent.  Rounding starts from the exact binary value, and a tie goes
to the even neighbour.
-/

namespace Soundscape

namespace Rounded

/-- The quotient rounded to the nearest natural number, a tie to the even one. -/
def divide (num den : Nat) : Nat :=
  let q := num / den
  let r := num % den
  if 2 * r < den then q
  else if den < 2 * r then q + 1
  else q + q % 2

/-- The fraction `m * 2 ^ q * 10 ^ j` as numerator and denominator. -/
def fraction (m : Nat) (q j : Int) : Nat × Nat :=
  (m * Nat.pow 2 q.toNat * Nat.pow 10 j.toNat, Nat.pow 2 (-q).toNat * Nat.pow 10 (-j).toNat)

/-- A natural number with at least `width` digits. -/
def padded (width n : Nat) : String :=
  let ds := Nat.toDigits 10 n
  String.ofList (List.replicate (width - ds.length) '0' ++ ds)

def nine (n : Nat) : String :=
  Nat.repr (n / 1000000000) ++ "." ++ padded 9 (n % 1000000000)

/-- The power of ten of the leading digit of a fraction that is at least one. -/
def leading (num den : Nat) : Nat :=
  (Nat.toDigits 10 (num / den)).length - 1

/-- Ten significant digits and the power of ten of the first, for a number from one on. -/
def significant (m : Nat) (q : Int) : Nat × Nat :=
  let whole := fraction m q 0
  let e := leading whole.1 whole.2
  let scaled := fraction m q (9 - (e : Int))
  let n := divide scaled.1 scaled.2
  if n = 10000000000 then (1000000000, e + 1) else (n, e)

end Rounded

open Rounded in
/-- The text of a measured quantity; zero has no sign. -/
def Double.rounded : Double → String
  | .nan => "NaN"
  | .infinite negative => if negative then "-inf" else "inf"
  | .finite negative m q =>
    let whole := fraction m q 0
    if whole.1 < 1000 * whole.2 then
      let scaled := fraction m q 9
      let n := divide scaled.1 scaled.2
      (if negative && n != 0 then "-" else "") ++ nine n
    else
      let (n, e) := significant m q
      (if negative then "-" else "") ++ nine n ++ "e" ++ Nat.repr e

end Soundscape
