/-!
# Double-precision numbers, decoded

A finite double is a significand times a power of two, with a sign.  Everything that must be exact
about doubles (the fewest digits, rounding to places) is computed on this form in `Nat` and `Int`.
-/

namespace Soundscape

/-- What the sixty-four bits of a double stand for. -/
inductive Double where
  /-- The number `significand * 2 ^ exponent`, negated when `negative`; zero keeps its sign. -/
  | finite (negative : Bool) (significand : Nat) (exponent : Int)
  | infinite (negative : Bool)
  | nan
  deriving Repr, DecidableEq

namespace Double

/-- The exponent of the last binary place of the smallest doubles. -/
def leastExponent : Int := -1074

/-- The significand of the least double of each full binade. -/
def binadeStart : Nat := 0x10000000000000

def ofBits (bits : Nat) : Double :=
  let negative := decide (0x8000000000000000 ≤ bits)
  let biased : Nat := bits / binadeStart % 2048
  let fraction : Nat := bits % binadeStart
  if biased = 2047 then
    if fraction = 0 then .infinite negative else .nan
  else if biased = 0 then .finite negative fraction leastExponent
  else .finite negative (binadeStart + fraction) ((biased : Int) - 1075)

def ofFloat (x : Float) : Double :=
  ofBits x.toBits.toNat

end Double

end Soundscape
