import Soundscape.Number.Shortest

/-!
# How numbers are written

Every number the program writes has the fewest digits that read back.  A `NumberStyle` fixes the
rest: which of two equally near texts is taken, which magnitudes are written positionally, whether
an integral number ends in `.0`, and the words for what is not finite.
-/

namespace Soundscape

/-- The decisions of one way to write numbers. -/
structure NumberStyle where
  /-- Which of two equally near shortest decimals is taken. -/
  tie : Tie
  /-- Which powers of ten of the leading digit are written without an exponent. -/
  positional : Int → Bool
  pointZero : Bool
  /-- The sign before an exponent that is not negative. -/
  exponentPlus : String
  infinity : String
  notANumber : String

namespace Decimal

def digitText (d : Decimal) : String := Nat.repr d.digits

def leading (d : Decimal) : Int := d.digitText.length - 1 + d.exponent

def positional (pointZero : Bool) (d : Decimal) : String :=
  let ds := d.digitText.toList
  let zeros (n : Nat) : List Char := List.replicate n '0'
  let point := ds.length + d.exponent
  String.ofList <|
    if 0 ≤ d.exponent then
      ds ++ zeros d.exponent.toNat ++ (if pointZero then ['.', '0'] else [])
    else if 0 < point then ds.take point.toNat ++ '.' :: ds.drop point.toNat
    else '0' :: '.' :: zeros (-point).toNat ++ ds

/-- The number with one digit before the point and an exponent. -/
def scientific (exponentPlus : String) (d : Decimal) : String :=
  let ds := d.digitText.toList
  let fraction := ds.drop 1
  let mantissa := ds.take 1 ++ (if fraction.isEmpty then [] else '.' :: fraction)
  String.ofList mantissa ++ "e" ++ (if 0 ≤ d.leading then exponentPlus else "-")
    ++ Nat.repr d.leading.natAbs

end Decimal

namespace NumberStyle

def text (style : NumberStyle) : Double → String
  | .nan => style.notANumber
  | .infinite negative => (if negative then "-" else "") ++ style.infinity
  | .finite negative m q =>
    let d := if m = 0 then ⟨0, 0⟩ else Decimal.shortest style.tie m q
    (if negative then "-" else "") ++
      (if style.positional d.leading then d.positional style.pointZero
       else d.scientific style.exponentPlus)

/-- Messages and value texts: no exponents, and nothing after an integral number. -/
def plain : NumberStyle where
  tie := .up
  positional _ := true
  pointZero := false
  exponentPlus := ""
  infinity := "inf"
  notANumber := "NaN"

/-- Structured output: an exponent below `1e-5` and from `1e16` on, and `.0` after an integral
number. -/
def json : NumberStyle where
  tie := .toEven
  positional e := -5 ≤ e && e < 16
  pointZero := true
  exponentPlus := "+"
  infinity := "null"
  notANumber := "null"

/-- Block-style output: as `json`, without the plus sign and with words of its own. -/
def yaml : NumberStyle where
  tie := .toEven
  positional e := -5 ≤ e && e < 16
  pointZero := true
  exponentPlus := ""
  infinity := ".inf"
  notANumber := ".nan"

end NumberStyle

end Soundscape
