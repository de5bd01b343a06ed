/-!
# Reading numbers

The written form of a number is an optional sign and then either digits with at most one point and
at most one exponent, or a word for infinity or for no number, in any case.  A `Numeral` is what
such a text says, before any rounding.
-/

namespace Soundscape

/-- What the text of a number says. -/
inductive Numeral where
  /-- The number `digits * 10 ^ exponent`, negated when `negative`. -/
  | decimal (negative : Bool) (digits : Nat) (exponent : Int)
  | infinite (negative : Bool)
  | nan
  deriving Repr, DecidableEq

namespace Numeral

def isDigit (c : Char) : Bool := '0' ≤ c && c ≤ '9'

def digitValue (c : Char) : Nat := c.toNat - '0'.toNat

def natural (ds : List Char) : Nat :=
  ds.foldl (fun n c => 10 * n + digitValue c) 0

/-- The sign in front of a text, and the rest. -/
def sign : List Char → Bool × List Char
  | '-' :: cs => (true, cs)
  | '+' :: cs => (false, cs)
  | cs => (false, cs)

/-- The exponent at the end of a numeral: nothing, or `e` and a signed run of digits. -/
def exponent? : List Char → Option Int
  | [] => some 0
  | c :: cs =>
    if c = 'e' ∨ c = 'E' then
      let (negative, ds) := sign cs
      if ds.isEmpty || !ds.all isDigit then none
      else some (if negative then -(natural ds : Int) else natural ds)
    else none

/-- The digits before and after the point, and the rest. -/
def mantissa (cs : List Char) : List Char × List Char × List Char :=
  let whole := cs.takeWhile isDigit
  match cs.dropWhile isDigit with
  | '.' :: rest => (whole, rest.takeWhile isDigit, rest.dropWhile isDigit)
  | rest => (whole, [], rest)

def magnitude? (negative : Bool) (cs : List Char) : Option Numeral :=
  let (whole, fraction, rest) := mantissa cs
  if whole.isEmpty && fraction.isEmpty then
    let word := String.ofList (cs.map Char.toLower)
    if word = "inf" ∨ word = "infinity" then some (infinite negative)
    else if word = "nan" then some nan
    else none
  else
    (exponent? rest).map fun e =>
      decimal negative (natural (whole ++ fraction)) (e - fraction.length)

/-- What a text says as a number, if it is one. -/
def read? (cs : List Char) : Option Numeral :=
  let (negative, rest) := sign cs
  magnitude? negative rest

/-- The nearest double; a tie goes to the even one. -/
def toFloat : Numeral → Float
  | nan => 0.0 / 0.0
  | infinite negative => if negative then -1.0 / 0.0 else 1.0 / 0.0
  | decimal negative digits exponent =>
    let size : Int := digits.log2 * 30103 / 100000
    let x : Float :=
      if digits = 0 then 0.0
      else if 310 < size + exponent then 1.0 / 0.0
      else if size + exponent < -330 then 0.0
      else if exponent < 0 then Float.ofScientific digits true exponent.natAbs
      else Float.ofScientific digits false exponent.natAbs
    if negative then -x else x

def toRat? : Numeral → Option Rat
  | decimal negative digits exponent =>
    let scale := Nat.pow 10 exponent.natAbs
    let x := if exponent < 0 then mkRat digits scale else Rat.ofInt (digits * scale)
    some (if negative then -x else x)
  | _ => none

end Numeral

end Soundscape
