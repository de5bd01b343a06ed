import Soundscape.Number.Numeral

/-!
# Plain scalars

A plain scalar of a block-style text is a word without quotes.  Some words mean nothing, a truth
value or a number; all others are texts.  Writing needs this to know when a text must be quoted,
reading needs it to know what a word means.
-/

namespace Soundscape

namespace PlainScalar

open Numeral (isDigit)

def isNull (s : String) : Bool := ["", "~", "null", "Null", "NULL"].contains s

def bool? (s : String) : Option Bool :=
  if ["true", "True", "TRUE"].contains s then some true
  else if ["false", "False", "FALSE"].contains s then some false
  else none

def dropSign : List Char → List Char
  | '+' :: cs | '-' :: cs => cs
  | cs => cs

def hasSign (cs : List Char) : Bool := cs.head? == some '+' || cs.head? == some '-'

/-- Whether a word has digits only, of which the first of several is a zero; it is no number. -/
def isPaddedDigits (cs : List Char) : Bool :=
  match dropSign cs with
  | '0' :: d :: ds => (d :: ds).all isDigit
  | _ => false

/-- The value of a digit of a base. -/
def digit? (base : Nat) (c : Char) : Option Nat :=
  let n :=
    if isDigit c then c.toNat - '0'.toNat
    else if 'a' ≤ c ∧ c ≤ 'z' then c.toNat - 'a'.toNat + 10
    else if 'A' ≤ c ∧ c ≤ 'Z' then c.toNat - 'A'.toNat + 10
    else base
  if n < base then some n else none

/-- The number that digits of a base denote. -/
def digits? (base : Nat) (cs : List Char) : Option Nat :=
  if cs.isEmpty then none
  else cs.foldl (fun n? c => do return base * (← n?) + (← digit? base c)) (some 0)

/-- The natural number that a word without a sign denotes: digits, or the digits of another base
after its mark. -/
def unsigned? : List Char → Option Nat
  | '0' :: 'x' :: cs => digits? 16 cs
  | '0' :: 'o' :: cs => digits? 8 cs
  | '0' :: 'b' :: cs => digits? 2 cs
  | cs => if isPaddedDigits cs then none else digits? 10 cs

def natural? : List Char → Option Nat
  | '+' :: cs => unsigned? cs
  | cs => unsigned? cs

/-- Whether a word is a whole number of at most 128 bits. -/
def isInteger (cs : List Char) : Bool :=
  match cs with
  | '-' :: rest => (unsigned? rest).any (· ≤ Nat.pow 2 127)
  | _ => (natural? cs).any (· < Nat.pow 2 128)

/-- The number that a word denotes, whole or not. -/
def number? (cs : List Char) : Option Numeral :=
  let word := String.ofList cs
  let body := match cs with
    | '+' :: rest => rest
    | _ => cs
  if cs.head? == some '+' && hasSign body then none
  else if [".inf", ".Inf", ".INF"].contains (String.ofList body) then some (.infinite false)
  else if ["-.inf", "-.Inf", "-.INF"].contains word then some (.infinite true)
  else if [".nan", ".NaN", ".NAN"].contains word then some .nan
  else match Numeral.read? body with
    | some n => if n.toFloat.isFinite then some n else none
    | none => none

/-- Whether a word would not be read as a text. -/
def isReserved (s : String) : Bool :=
  isNull s || (bool? s).isSome || isInteger s.toList || (number? s.toList).isSome

end PlainScalar

end Soundscape
