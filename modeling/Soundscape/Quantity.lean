import Soundscape.Fate
import Soundscape.Random.Uniform
import Soundscape.Text.Blank

/-!
# Quantities

A quantity of a script is a fixed number, a range from which a number is drawn afresh each time,
or nothing at all.  The written form is a number, or two numbers with `..` between them.
-/

namespace Soundscape

/-- A number, a range of numbers, or nothing. -/
inductive Quantity (α : Type) where
  | unset
  | fixed (value : α)
  /-- The numbers from `low` to `high`, both included. -/
  | range (low high : α)
  deriving Repr, DecidableEq, Inhabited

/-- Why a text is no quantity. -/
inductive QuantityError where
  | number (text : String)
  | tooWide (text : String)
  deriving Repr, DecidableEq

def QuantityError.message : QuantityError → String
  | .number text => "invalid number '" ++ text ++ "'"
  | .tooWide text => "range '" ++ text ++ "' is too wide"

namespace Quantity

variable {α : Type} [Scalar α]

def between (a b : α) : Quantity α :=
  if a ≤ b then .range a b else .range b a

def isSet : Quantity α → Bool
  | .unset => false
  | _ => true

/-- This quantity, or the other where nothing is written. -/
def or (q other : Quantity α) : Quantity α :=
  if q.isSet then q else other

def scaledBy (k : α) : Quantity α → Quantity α
  | .unset => .unset
  | .fixed v => .fixed (v * k)
  | .range low high => between (low * k) (high * k)

/-- Whether sampling draws a word: the bounds differ and their distance can be measured. -/
def draws : Quantity α → Bool
  | .range low high => !Scalar.same low high && Scalar.isFinite (high - low)
  | _ => false

/-- Whether sampling aborts the program, with a draw that cannot be made. -/
def aborts : Quantity α → Bool
  | .range low high => (range low high).draws && !Draw.isPossible low high
  | _ => false

def fate (q : Quantity α) : Fate := if q.aborts then .error .aborted else .ok ()

theorem fate_eq_ok {q : Quantity α} : q.fate = .ok () ↔ q.aborts = false := by
  unfold fate
  cases q.aborts
  · exact iff_of_true rfl rfl
  · exact iff_of_false nofun nofun

/-- A number of the quantity.  Only a range draws, and a range too wide to measure or without
width gives its lower bound.  Whether the draw can be made at all is for `fate` to tell. -/
def sample : Quantity α → Draw α
  | .unset => pure 0
  | .fixed v => pure v
  | .range low high => if (range low high).draws then Draw.uniform low high else pure low

/-- A number of the quantity, or `default` where nothing is written. -/
def sampleOr (q : Quantity α) (default : α) : Draw α :=
  if q.isSet then q.sample else pure default

theorem sample_source (q : Quantity α) (s : Source) :
    (q.sample s).2 = if q.draws then s.next.2 else s := by
  cases q with
  | unset => rfl
  | fixed v => rfl
  | range low high => simp only [sample]; split <;> rfl

/-! ## The written form -/

/-- The two sides of the first `..` of a text. -/
def splitDots : List Char → Option (List Char × List Char)
  | '.' :: '.' :: rest => some ([], rest)
  | c :: rest => (splitDots rest).map fun (before, after) => (c :: before, after)
  | [] => none

/-- Reads one finite number, blanks around it aside. -/
def readNumber (cs : List Char) : Except QuantityError α :=
  match (Numeral.read? (Text.trim cs)).bind Scalar.ofNumeral? with
  | some v => if Scalar.isFinite v then .ok v else .error (.number (String.ofList (Text.trim cs)))
  | none => .error (.number (String.ofList (Text.trim cs)))

/-- Reads a quantity; a blank text is `unset`. -/
def read (cs : List Char) : Except QuantityError (Quantity α) :=
  let text := Text.trim cs
  if text.isEmpty then .ok .unset
  else match splitDots text with
    | none => return .fixed (← readNumber text)
    | some (before, after) => do
      let low ← readNumber before
      let high ← readNumber after
      if Scalar.isFinite (high - low) then .ok (between low high) else .error (.tooWide (String.ofList text))

def text : Quantity α → String
  | .unset => "unset"
  | .fixed v => Scalar.text v
  | .range low high => Scalar.text low ++ ".." ++ Scalar.text high

end Quantity

end Soundscape
