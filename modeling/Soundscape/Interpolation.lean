import Soundscape.Ease
import Soundscape.Quantity

/-!
# Interpolations

An interpolation describes how a level moves between two ends in cycles of some length.  It only
describes: the ends and the length are quantities, and a `Playhead` draws them anew each cycle.
-/

namespace Soundscape

/-- How the cycles of an interpolation run. -/
inductive Motion where
  /-- From the lower end to the upper end, a number of times. -/
  | interpolate
  /-- From the lower end to the upper end, once, and then it stays there. -/
  | goto
  /-- To the upper end and back, for ever unless a number of times is given. -/
  | gobetween
  deriving Repr, DecidableEq

namespace Motion

/-- The name of the motion in structured output. -/
def name : Motion → String
  | interpolate => "Interpolate"
  | goto => "Goto"
  | gobetween => "GoBetween"

/-- The motion of a keyword, in any ASCII case. -/
def ofKeyword? (word : List Char) : Option Motion :=
  match String.ofList (Text.lower word) with
  | "interpolate" => some interpolate
  | "goto" => some goto
  | "gobetween" => some gobetween
  | _ => none

end Motion

/-- How a level moves. -/
structure Interpolation (α : Type) where
  motion : Motion
  low : Quantity α
  high : Quantity α
  duration : Quantity α
  easeName : String
  ease : Ease
  /-- The number of cycles, unless it runs for ever. -/
  repeats : Nat
  forever : Bool
  deriving Repr, DecidableEq

namespace Interpolation

variable {α : Type}

/-- An interpolation with the number of cycles its motion has by itself. -/
def plain (motion : Motion) (low high duration : Quantity α) (easeName : String) :
    Interpolation α where
  motion := motion
  low := low
  high := high
  duration := duration
  easeName := easeName
  ease := Ease.ofName easeName
  repeats := 1
  forever := motion == .gobetween

/-- The interpolation with a number of cycles, at least one. -/
def times (n : Nat) (i : Interpolation α) : Interpolation α :=
  { i with repeats := max n 1, forever := false }

def endless (i : Interpolation α) : Interpolation α := { i with forever := true }

/-- What becomes of drawing the ends and the length of a cycle. -/
def fate [Scalar α] (i : Interpolation α) : Fate := do
  i.low.fate
  i.high.fate
  i.duration.fate

theorem fate_eq [Scalar α] (i : Interpolation α) :
    i.fate = .ok () ∨ i.fate = .error .aborted := by
  unfold fate Quantity.fate
  cases i.low.aborts
  · cases i.high.aborts
    · cases i.duration.aborts
      · exact .inl rfl
      · exact .inr rfl
    · exact .inr rfl
  · exact .inr rfl

end Interpolation

end Soundscape
