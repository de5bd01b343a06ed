import Soundscape.Script.Tree

/-!
# Placement

Where a sound is and what is seen with it, fixed when the sound starts.  A wandering sound has a
box to wander in; a sound at one point has a box without extent.
-/

namespace Soundscape

/-- How a placed sound moves. -/
inductive MovementMode where
  | still
  | walk
  | fly
  | fixed
  deriving Repr, DecidableEq

/-- The word for a mode. -/
def MovementMode.name : MovementMode → String
  | still => "none"
  | walk => "walk"
  | fly => "fly"
  | fixed => "fixed"

/-- A point in space. -/
structure Point (α : Type) where
  x : α
  y : α
  z : α
  deriving Repr, DecidableEq

/-- Where a sound is and what is seen with it. -/
structure Placement (α : Type) where
  mode : MovementMode
  low : Point α
  high : Point α
  frequency : α
  visuals : List Visual
  deriving Repr, DecidableEq

namespace Placement

variable {α : Type} [Scalar α]

def magnitude (v : α) : α := if v < 0 then -v else if 0 < v then v else if v ≤ v then 0 else v

/-- The stretch that a quantity spans: a range as it is, one number from its negative to itself. -/
def extent : Quantity α → α × α
  | .range low high => (low, high)
  | .fixed v => (-magnitude v, magnitude v)
  | .unset => (0, 0)

/-- The placement of one sound with a movement. -/
def sample (movement : Movement α) (visuals : List Visual) : Draw (Placement α) :=
  match movement with
  | .still => pure ⟨.still, ⟨0, 0, 0⟩, ⟨0, 0, 0⟩, 0, visuals⟩
  | .walk x z speed => do
    let xs := extent x
    let zs := extent z
    pure ⟨.walk, ⟨xs.1, 0, zs.1⟩, ⟨xs.2, 0, zs.2⟩, ← speed.sample, visuals⟩
  | .fly x y z speed => do
    let xs := extent x
    let ys := extent y
    let zs := extent z
    pure ⟨.fly, ⟨xs.1, ys.1, zs.1⟩, ⟨xs.2, ys.2, zs.2⟩, ← speed.sample, visuals⟩
  | .fixed x y z => do
    let point := ⟨← x.sample, ← y.sample, ← z.sample⟩
    pure ⟨.fixed, point, point, 0, visuals⟩

/-- What becomes of drawing a placement. -/
def fate : Movement α → Fate
  | .still => pure ()
  | .walk _ _ speed => speed.fate
  | .fly _ _ _ speed => speed.fate
  | .fixed x y z => do
    x.fate
    y.fate
    z.fate

end Placement

end Soundscape
