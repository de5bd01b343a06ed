import Soundscape.Interpolation

/-!
# Playheads

A playhead is one run of an interpolation.  It keeps the ends and the length drawn for the cycle it
is in, and the time that has passed in it.  Advancing adds a step of time and then takes one turn
per cycle that has passed; the turns taken do not depend on how the time was cut into steps.
-/

namespace Soundscape

/-- One run of an interpolation. -/
structure Playhead (α : Type) where
  spec : Interpolation α
  low : α
  high : α
  /-- The time from one end to the other in this cycle. -/
  duration : α
  /-- The time that has passed in this cycle. -/
  time : α
  /-- The number of cycles completed, where they are counted. -/
  completed : Nat
  active : Bool
  /-- Whether the level was last seen on its way back. -/
  returning : Bool

namespace Playhead

variable {α : Type} [Scalar α]

/-- New ends and a new length. -/
def resample (p : Playhead α) : Draw (Playhead α) := do
  let low ← p.spec.low.sample
  let high ← p.spec.high.sample
  let duration ← p.spec.duration.sample
  pure { p with low, high, duration }

def start (spec : Interpolation α) : Draw (Playhead α) :=
  resample ⟨spec, 0, 0, 0, 0, 0, true, false⟩

/-- The run from its start again, with new ends and a new length. -/
def reset (p : Playhead α) : Draw (Playhead α) :=
  resample { p with time := 0, completed := 0, active := true, returning := false }

/-- Another run of the same interpolation, from its start. -/
def another (p : Playhead α) : Draw (Playhead α) := start p.spec

/-! ## Turns -/

/-- The length of a cycle: there, or there and back. -/
def cycleLength (p : Playhead α) : α :=
  match p.spec.motion with
  | .gobetween => 2.0 * p.duration
  | _ => p.duration

/-- The level at the end of a cycle. -/
def cycleEnd (p : Playhead α) : α :=
  match p.spec.motion with
  | .gobetween => p.low
  | _ => p.high

def restingValue (p : Playhead α) : α :=
  match p.spec.motion with
  | .goto => p.high
  | _ => p.low

/-- What a turn comes to. -/
inductive Turn (α : Type) where
  | within (p : Playhead α)
  | over (p : Playhead α)
  /-- A cycle has passed, and the next one is drawn. -/
  | passed (p : Playhead α)

def ended (p : Playhead α) : Playhead α := { p with active := false }

/-- Takes away one cycle, if it has passed.  The only cycle of a `goto` ends the run and so does a
cycle without length. -/
def turn (p : Playhead α) : Draw (Turn α) :=
  if p.cycleLength ≤ p.time then
    if p.spec.motion = .goto ∨ p.duration ≤ 0 then pure (.over p.ended)
    else
      let q := { p with time := p.time - p.cycleLength }
      if p.spec.forever then return .passed (← q.resample)
      else
        let q := { q with completed := q.completed + 1 }
        if p.spec.repeats ≤ q.completed then pure (.over q.ended)
        else return .passed (← q.resample)
  else pure (.within p)

/-- A positive number such that no positive sample of the quantity is smaller. -/
def leastPositive : Quantity α → α
  | .unset => 0
  | .fixed v => v
  | .range low high => Scalar.leastDrawn low high

/-- More turns than the time so far can hold: a counted run has no more turns than cycles, and in
an endless one no cycle is shorter than the least positive duration or than the present one. -/
def turnBound (p : Playhead α) : Nat :=
  if p.spec.forever then
    2 * Scalar.floor (p.time / leastPositive p.spec.duration) + 16
  else p.spec.repeats - p.completed + 2

/-- Takes turns until the time lies within a cycle or the run is over; the outcome is `passed` only
if the turns did not suffice. -/
def settle : Nat → Playhead α → Source → Turn α × Source
  | 0, p, s => (.passed p, s)
  | turns + 1, p, s =>
    match p.turn s with
    | (.passed q, s) => settle turns q s
    | (outcome, s) => (outcome, s)

/-- What becomes of taking turns: each cycle that passes draws the next one. -/
def settleFate : Nat → Playhead α → Source → Fate
  | 0, _, _ => .error .exhausted
  | turns + 1, p, s =>
    match p.turn s with
    | (.passed q, s) => do
      p.spec.fate
      settleFate turns q s
    | _ => pure ()

/-! ## Levels -/

variable [Easing α]

/-- The level on the way from one end to the other.  Only the progress is clamped, the share of the
cycle reaches the curve as it is. -/
def eased (p : Playhead α) (start stop share : α) : α :=
  start + (stop - start) * Scalar.clamp (Easing.curve p.spec.ease share) 0 1

/-- The level within a cycle, and the direction it was seen in. -/
def level (p : Playhead α) : Playhead α × α :=
  match p.spec.motion with
  | .gobetween =>
    if p.time < p.duration then
      ({ p with returning := false }, p.eased p.low p.high (p.time / p.duration))
    else
      ({ p with returning := true },
        p.eased p.high p.low ((p.time - p.duration) / p.duration))
  | _ => (p, p.eased p.low p.high (p.time / p.duration))

/-- What becomes of another step of time. -/
def advanceFate (dt : α) (p : Playhead α) (s : Source) : Fate :=
  if p.active then
    let p := { p with time := p.time + dt }
    settleFate p.turnBound p s
  else pure ()

/-- The run after another step of time, and its level then.  Where the turns do not suffice the
fate is `exhausted`, and the level stands for none. -/
def advance (p : Playhead α) (dt : α) : Draw (Playhead α × α) := fun s =>
  if p.active then
    let p := { p with time := p.time + dt }
    match settle p.turnBound p s with
    | (.within q, s) | (.passed q, s) => (q.level, s)
    | (.over q, s) => ((q, q.cycleEnd), s)
  else ((p, p.restingValue), s)

end Playhead

end Soundscape
