import Soundscape.Number.Scalar

/-!
# Gain

A gain is a factor on the volume.  It can glide to a target at a constant rate, and it arrives as
soon as no more than the tolerance is left.
-/

namespace Soundscape

/-- The time by which a moment may be missed and still counts as reached. -/
def tolerance {α : Type} [Scalar α] : α := 1e-9

/-- A glide from one level to another. -/
structure Ramp (α : Type) where
  start : α
  target : α
  length : α
  elapsed : α
  deriving Repr, DecidableEq

/-- A factor on the volume. -/
structure Gain (α : Type) where
  level : α
  ramp : Option (Ramp α)
  deriving Repr, DecidableEq

namespace Gain

variable {α : Type} [Scalar α]

def unity : Gain α := ⟨1, none⟩

/-- Starts to glide from the present level to a target. -/
def fadeTo (target length : α) (g : Gain α) : Gain α :=
  { g with ramp := some ⟨g.level, target, Scalar.larger length 0, 0⟩ }

def fadeIn (length : α) : Gain α := fadeTo 1 length ⟨0, none⟩

/-- The gain after a step of time. -/
def advance (dt : α) (g : Gain α) : Gain α :=
  match g.ramp with
  | none => g
  | some r =>
    let elapsed := r.elapsed + dt
    if r.length ≤ 0 ∨ r.length ≤ elapsed + tolerance then ⟨r.target, none⟩
    else
      ⟨r.start + (r.target - r.start) * (elapsed / r.length), some { r with elapsed }⟩

def isSettled (g : Gain α) : Bool := g.ramp.isNone

theorem advance_of_isSettled {g : Gain α} (h : g.isSettled) (dt : α) : g.advance dt = g := by
  unfold isSettled at h
  unfold advance
  split
  · rfl
  · simp_all

end Gain

end Soundscape
