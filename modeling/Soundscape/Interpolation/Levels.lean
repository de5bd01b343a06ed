import Soundscape.Interpolation.Playhead

/-!
# Volume and pitch of one sound

Each of the two levels has a base value and may have an interpolation.  The interpolation has its
say while its run is on; a finished `goto` holds its end, and any other finished run gives way to
the base value.
-/

namespace Soundscape

/-- Where a sound takes its volume and pitch from. -/
structure Levels (α : Type) where
  baseVolume : α
  basePitch : α
  volumeRun : Option (Playhead α)
  pitchRun : Option (Playhead α)

namespace Levels

variable {α : Type} [Scalar α]

/-- Starts the runs of the two levels, the volume's first. -/
def start (baseVolume basePitch : α) (volume pitch : Option (Interpolation α)) :
    Draw (Levels α) := do
  let volumeRun ← volume.mapM Playhead.start
  let pitchRun ← pitch.mapM Playhead.start
  pure { baseVolume, basePitch, volumeRun, pitchRun }

def movesPitch (l : Levels α) : Bool := l.pitchRun.isSome

def isGoto (p : Playhead α) : Bool := p.spec.motion == .goto

/-- Starts the volume's `goto` again with new draws; any other run goes on. -/
def rewindGoto (l : Levels α) : Draw (Levels α) :=
  match l.volumeRun with
  | some p =>
    if isGoto p then return { l with volumeRun := some (← p.reset) } else pure l
  | none => pure l

/-- What becomes of starting the runs of two levels. -/
def startFate (volume pitch : Option (Interpolation α)) : Fate := do
  volume.forM Interpolation.fate
  pitch.forM Interpolation.fate

def rewindFate (l : Levels α) : Fate :=
  (l.volumeRun.filter isGoto).forM fun p => p.spec.fate

/-- The level at which the volume's `goto` starts, if it has one. -/
def gotoStart (l : Levels α) : Option α :=
  (l.volumeRun.filter isGoto).map Playhead.low

variable [Easing α]

/-- One level after a step of time. -/
def axis (run : Option (Playhead α)) (base dt : α) : Draw (Option (Playhead α) × α) :=
  match run with
  | some p =>
    if isGoto p || p.active then do
      let (q, v) ← p.advance dt
      pure (some q, v)
    else pure (some p, base)
  | none => pure (none, base)

/-- What becomes of one level in a step of time. -/
def axisFate (run : Option (Playhead α)) (dt : α) (s : Source) : Fate :=
  match run with
  | some p => if isGoto p || p.active then p.advanceFate dt s else pure ()
  | none => pure ()

def volume (l : Levels α) (dt : α) : Draw (Levels α × α) := do
  let (volumeRun, v) ← axis l.volumeRun l.baseVolume dt
  pure ({ l with volumeRun }, v)

def pitch (l : Levels α) (dt : α) : Draw (Levels α × α) := do
  let (pitchRun, v) ← axis l.pitchRun l.basePitch dt
  pure ({ l with pitchRun }, v)

/-- What becomes of both levels in a step of time, the volume first. -/
def advanceFate (dt : α) (l : Levels α) (s : Source) : Fate := do
  axisFate l.volumeRun dt s
  axisFate l.pitchRun dt (l.volume dt s).2

end Levels

end Soundscape
