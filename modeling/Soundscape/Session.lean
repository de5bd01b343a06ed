import Soundscape.Playback.Scheduler

/-!
# Sessions

A session ties a script, a source of seeds and a scheduler together.  Loading another script leaves
what is playing alone; a hard reset ends all of it.
-/

namespace Soundscape

/-- What a session is started with. -/
structure SessionSetup (α : Type) where
  seed : UInt64
  tickSeconds : α
  /-- The length of a clip whose length is not known. -/
  defaultClipSeconds : α
  strictEasing : Bool

/-- A script that is being played. -/
structure Session (α : Type) where
  setup : SessionSetup α
  source : Source
  script : String
  diagnostics : List (Diagnostic α)
  statements : List (Statement α)
  scheduler : Scheduler α

namespace Session

variable {α : Type} [Scalar α]

def new (setup : SessionSetup α) : Session α :=
  let (seed, source) := (Source.ofSeed setup.seed).next
  ⟨setup, source, "", [], [], .new seed setup.defaultClipSeconds⟩

/-- Loads a script and spawns its statements, next to what is playing. -/
def load (script : String) (s : Session α) : Session α :=
  let (compiled, source) := compile s.setup.strictEasing script s.source
  { s with
    source
    script
    diagnostics := compiled.diagnostics
    statements := compiled.statements
    scheduler := s.scheduler.spawn compiled.statements }

/-- What becomes of loading a script that can be flattened. -/
def loadFate (script : String) (s : Session α) : Fate :=
  Scheduler.spawnFate (compile (α := α) s.setup.strictEasing script s.source).1.statements

/-- The number of instances that the script loaded last has started. -/
def spawned (s : Session α) : Nat := (Scheduler.instances s.statements).length

/-- More turns than ticks of length `step` fit into a time, and then some. -/
def turnBound (seconds step : α) : Nat := 2 * Scalar.floor (seconds / step) + 16

section Backend

variable {β : Type} [AudioBackend α β]

def hardReset (s : Session α) (b : β) : Session α × β :=
  let (scheduler, b) := s.scheduler.hardReset b
  ({ s with scheduler }, b)

variable [Easing α]

def tick (dt : α) (s : Session α) (b : β) : Session α × β :=
  let (scheduler, b) := s.scheduler.tick dt b
  ({ s with scheduler }, b)

/-- Ticks while more than the tolerance remains. -/
def runTicks : Nat → α → Session α → β → Session α × β
  | 0, _, s, b => (s, b)
  | turns + 1, remaining, s, b =>
    if tolerance < remaining then
      let dt := Scalar.smaller s.setup.tickSeconds remaining
      let (s, b) := s.tick dt b
      runTicks turns (remaining - dt) s b
    else (s, b)

/-- Ticks at the session's step until a time has passed. -/
def runFor (seconds : α) (s : Session α) (b : β) : Session α × β :=
  s.runTicks (turnBound seconds s.setup.tickSeconds) seconds b

/-- Ticks until nothing is left to play or the limit, if there is one, is reached. -/
def driveTicks (limit : Option α) : Nat → α → Session α → β → Session α × β × α
  | 0, elapsed, s, b => (s, b, elapsed)
  | turns + 1, elapsed, s, b =>
    if s.scheduler.isIdle then (s, b, elapsed)
    else match limit with
      | some limit =>
        if limit ≤ elapsed + tolerance then (s, b, elapsed)
        else
          let dt := Scalar.smaller s.setup.tickSeconds (limit - elapsed)
          let (s, b) := s.tick dt b
          driveTicks (some limit) turns (elapsed + dt) s b
      | none =>
        let dt := s.setup.tickSeconds
        let (s, b) := s.tick dt b
        driveTicks none turns (elapsed + dt) s b

/-- What becomes of ticking until nothing is left to play or the limit is reached. -/
def driveTicksFate (limit : Option α) : Nat → α → Session α → β → Fate
  | 0, _, _, _ => .error .exhausted
  | turns + 1, elapsed, s, b =>
    if s.scheduler.isIdle then pure ()
    else match limit with
      | some limit =>
        if limit ≤ elapsed + tolerance then pure ()
        else do
          let dt := Scalar.smaller s.setup.tickSeconds (limit - elapsed)
          s.scheduler.tickFate dt b
          let (s, b) := s.tick dt b
          driveTicksFate (some limit) turns (elapsed + dt) s b
      | none => do
        let dt := s.setup.tickSeconds
        s.scheduler.tickFate dt b
        let (s, b) := s.tick dt b
        driveTicksFate none turns (elapsed + dt) s b

/-- The number of turns that stands for no end. -/
def endless : Nat := 0x4000000000000000

/-- What becomes of playing what is loaded. -/
def driveFate (limit : Option α) (s : Session α) (b : β) : Fate :=
  let turns := match limit with
    | some seconds => turnBound seconds s.setup.tickSeconds
    | none => endless
  s.driveTicksFate limit turns 0 b

/-- Plays what is loaded and ends it; gives the time that was played, too. -/
def drive (limit : Option α) (s : Session α) (b : β) : Session α × β × α :=
  let turns := match limit with
    | some seconds => turnBound seconds s.setup.tickSeconds
    | none => endless
  let (s, b, elapsed) := s.driveTicks limit turns 0 b
  let (s, b) := s.hardReset b
  (s, b, elapsed)

end Backend

end Session

end Soundscape
