import Soundscape.Playback.Player

/-!
# The scheduler

The scheduler has the players of all instances and the voices that outlive the instance that
started them, and moves them all on one clock.  Each instance has its own source, seeded from the
scheduler's when it is spawned, so the draws of one do not depend on the others.
-/

namespace Soundscape

/-- All that plays. -/
structure Scheduler (α : Type) where
  players : List (Player α)
  voices : List (Voice α)
  /-- Where the seeds of the instances come from. -/
  source : Source
  nextId : Nat
  elapsed : α
  /-- The length of a clip whose length is not known. -/
  fallback : α

namespace Scheduler

variable {α : Type} [Scalar α]

/-- The length of a clip whose length is not known, unless another is given. -/
def defaultFallback : α := 2.0

def new (seed : UInt64) (fallback : α) : Scheduler α :=
  ⟨[], [], .ofSeed seed, 0, 0, Scalar.larger fallback 0⟩

/-- Spawns one instance of a statement. -/
def spawnOne (s : Scheduler α) (statement : Statement α) : Scheduler α :=
  let (seed, source) := s.source.next
  { s with
    players := s.players ++ [.new s.nextId statement (.ofSeed seed)]
    source
    nextId := s.nextId + 1 }

/-- The statement of each instance that a list of statements asks for, in order. -/
def instances (statements : List (Statement α)) : List (Statement α) :=
  statements.flatMap fun s => List.replicate s.count s

/-- Spawns all instances of statements, next to those that are there. -/
def spawn (statements : List (Statement α)) (s : Scheduler α) : Scheduler α :=
  (instances statements).foldl spawnOne s

def spawnFate (statements : List (Statement α)) : Fate :=
  (instances statements).forM Player.newFate

/-- The number of voices held, by instances or by none. -/
def voiceCount (s : Scheduler α) : Nat :=
  s.voices.length + (s.players.filter fun p => p.voice.isSome).length

def isIdle (s : Scheduler α) : Bool := s.players.isEmpty && s.voices.isEmpty

section Backend

variable {β : Type} [AudioBackend α β]

def cancelAll : List (Player α) → β → β
  | [], b => b
  | p :: ps, b => cancelAll ps (p.cancel b).2

def hardReset (s : Scheduler α) (b : β) : Scheduler α × β :=
  let b := cancelAll s.players b
  let b := (Voice.killAll s.voices b).2
  ({ s with players := [], voices := [] }, b)

variable [Easing α]

/-- A step of time for players, one after the other; gives the voices they let go, too. -/
def advanceAll (dt fallback : α) :
    List (Player α) → β → List (Player α) × List (Voice α) × β
  | [], b => ([], [], b)
  | p :: ps, b =>
    let (p, fresh, b) := p.advance dt fallback b
    let (ps, more, b) := advanceAll dt fallback ps b
    (p :: ps, fresh ++ more, b)

/-- What becomes of players that take a step of time. -/
def advanceAllFate (dt fallback : α) : List (Player α) → β → Fate
  | [], _ => pure ()
  | p :: ps, b => do
    p.advanceFate dt fallback b
    advanceAllFate dt fallback ps (p.advance dt fallback b).2.2

/-- A step of time.  What is over is dropped. -/
def tick (dt : α) (s : Scheduler α) (b : β) : Scheduler α × β :=
  let dt := Scalar.larger dt 0
  let (voices, b) := Voice.advanceAll dt s.voices b
  let (players, fresh, b) := advanceAll dt s.fallback s.players b
  let isHeld (v : Voice α) : Bool := !v.isReleased
  ({ s with
    players := players.filter fun p => !p.isTerminated
    voices := voices.filter isHeld ++ fresh.filter isHeld
    elapsed := s.elapsed + dt }, b)

/-- What becomes of a step of time.  Where one instance does not come back, none does. -/
def tickFate (dt : α) (s : Scheduler α) (b : β) : Fate := do
  let dt := Scalar.larger dt 0
  s.voices.forM (Voice.advanceFate dt)
  advanceAllFate dt s.fallback s.players (Voice.advanceAll dt s.voices b).2

/-- What can be asked of a scheduler. -/
inductive Event (α : Type) where
  | spawn (statements : List (Statement α))
  | tick (dt : α)
  | hardReset

/-- The scheduler and its backend after an event. -/
def handle (s : Scheduler α) (b : β) : Event α → Scheduler α × β
  | .spawn statements => (s.spawn statements, b)
  | .tick dt => s.tick dt b
  | .hardReset => s.hardReset b

def handleFate (s : Scheduler α) (b : β) : Event α → Fate
  | .spawn statements => spawnFate statements
  | .tick dt => s.tickFate dt b
  | .hardReset => pure ()

/-- The scheduler and its backend after events, one after the other. -/
def handleAll (s : Scheduler α) (b : β) : List (Event α) → Scheduler α × β
  | [] => (s, b)
  | e :: es =>
    let (s, b) := s.handle b e
    s.handleAll b es

end Backend

end Scheduler

end Soundscape
