import Soundscape.Clip
import Soundscape.Playback.Voice
import Soundscape.Script.Statement

/-!
# Players

A player is the timeline of one instance of a statement.  It waits, fires, and waits again or ends.
A step of time is used up in pieces that end exactly where the player fires, so one large step and
many small ones fire at the same moments and draw the same words.

| statement                     | what it does                                  |
|-------------------------------|-----------------------------------------------|
| `loop`                        | one looping voice, which may end by a fade    |
| `oneshot` without `every`     | one voice that ends by itself                 |
| `oneshot` that may overlap    | such a voice at each firing                   |
| other `oneshot`               | one held voice, started again at each firing  |
-/

namespace Soundscape

/-- Where a player is on its timeline. -/
inductive PlayerState (α : Type) where
  | waitingToStart (remaining : α)
  | playing
  | waitingForNext (remaining : α)
  | fadingOut
  | terminated
  deriving Repr, DecidableEq

/-- The timeline of one instance. -/
structure Player (α : Type) where
  id : Nat
  statement : Statement α
  state : PlayerState α
  source : Source
  /-- The looping voice, or the held voice of a one-shot. -/
  voice : Option (Voice α)

namespace Player

variable {α : Type} [Scalar α]

/-- The shortest time between two firings. -/
def shortestCycle : α := 0.01

/-- A player that waits for its first firing. -/
def new (id : Nat) (statement : Statement α) (source : Source) : Player α :=
  let (delay, source) := statement.startsAt.sampleOr 0 source
  ⟨id, statement, .waitingToStart (Scalar.larger delay 0), source, none⟩

def newFate (statement : Statement α) : Fate := statement.startsAt.fate

def isTerminated (p : Player α) : Bool :=
  match p.state with
  | .terminated => true
  | _ => false

def terminate (p : Player α) : Player α := { p with state := .terminated }

/-- The player as it waits for its next firing. -/
def waitForNext (p : Player α) : Player α :=
  let (wait, source) := p.statement.every.sample p.source
  { p with state := .waitingForNext (Scalar.larger wait shortestCycle), source }

/-- What becomes of making the fade-out due that ends a looping voice. -/
def durationFate (s : Statement α) : Fate :=
  if s.duration.isSet then do
    s.duration.fate
    s.fadeOut.fate
  else pure ()

/-- What becomes of a one-shot that makes a fade-out due and waits for its next firing. -/
def cycleFate (s : Statement α) : Fate := do
  s.fadeOut.fate
  s.every.fate

/-- The player after its looping voice has changed. -/
def followVoice (p : Player α) : Player α :=
  match p.voice with
  | none => p
  | some v =>
    match v.state with
    | .fadingOut _ => { p with state := .fadingOut }
    | .released => { p with state := .terminated, voice := none }
    | _ => p

/-- The time until the player fires, if it will. -/
def wait? (p : Player α) : Option α :=
  match p.state with
  | .waitingToStart remaining | .waitingForNext remaining => some remaining
  | _ => none

/-- The player after some of its wait has passed. -/
def waited (dt : α) (p : Player α) : Player α :=
  match p.state with
  | .waitingToStart remaining => { p with state := .waitingToStart (remaining - dt) }
  | .waitingForNext remaining => { p with state := .waitingForNext (remaining - dt) }
  | _ => p

section Backend

variable {β : Type} [AudioBackend α β]

open AudioBackend

def clipSeconds (fallback : α) (v : Voice α) (b : β) : α :=
  (clipLength b v.handle).getD fallback

/-- Makes the fade-out due that ends a voice of a one-shot together with its clip. -/
def fadeWithClip (fallback : α) (p : Player α) (v : Voice α) (b : β) : Player α × Voice α :=
  let length := clipSeconds fallback v b
  let lifetime := if 0 < v.pitch then length / v.pitch else length
  let (drawn, source) := p.statement.fadeOut.sampleOr 0 p.source
  let fade := Scalar.clamp drawn 0 lifetime
  ({ p with source }, v.scheduleFadeOut (lifetime - fade) fade true)

/-- Makes the fade-out due that ends a looping voice, if its statement has a duration. -/
def fadeAfterDuration (p : Player α) (v : Voice α) : Player α × Voice α :=
  if p.statement.duration.isSet then
    let (drawn, source) := p.statement.duration.sample p.source
    let duration := Scalar.larger drawn 0
    let (drawn, source) := p.statement.fadeOut.sampleOr 0 source
    let fade := Scalar.clamp drawn 0 duration
    ({ p with source }, v.scheduleFadeOut (duration - fade) fade true)
  else (p, v)

/-- Makes the fade-out due that silences a held voice at the end of its clip, if its statement has
one. -/
def fadeCycle (fallback : α) (p : Player α) (v : Voice α) (b : β) : Player α × Voice α :=
  let (drawn, source) := p.statement.fadeOut.sampleOr 0 p.source
  let p := { p with source }
  if drawn ≤ 0 then (p, v)
  else
    let length := clipSeconds fallback v b
    let fade := Scalar.smaller drawn length
    (p, v.scheduleFadeOut (length - fade) fade false)

/-- Stops and releases what the player holds, and ends it. -/
def cancel (p : Player α) (b : β) : Player α × β :=
  match p.voice with
  | some v => ({ p with voice := none, state := .terminated }, (v.kill b).2)
  | none => (p.terminate, b)

variable [Easing α]

/-- Draws the base levels and starts the interpolations of a statement. -/
def drawLevels (s : Statement α) : Draw (Levels α) := do
  let volume ← s.volume.sampleOr 1
  let pitch ← s.pitch.sampleOr 1
  Levels.start volume pitch s.volumeInterpolation s.pitchInterpolation

def levelsFate (s : Statement α) : Fate := do
  s.volume.fate
  s.pitch.fate
  Levels.startFate s.volumeInterpolation s.pitchInterpolation

/-- What becomes of drawing what a voice needs. -/
def openingFate (s : Statement α) : Fate := do
  Placement.fate s.movement
  levelsFate s
  s.fadeIn.fate

/-- Draws what a voice needs after its handle was acquired: placement, levels, the time of its
fade-in, and the seed of its own source. -/
def drawOpening (s : Statement α) : Draw (Placement α × Levels α × α × Source) := do
  let placement ← Placement.sample s.movement s.visuals
  let levels ← drawLevels s
  let fadeIn ← s.fadeIn.sampleOr 0
  let seed ← Draw.word
  pure (placement, levels, Scalar.larger fadeIn 0, .ofSeed seed)

/-- Acquires a handle for a clip and starts it; no voice when the clip cannot be had. -/
def openVoice (looped : Bool) (p : Player α) (b : β) : Player α × Option (Voice α) × β :=
  let (clip, source) := Clip.resolve p.statement.clip p.source
  match acquire b clip with
  | (.error _, b) => ({ p with source }, none, b)
  | (.ok handle, b) =>
    let ((placement, levels, fadeIn, own), source) := drawOpening p.statement source
    let b := place b handle placement
    let (v, b) := Voice.start handle clip levels fadeIn looped own b
    ({ p with source }, some v, b)

/-- What becomes of acquiring a handle and starting it, with what comes after that.  Nothing is drawn
when the clip cannot be had. -/
def openFate (p : Player α) (b : β) (andThen : Fate) : Fate :=
  let (clip, source) := Clip.resolve p.statement.clip p.source
  match (acquire b clip).1 with
  | .error _ => pure ()
  | .ok _ => do
    openingFate p.statement
    let ((_, levels, _, own), _) := drawOpening p.statement source
    Voice.startFate levels own
    andThen

/-- Starts the looping voice. -/
def startLoop (p : Player α) (b : β) : Player α × β :=
  match p.openVoice true b with
  | (p, none, b) => (p.terminate, b)
  | (p, some v, b) =>
    let (p, v) := p.fadeAfterDuration v
    ({ p with voice := some v, state := .playing }, b)

/-- Starts a voice that plays its clip once and ends by itself. -/
def openTransient (fallback : α) (p : Player α) (b : β) : Player α × Option (Voice α) × β :=
  match p.openVoice false b with
  | (p, none, b) => (p, none, b)
  | (p, some v, b) =>
    let (p, v) := p.fadeWithClip fallback v b
    (p, some v, b)

/-- Starts the held voice. -/
def startHeld (fallback : α) (p : Player α) (b : β) : Player α × β :=
  match p.openVoice false b with
  | (p, none, b) => (p.terminate, b)
  | (p, some v, b) =>
    let (p, v) := p.fadeCycle fallback v b
    ({ p with voice := some v }.waitForNext, b)

/-- Draws what a held voice is started again with: the clip, the base pitch unless an interpolation
moves it, the base volume and the time of the fade-in. -/
def drawRestart (s : Statement α) (movesPitch : Bool) :
    Draw (String × Option α × α × α) := do
  let clip ← Clip.resolve s.clip
  let pitch ← if movesPitch then pure none else some <$> s.pitch.sampleOr 1
  let volume ← s.volume.sampleOr 1
  let fadeIn ← s.fadeIn.sampleOr 0
  pure (clip, pitch, volume, Scalar.larger fadeIn 0)

/-- What becomes of drawing what a held voice is started again with. -/
def drawRestartFate (s : Statement α) (movesPitch : Bool) : Fate := do
  if movesPitch then pure () else s.pitch.fate
  s.volume.fate
  s.fadeIn.fate

/-- Starts the held voice again; a voice whose next clip cannot be had is given up. -/
def restartHeld (fallback : α) (p : Player α) (b : β) : Player α × β :=
  match p.voice with
  | none => (p.terminate, b)
  | some v =>
    let ((clip, pitch, volume, fadeIn), source) :=
      drawRestart p.statement v.levels.movesPitch p.source
    let p := { p with source }
    match v.restart clip volume pitch fadeIn b with
    | (.error _, v, b) => ({ p with voice := none, state := .terminated }, (v.kill b).2)
    | (.ok (), v, b) =>
      let (p, v) := p.fadeCycle fallback v b
      ({ p with voice := some v }.waitForNext, b)

/-- What becomes of starting the held voice again. -/
def restartHeldFate (p : Player α) (b : β) : Fate :=
  match p.voice with
  | none => pure ()
  | some v => do
    drawRestartFate p.statement v.levels.movesPitch
    let (clip, pitch, volume, fadeIn) :=
      (drawRestart p.statement v.levels.movesPitch p.source).1
    v.restartFate clip volume pitch fadeIn b (cycleFate p.statement)

/-- Fires: gives the player after it and the voice that it lets go. -/
def fire (fallback : α) (p : Player α) (b : β) : Player α × Option (Voice α) × β :=
  match p.statement.kind with
  | .loop =>
    let (p, b) := p.startLoop b
    (p, none, b)
  | .oneshot =>
    if !p.statement.every.isSet then
      let (p, v, b) := p.openTransient fallback b
      (p.terminate, v, b)
    else if p.statement.overlap then
      let (p, v, b) := p.openTransient fallback b
      (if v.isSome then p.waitForNext else p.terminate, v, b)
    else
      let (p, b) := match p.state with
        | .waitingToStart _ => p.startHeld fallback b
        | _ => p.restartHeld fallback b
      (p, none, b)

/-- What becomes of a player that fires. -/
def fireFate (p : Player α) (b : β) : Fate :=
  let s := p.statement
  match s.kind with
  | .loop => p.openFate b (durationFate s)
  | .oneshot =>
    if !s.every.isSet then p.openFate b s.fadeOut.fate
    else if s.overlap then p.openFate b (cycleFate s)
    else match p.state with
      | .waitingToStart _ => p.openFate b (cycleFate s)
      | _ => p.restartHeldFate b

/-- A step of time for the voice of the player and for voices that it has let go. -/
def advanceVoices (dt : α) (p : Player α) (fresh : List (Voice α)) (b : β) :
    Player α × List (Voice α) × β :=
  match p.voice with
  | some v =>
    let (v, b) := v.advance dt b
    let (fresh, b) := Voice.advanceAll dt fresh b
    ({ p with voice := some v }, fresh, b)
  | none =>
    let (fresh, b) := Voice.advanceAll dt fresh b
    (p, fresh, b)

/-- The state within a step: the time that is left, the player, the voices it has let go in this
step, and the backend. -/
structure Progress (α β : Type) where
  budget : α
  player : Player α
  /-- The voices let go in this step, oldest first. -/
  fresh : List (Voice α)
  backend : β

/-- Uses up all that is left of a step. -/
def Progress.spend (x : Progress α β) (dt : α) : Progress α β :=
  let (player, fresh, backend) := x.player.advanceVoices dt x.fresh x.backend
  { x with player, fresh, backend }

/-- What becomes of the voices while the player uses up some of a step. -/
def Progress.spendFate (x : Progress α β) (dt : α) : Fate :=
  (x.player.voice.toList ++ x.fresh).forM (Voice.advanceFate dt)

/-- One turn of a step: either the player fires and some of the step is left, or the step is
over. -/
def Progress.turn (fallback : α) (x : Progress α β) : Bool × Progress α β :=
  match x.player.wait? with
  | none =>
    let y := x.spend x.budget
    (false, { y with
      player := if y.player.isTerminated then y.player else y.player.followVoice })
  | some remaining =>
    if x.budget + tolerance < remaining then
      let y := x.spend x.budget
      (false, { y with player := y.player.waited x.budget })
    else
      let dt := Scalar.clamp remaining 0 x.budget
      let y := x.spend dt
      let (player, v, backend) := y.player.fire fallback y.backend
      (true, ⟨Scalar.larger (x.budget - dt) 0, player, y.fresh ++ v.toList, backend⟩)

/-- What becomes of one turn of a step. -/
def Progress.turnFate (x : Progress α β) : Fate :=
  match x.player.wait? with
  | none => x.spendFate x.budget
  | some remaining =>
    if x.budget + tolerance < remaining then x.spendFate x.budget
    else do
      let dt := Scalar.clamp remaining 0 x.budget
      x.spendFate dt
      let y := x.spend dt
      y.player.fireFate y.backend

/-- Takes turns until the step is over. -/
def Progress.run (fallback : α) : Nat → Progress α β → Progress α β
  | 0, x => x
  | turns + 1, x =>
    match x.turn fallback with
    | (true, y) => run fallback turns y
    | (false, y) => y

/-- What becomes of taking turns. -/
def Progress.runFate (fallback : α) : Nat → Progress α β → Fate
  | 0, _ => .error .exhausted
  | turns + 1, x => do
    x.turnFate
    match x.turn fallback with
    | (true, y) => runFate fallback turns y
    | (false, _) => pure ()

/-- More turns than a step can hold, since all firings but the first are a shortest cycle apart. -/
def turnBound (dt : α) : Nat := 2 * Scalar.floor (dt / shortestCycle) + 8

/-- A step of time: gives the player after it and the voices let go, which have played to the end
of the step. -/
def advance (dt fallback : α) (p : Player α) (b : β) : Player α × List (Voice α) × β :=
  let dt := Scalar.larger dt 0
  let x := Progress.run fallback (turnBound dt) ⟨dt, p, [], b⟩
  (x.player, x.fresh, x.backend)

def advanceFate (dt fallback : α) (p : Player α) (b : β) : Fate :=
  let dt := Scalar.larger dt 0
  Progress.runFate fallback (turnBound dt) ⟨dt, p, [], b⟩

end Backend

end Player

end Soundscape
