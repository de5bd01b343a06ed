import Soundscape.Interpolation.Levels
import Soundscape.Playback.Backend
import Soundscape.Playback.Gain

/-!
# Voices

A voice is one handle and all that shapes its sound over time: its levels, a gain for fades, and a
fade-out that may be due later.  When a fade-out has reached silence the handle is stopped, and
released if that was asked for.  Nothing is written to a handle after its release.
-/

namespace Soundscape

/-- What a voice is doing. -/
inductive VoiceState where
  | playing
  /-- It falls to silence, and then gives its handle back if `release`. -/
  | fadingOut (release : Bool)
  | stopped
  | released
  deriving Repr, DecidableEq

namespace VoiceState

/-- The name of a state in structured output. -/
def name : VoiceState → String
  | playing => "Playing"
  | fadingOut _ => "FadingOut"
  | stopped => "Stopped"
  | released => "Released"

/-- Whether a voice in the state can be heard. -/
def isSounding : VoiceState → Bool
  | playing | fadingOut _ => true
  | _ => false

end VoiceState

/-- A fade-out that is due later. -/
structure PendingFade (α : Type) where
  delay : α
  length : α
  /-- Whether the handle is given back at its end. -/
  release : Bool
  deriving Repr, DecidableEq

/-- One handle and what shapes its sound. -/
structure Voice (α : Type) where
  handle : Handle
  clip : String
  levels : Levels α
  gain : Gain α
  /-- Where the draws of its levels come from. -/
  source : Source
  pending : Option (PendingFade α)
  state : VoiceState
  /-- The volume last written. -/
  volume : α
  pitch : α

namespace Voice

variable {α : Type} [Scalar α]

def isReleased (v : Voice α) : Bool := v.state == .released

/-- The gain that a sound starts with.  A `goto` starts at its own first level, so it needs no
fade. -/
def openingGain (levels : Levels α) (fadeIn : α) : Gain α :=
  if levels.gotoStart.isSome ∨ fadeIn ≤ tolerance then .unity else .fadeIn fadeIn

def scheduleFadeOut (delay length : α) (release : Bool) (v : Voice α) : Voice α :=
  { v with pending := some ⟨Scalar.larger delay 0, Scalar.larger length 0, release⟩ }

/-- Starts to fade out, if the voice is playing. -/
def beginFadeOut (length : α) (release : Bool) (v : Voice α) : Voice α :=
  if v.state = .playing then
    { v with gain := v.gain.fadeTo 0 length, state := .fadingOut release }
  else v

section Backend

variable {β : Type} [AudioBackend α β]

open AudioBackend

/-- Stops and releases at once. -/
def kill (v : Voice α) (b : β) : Voice α × β :=
  if v.isReleased then (v, b)
  else
    let b := if v.state.isSounding then stop b v.handle else b
    ({ v with pending := none, state := .released }, release b v.handle)

/-- Ends a fade-out that has reached silence. -/
def finishFade (v : Voice α) (b : β) : Voice α × β :=
  match v.state with
  | .fadingOut true =>
    if v.gain.isSettled then
      ({ v with state := .released }, release (stop b v.handle) v.handle)
    else (v, b)
  | .fadingOut false =>
    if v.gain.isSettled then ({ v with state := .stopped }, stop b v.handle) else (v, b)
  | _ => (v, b)

/-- Writes a volume and a pitch to the handle, if the voice can be heard. -/
def write (volume pitch : α) (v : Voice α) (b : β) : Voice α × β :=
  if v.state.isSounding then
    ({ v with volume, pitch }, setPitch (setVolume b v.handle volume) v.handle pitch)
  else (v, b)

variable [Easing α]

/-- The volume and the pitch after a step of time. -/
def shape (dt : α) (v : Voice α) : Voice α × α × α :=
  let gain := v.gain.advance dt
  let ((levels, volume), source) := v.levels.volume dt v.source
  let ((levels, pitch), source) := levels.pitch dt source
  ({ v with gain, levels, source }, volume * gain.level, pitch)

/-- What becomes of a step of time in which no fade-out begins. -/
def stepFate (dt : α) (v : Voice α) : Fate := v.levels.advanceFate dt v.source

/-- A step of time in which no fade-out begins. -/
def step (dt : α) (v : Voice α) (b : β) : Voice α × β :=
  let (v, volume, pitch) := v.shape dt
  let (v, b) := v.write volume pitch b
  v.finishFade b

/-- Begins to play a handle that has its clip: writes the opening levels, then plays. -/
def start (handle : Handle) (clip : String) (levels : Levels α) (fadeIn : α) (looped : Bool)
    (source : Source) (b : β) : Voice α × β :=
  let v : Voice α :=
    { handle, clip, levels, gain := openingGain levels fadeIn, source, pending := none,
      state := .playing, volume := 0, pitch := 1 }
  let (v, b) := v.step 0 b
  (v, play b handle looped)

/-- What becomes of beginning to play: the opening levels are written. -/
def startFate (levels : Levels α) (source : Source) : Fate := levels.advanceFate 0 source

/-- Begins to play a held handle again, with another clip and other base levels.  Without a base
pitch the pitch goes on as it is.  When the clip cannot be had, the handle is left silent. -/
def restart (clip : String) (baseVolume : α) (basePitch : Option α) (fadeIn : α) (v : Voice α)
    (b : β) : Except BackendError Unit × Voice α × β :=
  if v.isReleased then (.error (.unknownHandle v.handle), v, b)
  else
    let v := { v with pending := none }
    let b := if v.state = .stopped then b else stop b v.handle
    match loadClip b v.handle clip with
    | (.error e, b) => (.error e, v, b)
    | (.ok (), b) =>
      let levels := { v.levels with
        baseVolume, basePitch := basePitch.getD v.levels.basePitch }
      let (levels, source) := levels.rewindGoto v.source
      let v := { v with
        clip, levels, source, gain := openingGain levels fadeIn, state := .playing }
      let (v, b) := v.step 0 b
      (.ok (), v, play b v.handle false)

/-- What becomes of playing a held handle again once it has its clip. -/
def reloadFate (v : Voice α) : Fate := do
  v.levels.rewindFate
  let (levels, source) := v.levels.rewindGoto v.source
  startFate levels source

/-- What becomes of beginning to play a held handle again, with what comes after that.  Nothing is
drawn when the clip cannot be had. -/
def restartFate (clip : String) (baseVolume : α) (basePitch : Option α) (fadeIn : α) (v : Voice α)
    (b : β) (andThen : Fate) : Fate :=
  match (v.restart clip baseVolume basePitch fadeIn b).1 with
  | .error _ => pure ()
  | .ok () => do
    v.reloadFate
    andThen

/-- A step of time, which is cut where the fade-out that is due begins. -/
def advance (dt : α) (v : Voice α) (b : β) : Voice α × β :=
  if v.isReleased then (v, b)
  else
    let dt := Scalar.larger dt 0
    match v.pending with
    | none => v.step dt b
    | some fade =>
      if fade.delay ≤ dt + tolerance then
        let before := Scalar.smaller fade.delay dt
        let (v, b) := v.step before b
        let v := { v with pending := none }.beginFadeOut fade.length fade.release
        v.step (Scalar.larger (dt - before) 0) b
      else
        { v with pending := some { fade with delay := fade.delay - dt } }.step dt b

/-- What becomes of a step of time. -/
def advanceFate (dt : α) (v : Voice α) : Fate :=
  if v.isReleased then pure ()
  else
    let dt := Scalar.larger dt 0
    match v.pending with
    | none => v.stepFate dt
    | some fade =>
      if fade.delay ≤ dt + tolerance then do
        let before := Scalar.smaller fade.delay dt
        v.stepFate before
        (v.shape before).1.stepFate (Scalar.larger (dt - before) 0)
      else v.stepFate dt

/-- A step of time for several voices, one after the other. -/
def advanceAll (dt : α) : List (Voice α) → β → List (Voice α) × β
  | [], b => ([], b)
  | v :: vs, b =>
    let (v, b) := v.advance dt b
    let (vs, b) := advanceAll dt vs b
    (v :: vs, b)

/-- Stops and releases several voices at once, one after the other. -/
def killAll : List (Voice α) → β → List (Voice α) × β
  | [], b => ([], b)
  | v :: vs, b =>
    let (v, b) := v.kill b
    let (vs, b) := killAll vs b
    (v :: vs, b)

end Backend

end Voice

end Soundscape
