import Soundscape.Playback.Placement

/-!
# Backends

A backend is what makes the sound.  The scheduler asks it for handles, sets their volume and pitch
and tells them when to play and to stop.  A backend is a state; each call gives the state after it.
Calls on a handle that is not live change nothing that can be heard.
-/

namespace Soundscape

/-- One acquired player of clips. -/
structure Handle where
  /-- Its number, from one; numbers are not used again. -/
  number : Nat
  deriving Repr, DecidableEq

def Handle.text (h : Handle) : String := "#" ++ Nat.repr h.number

/-- Why a backend cannot give what it is asked for. -/
inductive BackendError where
  /-- There is no such clip at the path it should have. -/
  | clipNotFound (clip path : String)
  | decode (clip reason : String)
  | unknownHandle (handle : Handle)
  deriving Repr, DecidableEq

def BackendError.message : BackendError → String
  | clipNotFound clip path => "clip '" ++ clip ++ "' not found at " ++ path
  | decode clip reason => "failed to read clip '" ++ clip ++ "': " ++ reason
  | unknownHandle handle => "unknown handle " ++ handle.text

/-- States that can be asked to play clips. -/
class AudioBackend (α : outParam Type) (β : Type) where
  acquire : β → String → Except BackendError Handle × β
  loadClip : β → Handle → String → Except BackendError Unit × β
  setVolume : β → Handle → α → β
  setPitch : β → Handle → α → β
  /-- Plays the clip from its start, over and over if `looped`. -/
  play : β → Handle → (looped : Bool) → β
  stop : β → Handle → β
  release : β → Handle → β
  /-- The length of the handle's clip in seconds at pitch one, if it is known. -/
  clipLength : β → Handle → Option α
  place : β → Handle → Placement α → β

/-- A call, as it is asked for. -/
inductive Request (α : Type) where
  | acquire (clip : String)
  | loadClip (handle : Handle) (clip : String)
  | setVolume (handle : Handle) (volume : α)
  | setPitch (handle : Handle) (pitch : α)
  | play (handle : Handle) (looped : Bool)
  | stop (handle : Handle)
  | release (handle : Handle)
  | place (handle : Handle) (placement : Placement α)
  | clipLength (handle : Handle)
  deriving Repr, DecidableEq

/-- What a call answers. -/
inductive Reply (α : Type) where
  | nothing
  | handle (h : Handle)
  | loaded
  | refused (e : BackendError)
  /-- The length of a clip, if it is known. -/
  | length (seconds : Option α)
  deriving Repr, DecidableEq

namespace AudioBackend

variable {α β : Type} [AudioBackend α β]

/-- Makes a call: gives its answer and the backend after it. -/
def perform (b : β) : Request α → Reply α × β
  | .acquire clip =>
    match acquire b clip with
    | (.ok h, b) => (.handle h, b)
    | (.error e, b) => (.refused e, b)
  | .loadClip h clip =>
    match loadClip b h clip with
    | (.ok (), b) => (.loaded, b)
    | (.error e, b) => (.refused e, b)
  | .setVolume h v => (.nothing, setVolume b h v)
  | .setPitch h v => (.nothing, setPitch b h v)
  | .play h looped => (.nothing, play b h looped)
  | .stop h => (.nothing, stop b h)
  | .release h => (.nothing, release b h)
  | .place h p => (.nothing, place b h p)
  | .clipLength h => (.length (clipLength b h), b)

theorem perform_acquire_snd (b : β) (clip : String) :
    (perform b (.acquire clip)).2 = (acquire b clip).2 := by
  unfold perform
  dsimp only
  rcases acquire b clip with ⟨e | h, b⟩ <;> rfl

theorem perform_loadClip_snd (b : β) (h : Handle) (clip : String) :
    (perform b (.loadClip h clip)).2 = (loadClip b h clip).2 := by
  unfold perform
  dsimp only
  rcases loadClip b h clip with ⟨e | ⟨⟩, b⟩ <;> rfl

/-- Makes calls one after the other; gives all answers. -/
def performAll (b : β) : List (Request α) → List (Reply α) × β
  | [] => ([], b)
  | r :: rs =>
    let (reply, b) := perform b r
    let (replies, b) := performAll b rs
    (reply :: replies, b)

end AudioBackend

/-- A backend whose clip lengths are kept back. -/
structure Unmeasured (β : Type) where
  backend : β

instance {α β : Type} [AudioBackend α β] : AudioBackend α (Unmeasured β) where
  acquire b clip := let (r, b) := AudioBackend.acquire b.backend clip; (r, ⟨b⟩)
  loadClip b h clip := let (r, b) := AudioBackend.loadClip b.backend h clip; (r, ⟨b⟩)
  setVolume b h v := ⟨AudioBackend.setVolume b.backend h v⟩
  setPitch b h v := ⟨AudioBackend.setPitch b.backend h v⟩
  play b h looped := ⟨AudioBackend.play b.backend h looped⟩
  stop b h := ⟨AudioBackend.stop b.backend h⟩
  release b h := ⟨AudioBackend.release b.backend h⟩
  clipLength _ _ := none
  place b h p := ⟨AudioBackend.place b.backend h p⟩

end Soundscape
