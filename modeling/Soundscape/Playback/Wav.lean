import Soundscape.Files
import Soundscape.Playback.Recording
import Soundscape.Playback.WavHeader

/-!
# The backend over WAV files

Clips are the WAV files below a root.  The backend reads a clip's header when the clip is first
asked for, and keeps its length from then on.
-/

namespace Soundscape

/-- What is known of a live handle of a WAV backend. -/
structure WavHandle (α : Type) where
  clip : String
  length : α
  volume : α
  pitch : α
  playing : Bool

/-- A backend over WAV files. -/
structure Wav (α : Type) where
  root : String
  store : Store
  lengths : List (String × α)
  acquired : Nat
  live : LiveHandles (WavHandle α)
  /-- The paths that were looked at, the latest first. -/
  looked : List String

namespace Wav

/-- A path below a directory; a path that starts at the top stands for itself. -/
def join (dir path : String) : String :=
  if path.startsWith "/" || dir.isEmpty then path
  else if dir.endsWith "/" then dir ++ path
  else dir ++ "/" ++ path

/-- Whether a name ends like that of a WAV file, in any ASCII case. -/
def isWavName (clip : String) : Bool :=
  ['v', 'a', 'w', '.'].isPrefixOf (clip.toList.map Char.toLower).reverse

variable {α : Type}

/-- A backend that has not been asked for anything. -/
def new (root : String) (store : Store) : Wav α := ⟨root, store, [], 0, [], []⟩

def clipPath (w : Wav α) (clip : String) : String :=
  join w.root (if isWavName clip then clip else clip ++ ".wav")

variable [Scalar α]

def secondsOf (h : WavHeader) : α :=
  if h.rate = 0 then 0 else Scalar.ofNat h.frames / Scalar.ofNat h.rate

/-- The length of a clip as its file tells it. -/
def readLength (w : Wav α) (clip : String) : Except BackendError α :=
  let path := w.clipPath clip
  match w.store.read path with
  | .error _ => .error (.clipNotFound clip path)
  | .ok bytes =>
    match WavHeader.read bytes with
    | .error e => .error (.decode clip e.message)
    | .ok h => .ok (secondsOf h)

/-- The length of a clip. -/
def probe (w : Wav α) (clip : String) : Except BackendError α × Wav α :=
  match w.lengths.lookup clip with
  | some length => (.ok length, w)
  | none =>
    let w := { w with looked := w.clipPath clip :: w.looked }
    match w.readLength clip with
    | .ok length => (.ok length, { w with lengths := (clip, length) :: w.lengths })
    | .error e => (.error e, w)

/-- Asks for a handle with a clip. -/
def acquire (w : Wav α) (clip : String) : Except BackendError Handle × Wav α :=
  match w.probe clip with
  | (.error e, w) => (.error e, w)
  | (.ok length, w) =>
    let h : Handle := ⟨w.acquired + 1⟩
    (.ok h,
      { w with
        acquired := w.acquired + 1
        live := w.live ++ [(h, ⟨clip, length, 0, 1, false⟩)] })

/-- Gives a handle another clip, which does not play yet. -/
def loadClip (w : Wav α) (h : Handle) (clip : String) : Except BackendError Unit × Wav α :=
  match w.probe clip with
  | (.error e, w) => (.error e, w)
  | (.ok length, w) =>
    (if w.live.holds h then .ok () else .error (.unknownHandle h),
      { w with live := w.live.update h fun s => { s with clip, length, playing := false } })

def change (w : Wav α) (h : Handle) (f : WavHandle α → WavHandle α) : Wav α :=
  { w with live := w.live.update h f }

instance : AudioBackend α (Wav α) where
  acquire := acquire
  loadClip := loadClip
  setVolume w h v := w.change h fun s => { s with volume := v }
  setPitch w h v := w.change h fun s => { s with pitch := v }
  play w h _ := w.change h fun s => { s with playing := true }
  stop w h := w.change h fun s => { s with playing := false }
  release w h := { w with live := w.live.erase h }
  clipLength w h := (w.live.find? h).map fun s => s.length
  place w _ _ := w

end Wav

end Soundscape
