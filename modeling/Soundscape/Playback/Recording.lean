import Soundscape.Playback.Backend

/-!
# The recording backend

A recording makes no sound.  It keeps the calls on live handles in order, the state of the live
handles, and the number of calls on handles that were not live.  Clips have the lengths that it is
told, and some can be missing.
-/

namespace Soundscape

/-- A call on a live handle. -/
inductive Call (α : Type) where
  | acquire (handle : Handle) (clip : String)
  | loadClip (handle : Handle) (clip : String)
  | setVolume (handle : Handle) (volume : α)
  | setPitch (handle : Handle) (pitch : α)
  | play (handle : Handle) (looped : Bool)
  | stop (handle : Handle)
  | release (handle : Handle)
  | place (handle : Handle) (placement : Placement α)
  deriving Repr, DecidableEq

namespace Call

variable {α : Type}

def handle : Call α → Handle
  | acquire h _ | loadClip h _ | setVolume h _ | setPitch h _ | play h _ | stop h | release h
  | place h _ => h

/-- Whether the call is more than an update of a level. -/
def isLifecycle : Call α → Bool
  | setVolume _ _ | setPitch _ _ => false
  | _ => true

end Call

/-- What is known of a live handle. -/
structure HandleState (α : Type) where
  clip : String
  volume : Option α
  pitch : Option α
  playing : Bool
  deriving Repr, DecidableEq

/-- The handles that are live, in the order they were acquired. -/
abbrev LiveHandles (A : Type) := List (Handle × A)

namespace LiveHandles

variable {A : Type}

/-- What is known of a handle, if it is live. -/
def find? (live : LiveHandles A) (h : Handle) : Option A := List.lookup h live

def holds (live : LiveHandles A) (h : Handle) : Bool := (find? live h).isSome

def update (live : LiveHandles A) (h : Handle) (f : A → A) : LiveHandles A :=
  live.map fun x => if x.1 = h then (x.1, f x.2) else x

def erase (live : LiveHandles A) (h : Handle) : LiveHandles A :=
  live.filter fun x => x.1 ≠ h

theorem find?_cons (x : Handle × A) (live : LiveHandles A) (h : Handle) :
    find? (x :: live) h = if h = x.1 then some x.2 else find? live h := by
  obtain ⟨k, a⟩ := x
  rw [find?, List.lookup_cons, ← find?]
  by_cases e : h = k
  · simp [e]
  · simp [e, beq_eq_false_iff_ne.mpr e]

theorem find?_update (live : LiveHandles A) (h k : Handle) (f : A → A) :
    (live.update h f).find? k = if k = h then (live.find? k).map f else live.find? k := by
  induction live with
  | nil => simp [update, find?]
  | cons x live ih =>
    rw [update, List.map_cons, ← update, find?_cons, find?_cons, ih]
    by_cases hx : x.1 = h <;> by_cases hk : k = h <;> by_cases e : k = x.1 <;> simp_all

theorem find?_erase (live : LiveHandles A) (h k : Handle) :
    (live.erase h).find? k = if k = h then none else live.find? k := by
  induction live with
  | nil => simp [erase, find?]
  | cons x live ih =>
    rw [erase, List.filter_cons, ← erase]
    by_cases hx : x.1 = h
    · simp only [hx, ne_eq, not_true_eq_false, decide_false, Bool.false_eq_true, if_false, ih,
        find?_cons]
      by_cases hk : k = h <;> simp [hk]
    · simp only [hx, ne_eq, not_false_eq_true, decide_true, if_true, find?_cons, ih]
      by_cases hk : k = h
      · subst hk
        simp [Ne.symm hx]
      · simp [hk]

end LiveHandles

/-- A backend that keeps what it was called for. -/
structure Recording (α : Type) where
  /-- The length of every clip that has none of its own. -/
  defaultLength : α
  lengths : List (String × α)
  missing : List String
  calls : Array (Call α)
  acquired : Nat
  live : LiveHandles (HandleState α)
  /-- The number of calls on handles that were not live. -/
  stale : Nat

namespace Recording

variable {α : Type}

def empty (defaultLength : α) (lengths : List (String × α)) (missing : List String) :
    Recording α :=
  ⟨defaultLength, lengths, missing, #[], 0, [], 0⟩

/-- The calls that are more than updates of levels, in order. -/
def lifecycle (r : Recording α) : List (Call α) := r.calls.toList.filter Call.isLifecycle

def notFound (clip : String) : BackendError := .clipNotFound clip clip

/-- A call on a handle: recorded together with a change of the handle's state when it is live,
counted when it is not. -/
def onLive (r : Recording α) (h : Handle) (call : Call α)
    (change : HandleState α → HandleState α) : Recording α :=
  if r.live.holds h then
    { r with live := r.live.update h change, calls := r.calls.push call }
  else { r with stale := r.stale + 1 }

@[simp] theorem onLive_calls (r : Recording α) (h : Handle) (call : Call α)
    (change : HandleState α → HandleState α) :
    (r.onLive h call change).calls = if r.live.holds h then r.calls.push call else r.calls := by
  unfold onLive
  split <;> rfl

@[simp] theorem onLive_stale (r : Recording α) (h : Handle) (call : Call α)
    (change : HandleState α → HandleState α) :
    (r.onLive h call change).stale = if r.live.holds h then r.stale else r.stale + 1 := by
  unfold onLive
  split <;> rfl

/-- Asks for a handle with a clip. -/
def acquire (r : Recording α) (clip : String) : Except BackendError Handle × Recording α :=
  if r.missing.contains clip then (.error (notFound clip), r)
  else
    let h : Handle := ⟨r.acquired + 1⟩
    (.ok h,
      { r with
        acquired := r.acquired + 1
        live := r.live ++ [(h, ⟨clip, none, none, false⟩)]
        calls := r.calls.push (.acquire h clip) })

/-- Gives a handle another clip, which does not play yet. -/
def loadClip (r : Recording α) (h : Handle) (clip : String) :
    Except BackendError Unit × Recording α :=
  if r.missing.contains clip then (.error (notFound clip), r)
  else
    (if r.live.holds h then .ok () else .error (.unknownHandle h),
      r.onLive h (.loadClip h clip) fun s => { s with clip, playing := false })

def release (r : Recording α) (h : Handle) : Recording α :=
  if r.live.holds h then
    { r with live := r.live.erase h, calls := r.calls.push (.release h) }
  else { r with stale := r.stale + 1 }

def lengthOf (r : Recording α) (clip : String) : α :=
  (r.lengths.lookup clip).getD r.defaultLength

instance : AudioBackend α (Recording α) where
  acquire := acquire
  loadClip := loadClip
  setVolume r h v := r.onLive h (.setVolume h v) fun s => { s with volume := some v }
  setPitch r h v := r.onLive h (.setPitch h v) fun s => { s with pitch := some v }
  play r h looped := r.onLive h (.play h looped) fun s => { s with playing := true }
  stop r h := r.onLive h (.stop h) fun s => { s with playing := false }
  release := release
  clipLength r h := (r.live.find? h).map fun s => r.lengthOf s.clip
  place r h p := r.onLive h (.place h p) id

end Recording

end Soundscape
