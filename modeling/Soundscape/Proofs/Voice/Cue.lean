import Soundscape.Playback.Voice

/-!
# What a voice tells its handle

A voice reaches its backend through its own handle alone, and but for the answer of `loadClip` it
never looks back.  So an operation of a voice is a list of cues that depends on the voice and
the time only.  `Notes` is a backend that writes the cues down:

* `Voice.advance_eq`, `Voice.kill_eq`, `Voice.start_eq`, `Voice.restart_eq`: on every backend an
  operation gives the voice that it gives on `Notes`, and the backend is told what was noted;
* `Voice.stepped_cases`, `Voice.next_cases`: all that a step and an advance can do;
* `Voice.next_onHandle`, `Voice.tells_onHandle`: which handle it is makes no difference.
-/

namespace Soundscape

/-- What a voice can tell its handle. -/
inductive Cue (α : Type) where
  | setVolume (volume : α)
  | setPitch (pitch : α)
  | play (looped : Bool)
  | stop
  | release
  | place (placement : Placement α)
  deriving Repr, DecidableEq

namespace Cue

variable {α : Type}

def isWrite : Cue α → Bool
  | setVolume _ | setPitch _ => true
  | _ => false

/-- The cues that are more than updates of levels. -/
def lifecycle (cs : List (Cue α)) : List (Cue α) := cs.filter fun c => !c.isWrite

@[simp] theorem lifecycle_append (cs ds : List (Cue α)) :
    lifecycle (cs ++ ds) = lifecycle cs ++ lifecycle ds := by
  simp [lifecycle]

end Cue

section Tell

variable {α β : Type} [AudioBackend α β]

open AudioBackend

/-- The backend after a handle was told a cue. -/
def tell (b : β) (h : Handle) : Cue α → β
  | .setVolume v => setVolume b h v
  | .setPitch v => setPitch b h v
  | .play looped => play b h looped
  | .stop => stop b h
  | .release => release b h
  | .place p => place b h p

/-- The backend after a handle was told cues, one after the other. -/
def tellAll (b : β) (h : Handle) (cs : List (Cue α)) : β := cs.foldl (tell · h) b

@[simp] theorem tellAll_nil (b : β) (h : Handle) : tellAll b h ([] : List (Cue α)) = b := rfl

@[simp] theorem tellAll_cons (b : β) (h : Handle) (c : Cue α) (cs : List (Cue α)) :
    tellAll b h (c :: cs) = tellAll (tell b h c) h cs := rfl

theorem tellAll_append (b : β) (h : Handle) (cs ds : List (Cue α)) :
    tellAll b h (cs ++ ds) = tellAll (tellAll b h cs) h ds :=
  List.foldl_append

end Tell

/-- A backend that writes down what it is told. -/
structure Notes (α : Type) where
  cues : List (Cue α)

namespace Notes

variable {α : Type}

def blank : Notes α := ⟨[]⟩

def write (n : Notes α) (c : Cue α) : Notes α := ⟨n.cues ++ [c]⟩

instance : AudioBackend α (Notes α) where
  acquire n clip := (.error (.clipNotFound clip clip), n)
  loadClip n _ _ := (.ok (), n)
  setVolume n _ v := n.write (.setVolume v)
  setPitch n _ v := n.write (.setPitch v)
  play n _ looped := n.write (.play looped)
  stop n _ := n.write .stop
  release n _ := n.write .release
  clipLength _ _ := none
  place n _ p := n.write (.place p)

@[simp] theorem tell_eq (n : Notes α) (h : Handle) (c : Cue α) : tell n h c = n.write c := by
  cases c <;> rfl

@[simp] theorem cues_tellAll (n : Notes α) (h : Handle) (cs : List (Cue α)) :
    (tellAll n h cs).cues = n.cues ++ cs := by
  induction cs generalizing n with
  | nil => simp
  | cons c cs ih => simp [ih, write]

end Notes

namespace VoiceState

def afterFade (release : Bool) : VoiceState := if release then released else stopped

@[simp] theorem isSounding_afterFade (release : Bool) : (afterFade release).isSounding = false := by
  cases release <;> rfl

end VoiceState

/-- What a handle is told at the end of a fade-out. -/
def Cue.farewell {α : Type} (release : Bool) : List (Cue α) :=
  if release then [.stop, .release] else [.stop]

namespace Voice

variable {α : Type}

/-! ### Killing -/

/-- What a voice tells its handle when it is killed. -/
def lastWords (v : Voice α) : List (Cue α) := (v.kill (Notes.blank : Notes α)).2.cues

theorem kill_eq {β : Type} [AudioBackend α β] (v : Voice α) (b : β) :
    (v.kill b).2 = tellAll b v.handle v.lastWords := by
  unfold lastWords kill
  split
  · rfl
  · cases v.state.isSounding <;> rfl

theorem lastWords_of_isReleased {v : Voice α} (h : v.isReleased) : v.lastWords = [] := by
  simp [lastWords, kill, h, Notes.blank]

theorem lastWords_of_isSounding {v : Voice α} (h : v.state.isSounding) :
    v.lastWords = [.stop, .release] := by
  have hr : v.isReleased = false := by
    cases hs : v.state <;> simp_all [isReleased, VoiceState.isSounding]
  simp only [lastWords, kill, hr, h]
  rfl

theorem lastWords_of_stopped {v : Voice α} (h : v.state = .stopped) : v.lastWords = [.release] := by
  have hr : v.isReleased = false := by simp [isReleased, h]
  simp only [lastWords, kill, hr, h]
  rfl

/-- The backend after voices have each told their handle something, one after the other. -/
def tellEach {β : Type} [AudioBackend α β] (f : Voice α → List (Cue α)) (vs : List (Voice α))
    (b : β) : β :=
  vs.foldl (fun b v => tellAll b v.handle (f v)) b

theorem killAll_eq {β : Type} [AudioBackend α β] (vs : List (Voice α)) (b : β) :
    (killAll vs b).2 = tellEach lastWords vs b := by
  induction vs generalizing b with
  | nil => rfl
  | cons v vs ih =>
    rw [killAll]
    dsimp only
    rw [ih, kill_eq]
    rfl

theorem ne_release_of_mem_lastWords (v : Voice α) : ∀ q ∈ v.lastWords.dropLast, q ≠ .release := by
  cases hs : v.state with
  | playing => simp [lastWords_of_isSounding, hs, VoiceState.isSounding]
  | fadingOut release => simp [lastWords_of_isSounding, hs, VoiceState.isSounding]
  | stopped => simp [lastWords_of_stopped hs]
  | released => simp [lastWords_of_isReleased, isReleased, hs]

def onHandle (k : Handle) (v : Voice α) : Voice α := { v with handle := k }

theorem lastWords_onHandle (k : Handle) (v : Voice α) : (v.onHandle k).lastWords = v.lastWords := by
  obtain ⟨handle, clip, levels, gain, source, pending, state, volume, pitch⟩ := v
  cases state <;> rfl

theorem write_finishFade_eq {β : Type} [AudioBackend α β] (volume pitch : α) (v : Voice α) (b : β) :
    (v.write volume pitch b).1.finishFade (v.write volume pitch b).2 =
      (((v.write volume pitch (Notes.blank : Notes α)).1.finishFade
          (v.write volume pitch (Notes.blank : Notes α)).2).1,
        tellAll b v.handle ((v.write volume pitch (Notes.blank : Notes α)).1.finishFade
          (v.write volume pitch (Notes.blank : Notes α)).2).2.cues) := by
  obtain ⟨handle, clip, levels, gain, source, pending, state, volume', pitch'⟩ := v
  rcases state with _ | release | _ | _
  · rfl
  · cases hg : gain.isSettled <;> cases release <;>
      simp [write, finishFade, VoiceState.isSounding, hg] <;> rfl
  · rfl
  · rfl

variable [Scalar α]

/-! ### Fade-outs -/

/-- A voice whose fade-out is no longer due, but begins. -/
def fadeNow (f : PendingFade α) (v : Voice α) : Voice α :=
  { v with pending := none }.beginFadeOut f.length f.release

/-- A voice whose fade-out is due sooner by some time. -/
def fadeSooner (f : PendingFade α) (dt : α) (v : Voice α) : Voice α :=
  { v with pending := some { f with delay := f.delay - dt } }

@[simp] theorem fadeNow_handle (f : PendingFade α) (v : Voice α) :
    (v.fadeNow f).handle = v.handle := by
  unfold fadeNow beginFadeOut
  split <;> rfl

@[simp] theorem fadeNow_pending (f : PendingFade α) (v : Voice α) :
    (v.fadeNow f).pending = none := by
  unfold fadeNow beginFadeOut
  split <;> rfl

theorem fadeNow_of_playing {v : Voice α} (h : v.state = .playing) (f : PendingFade α) :
    v.fadeNow f = { v with
      pending := none, gain := v.gain.fadeTo 0 f.length, state := .fadingOut f.release } := by
  simp [fadeNow, beginFadeOut, h]

variable [Easing α]

/-! ### One step -/

/-- The voice after a step of time in which no fade-out begins. -/
def stepped (dt : α) (v : Voice α) : Voice α := (v.step dt (Notes.blank : Notes α)).1

def stepTells (dt : α) (v : Voice α) : List (Cue α) :=
  (v.step dt (Notes.blank : Notes α)).2.cues

theorem step_eq {β : Type} [AudioBackend α β] (dt : α) (v : Voice α) (b : β) :
    v.step dt b = (v.stepped dt, tellAll b v.handle (v.stepTells dt)) :=
  write_finishFade_eq _ _ (v.shape dt).1 b

/-- The levels are written while the voice sounds, and a fade-out ends once its gain is settled. -/
theorem stepped_cases (dt : α) (v : Voice α) :
    (v.state.isSounding = false ∧ v.stepped dt = (v.shape dt).1 ∧ v.stepTells dt = []) ∨
    (v.state.isSounding ∧
      (∀ release, v.state = .fadingOut release → (v.gain.advance dt).isSettled = false) ∧
      v.stepped dt = { (v.shape dt).1 with
        volume := (v.shape dt).2.1, pitch := (v.shape dt).2.2 } ∧
      v.stepTells dt = [.setVolume (v.shape dt).2.1, .setPitch (v.shape dt).2.2]) ∨
    ∃ release, v.state = .fadingOut release ∧ (v.gain.advance dt).isSettled ∧
      v.stepped dt = { (v.shape dt).1 with
        volume := (v.shape dt).2.1, pitch := (v.shape dt).2.2, state := .afterFade release } ∧
      v.stepTells dt = .setVolume (v.shape dt).2.1 :: .setPitch (v.shape dt).2.2 ::
        Cue.farewell release := by
  have hg : (v.shape dt).1.gain = v.gain.advance dt := rfl
  have hs : (v.shape dt).1.state = v.state := rfl
  unfold stepped stepTells step
  rw [← hg, ← hs]
  generalize v.shape dt = x
  obtain ⟨⟨handle, clip, levels, gain, source, pending, state, volume', pitch'⟩, volume, pitch⟩ := x
  rcases state with _ | release | _ | _
  · exact .inr (.inl ⟨rfl, nofun, rfl, rfl⟩)
  · cases hg : gain.isSettled
    · exact .inr (.inl ⟨rfl, fun _ _ => rfl, by cases release <;>
        simp [write, finishFade, VoiceState.isSounding, hg] <;> rfl⟩)
    · refine .inr (.inr ⟨release, rfl, rfl, ?_⟩)
      cases release <;> simp [write, finishFade, VoiceState.isSounding, hg] <;> exact ⟨rfl, rfl⟩
  · exact .inl ⟨rfl, rfl, rfl⟩
  · exact .inl ⟨rfl, rfl, rfl⟩

theorem stepTells_of_playing {v : Voice α} (h : v.state = .playing) (dt : α) :
    v.stepTells dt = [.setVolume (v.stepped dt).volume, .setPitch (v.stepped dt).pitch] := by
  obtain ⟨hs, -, -⟩ | ⟨-, -, hv, ht⟩ | ⟨release, hs, -, -⟩ := v.stepped_cases dt
  · simp [h, VoiceState.isSounding] at hs
  · rw [ht, hv]
  · simp [h] at hs

@[simp] theorem stepped_handle (dt : α) (v : Voice α) : (v.stepped dt).handle = v.handle := by
  obtain ⟨-, hv, -⟩ | ⟨-, -, hv, -⟩ | ⟨_, -, -, hv, -⟩ := v.stepped_cases dt <;> rw [hv] <;> rfl

@[simp] theorem stepped_gain (dt : α) (v : Voice α) :
    (v.stepped dt).gain = v.gain.advance dt := by
  obtain ⟨-, hv, -⟩ | ⟨-, -, hv, -⟩ | ⟨_, -, -, hv, -⟩ := v.stepped_cases dt <;> rw [hv] <;> rfl

@[simp] theorem stepped_pending (dt : α) (v : Voice α) : (v.stepped dt).pending = v.pending := by
  obtain ⟨-, hv, -⟩ | ⟨-, -, hv, -⟩ | ⟨_, -, -, hv, -⟩ := v.stepped_cases dt <;> rw [hv] <;> rfl

theorem stepped_state_of_playing {v : Voice α} (h : v.state = .playing) (dt : α) :
    (v.stepped dt).state = .playing := by
  obtain ⟨hs, -, -⟩ | ⟨-, -, hv, ht⟩ | ⟨release, hs, -, -⟩ := v.stepped_cases dt
  · simp [h, VoiceState.isSounding] at hs
  · rw [hv, ← h]
    rfl
  · simp [h] at hs

/-! ### Advancing -/

def next (dt : α) (v : Voice α) : Voice α := (v.advance dt (Notes.blank : Notes α)).1

def tells (dt : α) (v : Voice α) : List (Cue α) :=
  (v.advance dt (Notes.blank : Notes α)).2.cues

theorem advance_of_isReleased {β : Type} [AudioBackend α β] {v : Voice α} (h : v.isReleased)
    (dt : α) (b : β) : v.advance dt b = (v, b) := by
  simp [advance, h]

theorem advance_of_not_pending {β : Type} [AudioBackend α β] {v : Voice α}
    (hr : v.isReleased = false) (hp : v.pending = none) (dt : α) (b : β) :
    v.advance dt b = v.step (Scalar.larger dt 0) b := by
  simp [advance, hr, hp]

theorem advance_of_due {β : Type} [AudioBackend α β] {v : Voice α} {f : PendingFade α} {dt : α}
    (hr : v.isReleased = false) (hp : v.pending = some f)
    (hd : f.delay ≤ Scalar.larger dt 0 + tolerance) (b : β) :
    v.advance dt b =
      ((v.step (Scalar.smaller f.delay (Scalar.larger dt 0)) b).1.fadeNow f).step
        (Scalar.larger (Scalar.larger dt 0 - Scalar.smaller f.delay (Scalar.larger dt 0)) 0)
        (v.step (Scalar.smaller f.delay (Scalar.larger dt 0)) b).2 := by
  simp [advance, hr, hp, hd, fadeNow]

theorem advance_of_not_due {β : Type} [AudioBackend α β] {v : Voice α} {f : PendingFade α} {dt : α}
    (hr : v.isReleased = false) (hp : v.pending = some f)
    (hd : ¬ f.delay ≤ Scalar.larger dt 0 + tolerance) (b : β) :
    v.advance dt b = (v.fadeSooner f (Scalar.larger dt 0)).step (Scalar.larger dt 0) b := by
  simp [advance, hr, hp, hd, fadeSooner]

theorem next_cases (dt : α) (v : Voice α) :
    (v.isReleased ∧ v.next dt = v ∧ v.tells dt = []) ∨
    (v.isReleased = false ∧ v.pending = none ∧ v.next dt = v.stepped (Scalar.larger dt 0) ∧
      v.tells dt = v.stepTells (Scalar.larger dt 0)) ∨
    (∃ f before rest, v.isReleased = false ∧ v.pending = some f ∧
      f.delay ≤ Scalar.larger dt 0 + tolerance ∧
      before = Scalar.smaller f.delay (Scalar.larger dt 0) ∧
      rest = Scalar.larger (Scalar.larger dt 0 - before) 0 ∧
      v.next dt = ((v.stepped before).fadeNow f).stepped rest ∧
      v.tells dt = v.stepTells before ++ ((v.stepped before).fadeNow f).stepTells rest) ∨
    ∃ f, v.isReleased = false ∧ v.pending = some f ∧
      ¬ f.delay ≤ Scalar.larger dt 0 + tolerance ∧
      v.next dt = (v.fadeSooner f (Scalar.larger dt 0)).stepped (Scalar.larger dt 0) ∧
      v.tells dt = (v.fadeSooner f (Scalar.larger dt 0)).stepTells (Scalar.larger dt 0) := by
  unfold next tells
  cases hr : v.isReleased with
  | true => exact .inl ⟨rfl, by simp [advance_of_isReleased hr, Notes.blank]⟩
  | false =>
    refine .inr ?_
    cases hp : v.pending with
    | none => exact .inl ⟨rfl, rfl, by simp [advance_of_not_pending hr hp, step_eq, Notes.blank]⟩
    | some f =>
      refine .inr ?_
      by_cases hd : f.delay ≤ Scalar.larger dt 0 + tolerance
      · exact .inl ⟨f, _, _, rfl, rfl, hd, rfl, rfl, by
          simp [advance_of_due hr hp hd, step_eq, Notes.blank]⟩
      · exact .inr ⟨f, rfl, rfl, hd, by
          simp [advance_of_not_due hr hp hd, step_eq, Notes.blank]⟩

/-- On every backend a voice goes the same way, and the handle is told the same. -/
theorem advance_eq {β : Type} [AudioBackend α β] (dt : α) (v : Voice α) (b : β) :
    v.advance dt b = (v.next dt, tellAll b v.handle (v.tells dt)) := by
  obtain ⟨hr, hn, ht⟩ | ⟨hr, hp, hn, ht⟩ | ⟨f, before, rest, hr, hp, hd, rfl, rfl, hn, ht⟩ |
      ⟨f, hr, hp, hd, hn, ht⟩ := v.next_cases dt <;> rw [hn, ht]
  · exact advance_of_isReleased hr dt b
  · rw [advance_of_not_pending hr hp, step_eq]
  · rw [advance_of_due hr hp hd, step_eq, step_eq, tellAll_append, fadeNow_handle, stepped_handle]
  · rw [advance_of_not_due hr hp hd, step_eq]
    rfl

@[simp] theorem next_handle (dt : α) (v : Voice α) : (v.next dt).handle = v.handle := by
  obtain ⟨-, hn, -⟩ | ⟨-, -, hn, -⟩ | ⟨_, _, _, -, -, -, -, -, hn, -⟩ | ⟨_, -, -, -, hn, -⟩ :=
    v.next_cases dt <;> rw [hn] <;> simp [fadeSooner]

/-! ### Starting -/

/-- A voice before its opening levels are written. -/
def unheard (handle : Handle) (clip : String) (levels : Levels α) (fadeIn : α) (source : Source) :
    Voice α :=
  { handle, clip, levels, gain := openingGain levels fadeIn, source, pending := none,
    state := .playing, volume := 0, pitch := 1 }

theorem start_eq {β : Type} [AudioBackend α β] (handle : Handle) (clip : String)
    (levels : Levels α) (fadeIn : α) (looped : Bool) (source : Source) (b : β) :
    start handle clip levels fadeIn looped source b =
      ((unheard handle clip levels fadeIn source).stepped 0,
        tellAll b handle
          ((unheard handle clip levels fadeIn source).stepTells 0 ++ [.play looped])) := by
  rw [tellAll_append]
  exact congrArg (fun x : Voice α × β => (x.1, AudioBackend.play x.2 handle looped))
    (step_eq 0 (unheard handle clip levels fadeIn source) b)

/-! ### Starting again -/

/-- What a held voice tells its handle before it is given another clip. -/
def hush (v : Voice α) : List (Cue α) := if v.state = .stopped then [] else [.stop]

/-- A held voice with another clip, before its opening levels are written. -/
def reloaded (clip : String) (baseVolume : α) (basePitch : Option α) (fadeIn : α) (v : Voice α) :
    Voice α :=
  let (levels, source) := ({ v.levels with
    baseVolume, basePitch := basePitch.getD v.levels.basePitch } : Levels α).rewindGoto v.source
  { v with clip, levels, source, pending := none, gain := openingGain levels fadeIn,
           state := .playing }

/-- All but the answer of `loadClip` is fixed when a held voice is started again. -/
theorem restart_eq {β : Type} [AudioBackend α β] (clip : String) (baseVolume : α)
    (basePitch : Option α) (fadeIn : α) (v : Voice α) (b : β) :
    v.restart clip baseVolume basePitch fadeIn b =
      if v.isReleased then (.error (.unknownHandle v.handle), v, b)
      else
        match AudioBackend.loadClip (tellAll b v.handle v.hush) v.handle clip with
        | (.error e, b) => (.error e, { v with pending := none }, b)
        | (.ok (), b) =>
          (.ok (), (v.reloaded clip baseVolume basePitch fadeIn).stepped 0,
            tellAll b v.handle
              ((v.reloaded clip baseVolume basePitch fadeIn).stepTells 0 ++ [.play false])) := by
  unfold restart
  split
  · rfl
  · have hb : (if ({ v with pending := none } : Voice α).state = .stopped then b
        else AudioBackend.stop b ({ v with pending := none } : Voice α).handle) =
        tellAll b v.handle v.hush := by
      unfold hush
      dsimp only
      split <;> rfl
    dsimp only at hb ⊢
    rw [hb]
    rcases AudioBackend.loadClip (tellAll b v.handle v.hush) v.handle clip with ⟨e | ⟨⟩, c⟩
    · rfl
    · dsimp only
      rw [tellAll_append]
      exact congrArg
        (fun x : Voice α × β => ((.ok (), x.1, AudioBackend.play x.2 v.handle false) :
          Except BackendError Unit × Voice α × β))
        (step_eq 0 (v.reloaded clip baseVolume basePitch fadeIn) c)

theorem state_of_restart {β : Type} [AudioBackend α β] {clip : String} {baseVolume : α}
    {basePitch : Option α} {fadeIn : α} {v v' : Voice α} {b b' : β}
    (h : v.restart clip baseVolume basePitch fadeIn b = (.ok (), v', b')) :
    v'.state = .playing := by
  rw [restart_eq] at h
  split at h
  · cases h
  · split at h
    · cases h
    · cases h
      exact stepped_state_of_playing rfl 0

theorem pending_of_restart {β : Type} [AudioBackend α β] {clip : String} {baseVolume : α}
    {basePitch : Option α} {fadeIn : α} {v v' : Voice α} {b b' : β}
    (h : v.restart clip baseVolume basePitch fadeIn b = (.ok (), v', b')) : v'.pending = none := by
  rw [restart_eq] at h
  split at h
  · cases h
  · split at h
    · cases h
    · cases h
      exact stepped_pending ..

/-! ### On another handle -/

theorem step_onHandle (k : Handle) (dt : α) (v : Voice α) (n : Notes α) :
    (v.onHandle k).step dt n = ((v.step dt n).1.onHandle k, (v.step dt n).2) := by
  have hs : (v.onHandle k).shape dt = ((v.shape dt).1.onHandle k, (v.shape dt).2) := rfl
  unfold step
  rw [hs]
  generalize v.shape dt = x
  obtain ⟨⟨handle, clip, levels, gain, source, pending, state, volume', pitch'⟩, volume, pitch⟩ := x
  rcases state with _ | release | _ | _
  · rfl
  · cases hg : gain.isSettled <;> cases release <;>
      simp [write, finishFade, VoiceState.isSounding, hg, onHandle] <;> rfl
  · rfl
  · rfl

theorem advance_onHandle (k : Handle) (dt : α) (v : Voice α) (n : Notes α) :
    (v.onHandle k).advance dt n = ((v.advance dt n).1.onHandle k, (v.advance dt n).2) := by
  cases hr : v.isReleased with
  | true => rw [advance_of_isReleased hr, advance_of_isReleased (v := v.onHandle k) hr]
  | false =>
    cases hp : v.pending with
    | none =>
      rw [advance_of_not_pending hr hp, advance_of_not_pending (v := v.onHandle k) hr hp,
        step_onHandle]
    | some f =>
      by_cases hd : f.delay ≤ Scalar.larger dt 0 + tolerance
      · have hf (v : Voice α) : (v.onHandle k).fadeNow f = (v.fadeNow f).onHandle k := by
          cases hs : v.state <;> simp [fadeNow, beginFadeOut, onHandle, hs]
        rw [advance_of_due hr hp hd, advance_of_due (v := v.onHandle k) hr hp hd, step_onHandle, hf,
          step_onHandle]
      · rw [advance_of_not_due hr hp hd, advance_of_not_due (v := v.onHandle k) hr hp hd]
        exact step_onHandle k _ (v.fadeSooner f _) n

@[simp] theorem stepped_onHandle (k : Handle) (dt : α) (v : Voice α) :
    (v.onHandle k).stepped dt = (v.stepped dt).onHandle k := by
  unfold stepped
  rw [step_onHandle]

@[simp] theorem stepTells_onHandle (k : Handle) (dt : α) (v : Voice α) :
    (v.onHandle k).stepTells dt = v.stepTells dt := by
  unfold stepTells
  rw [step_onHandle]

@[simp] theorem next_onHandle (k : Handle) (dt : α) (v : Voice α) :
    (v.onHandle k).next dt = (v.next dt).onHandle k := by
  unfold next
  rw [advance_onHandle]

@[simp] theorem tells_onHandle (k : Handle) (dt : α) (v : Voice α) :
    (v.onHandle k).tells dt = v.tells dt := by
  unfold tells
  rw [advance_onHandle]

/-! ### Several voices -/

theorem advanceAll_eq {β : Type} [AudioBackend α β] (dt : α) (vs : List (Voice α)) (b : β) :
    advanceAll dt vs b = (vs.map (next dt), tellEach (tells dt) vs b) := by
  induction vs generalizing b with
  | nil => rfl
  | cons v vs ih =>
    rw [advanceAll, advance_eq]
    dsimp only
    rw [ih]
    rfl

end Voice

end Soundscape
