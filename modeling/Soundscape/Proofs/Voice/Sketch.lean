import Soundscape.Proofs.Voice.Fade

/-!
# What of a voice does not depend on its levels

How a step of time is cut decides how often the levels of a voice are drawn, but not when it fades
out.  A sketch of a voice leaves its levels out.  It goes its way without them and tells the handle
the same but for the levels (`Voice.next_sketch`).
-/

namespace Soundscape

variable {α : Type}

/-- A voice without its levels. -/
structure Sketch (α : Type) where
  handle : Handle
  clip : String
  gain : Gain α
  pending : Option (PendingFade α)
  state : VoiceState
  movesPitch : Bool
  goes : Bool
  deriving DecidableEq

/-! ### Levels -/

namespace Playhead

variable [Scalar α]

def Turn.playhead : Turn α → Playhead α
  | .within p => p
  | .over p => p
  | .passed p => p

theorem spec_turn (p : Playhead α) (s : Source) : (p.turn s).1.playhead.spec = p.spec := by
  unfold turn
  split
  · split
    · rfl
    · dsimp only
      split
      · rfl
      · split <;> rfl
  · rfl

theorem spec_settle (turns : Nat) (p : Playhead α) (s : Source) :
    (settle turns p s).1.playhead.spec = p.spec := by
  induction turns generalizing p s with
  | zero => rfl
  | succ turns ih =>
    have ht := p.spec_turn s
    unfold settle
    generalize p.turn s = x at ht
    obtain ⟨q | q | q, s'⟩ := x
    · exact ht
    · exact ht
    · exact (ih q s').trans ht

variable [Easing α]

theorem spec_level (p : Playhead α) : p.level.1.spec = p.spec := by
  unfold level
  split
  · split <;> rfl
  · rfl

theorem spec_advance (p : Playhead α) (dt : α) (s : Source) :
    (p.advance dt s).1.1.spec = p.spec := by
  unfold advance
  split
  · have hs := spec_settle { p with time := p.time + dt }.turnBound { p with time := p.time + dt } s
    dsimp only
    generalize settle { p with time := p.time + dt }.turnBound { p with time := p.time + dt } s = x
      at hs ⊢
    obtain ⟨q | q | q, s'⟩ := x
    · exact q.spec_level.trans hs
    · exact hs
    · exact q.spec_level.trans hs
  · rfl

end Playhead

namespace Levels

/-- The interpolations that the runs of both levels go by. -/
def interpolations (l : Levels α) : Option (Interpolation α) × Option (Interpolation α) :=
  (l.volumeRun.map Playhead.spec, l.pitchRun.map Playhead.spec)

def goes (l : Levels α) : Bool := l.gotoStart.isSome

theorem goes_eq (l : Levels α) : l.goes = l.interpolations.1.any fun i => i.motion == .goto := by
  unfold goes gotoStart interpolations
  cases l.volumeRun with
  | none => rfl
  | some p =>
    show ((some p).filter isGoto |>.map Playhead.low).isSome = isGoto p
    cases hp : isGoto p <;> simp [hp]

theorem movesPitch_eq (l : Levels α) : l.movesPitch = l.interpolations.2.isSome := by
  simp [movesPitch, interpolations]

/-- What a sketch knows of levels is told by their interpolations. -/
theorem kinds_congr {l m : Levels α} (h : l.interpolations = m.interpolations) :
    l.goes = m.goes ∧ l.movesPitch = m.movesPitch := by
  rw [goes_eq, goes_eq, movesPitch_eq, movesPitch_eq, h]
  exact ⟨rfl, rfl⟩

variable [Scalar α]

theorem interpolations_start (volume pitch : α) (volumeRun pitchRun : Option (Interpolation α))
    (s : Source) :
    (start volume pitch volumeRun pitchRun s).1.interpolations = (volumeRun, pitchRun) := by
  cases volumeRun <;> cases pitchRun <;> rfl

theorem interpolations_rewindGoto (l : Levels α) (s : Source) :
    (l.rewindGoto s).1.interpolations = l.interpolations := by
  obtain ⟨volume, pitch, volumeRun, pitchRun⟩ := l
  unfold rewindGoto
  cases volumeRun with
  | none => rfl
  | some p =>
    dsimp only
    split <;> rfl

variable [Easing α]

theorem map_spec_axis (run : Option (Playhead α)) (base dt : α) (s : Source) :
    (axis run base dt s).1.1.map Playhead.spec = run.map Playhead.spec := by
  unfold axis
  cases run with
  | none => rfl
  | some p =>
    dsimp only
    split
    · exact congrArg some (p.spec_advance dt s)
    · rfl

end Levels

namespace Voice

variable [Scalar α]

def sketch (v : Voice α) : Sketch α :=
  ⟨v.handle, v.clip, v.gain, v.pending, v.state, v.levels.movesPitch, v.levels.goes⟩

end Voice

/-! ### What it does -/

namespace Sketch

variable [Scalar α]

/-- The sketch after a step of time in which no fade-out begins. -/
def step (dt : α) (s : Sketch α) : Sketch α :=
  let gain := s.gain.advance dt
  match s.state with
  | .fadingOut release =>
    if gain.isSettled then { s with gain, state := .afterFade release } else { s with gain }
  | _ => { s with gain }

/-- What it tells its handle in the step, but for the levels. -/
def stepTells (dt : α) (s : Sketch α) : List (Cue α) :=
  match s.state with
  | .fadingOut release => if (s.gain.advance dt).isSettled then Cue.farewell release else []
  | _ => []

theorem step_of_fading {s : Sketch α} {release : Bool} {dt : α} (hs : s.state = .fadingOut release)
    (hg : (s.gain.advance dt).isSettled) :
    s.step dt = { s with gain := s.gain.advance dt, state := .afterFade release } ∧
      s.stepTells dt = Cue.farewell release := by
  unfold step stepTells
  rw [hs]
  exact ⟨if_pos hg, if_pos hg⟩

theorem step_of_not_fading {s : Sketch α} {dt : α}
    (hg : ∀ release, s.state = .fadingOut release → (s.gain.advance dt).isSettled = false) :
    s.step dt = { s with gain := s.gain.advance dt } ∧ s.stepTells dt = [] := by
  unfold step stepTells
  cases hs : s.state with
  | fadingOut release =>
    have hn : ¬ (s.gain.advance dt).isSettled = true := by simp [hg release hs]
    exact ⟨if_neg hn, if_neg hn⟩
  | _ => exact ⟨rfl, rfl⟩

theorem step_cases (s : Sketch α) (dt : α) :
    (∃ release, s.state = .fadingOut release ∧ (s.gain.advance dt).isSettled ∧
      s.step dt = { s with gain := s.gain.advance dt, state := .afterFade release } ∧
      s.stepTells dt = Cue.farewell release) ∨
    s.step dt = { s with gain := s.gain.advance dt } ∧ s.stepTells dt = [] := by
  by_cases hf : ∃ release, s.state = .fadingOut release ∧ (s.gain.advance dt).isSettled
  · obtain ⟨release, hs, hg⟩ := hf
    exact .inl ⟨release, hs, hg, step_of_fading hs hg⟩
  · refine .inr (step_of_not_fading fun release hs => ?_)
    cases hg : (s.gain.advance dt).isSettled with
    | false => rfl
    | true => exact absurd ⟨release, hs, hg⟩ hf

/-- A sketch whose fade-out is no longer due, but begins. -/
def fadeNow (f : PendingFade α) (s : Sketch α) : Sketch α :=
  if s.state = .playing then
    { s with pending := none, gain := s.gain.fadeTo 0 f.length, state := .fadingOut f.release }
  else { s with pending := none }

/-- A sketch whose fade-out is due sooner by some time. -/
def fadeSooner (f : PendingFade α) (dt : α) (s : Sketch α) : Sketch α :=
  { s with pending := some { f with delay := f.delay - dt } }

def next (dt : α) (s : Sketch α) : Sketch α :=
  if s.state = .released then s
  else
    let dt := Scalar.larger dt 0
    match s.pending with
    | none => s.step dt
    | some f =>
      if f.delay ≤ dt + tolerance then
        let before := Scalar.smaller f.delay dt
        ((s.step before).fadeNow f).step (Scalar.larger (dt - before) 0)
      else (s.fadeSooner f dt).step dt

/-- What it tells its handle in that time. -/
def tells (dt : α) (s : Sketch α) : List (Cue α) :=
  if s.state = .released then []
  else
    let dt := Scalar.larger dt 0
    match s.pending with
    | none => s.stepTells dt
    | some f =>
      if f.delay ≤ dt + tolerance then
        let before := Scalar.smaller f.delay dt
        s.stepTells before ++
          ((s.step before).fadeNow f).stepTells (Scalar.larger (dt - before) 0)
      else (s.fadeSooner f dt).stepTells dt

theorem step_handle (dt : α) (s : Sketch α) : (s.step dt).handle = s.handle := by
  obtain ⟨_, -, -, h, -⟩ | ⟨h, -⟩ := s.step_cases dt <;> rw [h]

theorem fadeNow_handle (f : PendingFade α) (s : Sketch α) : (s.fadeNow f).handle = s.handle := by
  unfold fadeNow
  split <;> rfl

theorem next_handle (dt : α) (s : Sketch α) : (s.next dt).handle = s.handle := by
  unfold next
  dsimp only
  split
  · rfl
  · split
    · exact s.step_handle _
    · split
      · rw [step_handle, fadeNow_handle, step_handle]
      · exact (s.fadeSooner _ _).step_handle _

/-- The sketch of a held voice with another clip, before its opening levels are written. -/
def reloaded (clip : String) (fadeIn : α) (s : Sketch α) : Sketch α :=
  { s with
    clip, pending := none, state := .playing
    gain := if s.goes ∨ fadeIn ≤ tolerance then .unity else .fadeIn fadeIn }

end Sketch

namespace Voice

variable [Scalar α]

theorem sketch_fadeNow (f : PendingFade α) (v : Voice α) :
    (v.fadeNow f).sketch = v.sketch.fadeNow f := by
  by_cases hs : v.state = .playing
  · have hs' : v.sketch.state = .playing := hs
    rw [fadeNow_of_playing hs, Sketch.fadeNow, if_pos hs']
    rfl
  · have hs' : ¬ v.sketch.state = .playing := hs
    rw [fadeNow, beginFadeOut, if_neg hs, Sketch.fadeNow, if_neg hs']
    rfl

/-- A held voice that starts again does so with the same sketch, whatever its levels were. -/
theorem sketch_reloaded (clip : String) (baseVolume : α) (basePitch : Option α) (fadeIn : α)
    (v : Voice α) :
    (v.reloaded clip baseVolume basePitch fadeIn).sketch = v.sketch.reloaded clip fadeIn := by
  have hk := Levels.kinds_congr (Levels.interpolations_rewindGoto
    { v.levels with baseVolume, basePitch := basePitch.getD v.levels.basePitch } v.source)
  unfold reloaded Sketch.reloaded sketch openingGain
  generalize ({ v.levels with
    baseVolume, basePitch := basePitch.getD v.levels.basePitch } : Levels α).rewindGoto v.source = x
    at hk ⊢
  obtain ⟨levels, source⟩ := x
  obtain ⟨hg, hp⟩ := hk
  have hg : levels.goes = v.levels.goes := hg
  have hp : levels.movesPitch = v.levels.movesPitch := hp
  have hg' : levels.gotoStart.isSome = v.levels.goes := hg
  dsimp only
  rw [hg, hp, hg']

variable [Easing α]

theorem interpolations_shape (dt : α) (v : Voice α) :
    (v.shape dt).1.levels.interpolations = v.levels.interpolations :=
  Prod.ext (Levels.map_spec_axis ..) (Levels.map_spec_axis ..)

theorem shape_kinds (dt : α) (v : Voice α) :
    (v.shape dt).1.levels.goes = v.levels.goes ∧
      (v.shape dt).1.levels.movesPitch = v.levels.movesPitch :=
  Levels.kinds_congr (v.interpolations_shape dt)

theorem step_sketch (dt : α) (v : Voice α) :
    (v.stepped dt).sketch = v.sketch.step dt ∧
      Cue.lifecycle (v.stepTells dt) = v.sketch.stepTells dt := by
  have hshape : (v.shape dt).1.sketch = { v.sketch with gain := v.gain.advance dt } := by
    obtain ⟨hg, hp⟩ := v.shape_kinds dt
    unfold sketch
    rw [hg, hp]
    rfl
  obtain ⟨hs, hv, ht⟩ | ⟨-, hg, hv, ht⟩ | ⟨release, hs, hg, hv, ht⟩ := v.stepped_cases dt <;>
    rw [hv, ht]
  · have hno : ∀ release, v.sketch.state = .fadingOut release →
        (v.sketch.gain.advance dt).isSettled = false := fun release hf => by
      have hf : v.state = .fadingOut release := hf
      simp [hf, VoiceState.isSounding] at hs
    obtain ⟨hstep, htells⟩ := Sketch.step_of_not_fading hno
    exact ⟨hshape.trans hstep.symm, htells.symm⟩
  · have hno : ∀ release, v.sketch.state = .fadingOut release →
        (v.sketch.gain.advance dt).isSettled = false := hg
    obtain ⟨hstep, htells⟩ := Sketch.step_of_not_fading hno
    exact ⟨hshape.trans hstep.symm, htells.symm⟩
  · have hs' : v.sketch.state = .fadingOut release := hs
    obtain ⟨hstep, htells⟩ := Sketch.step_of_fading hs' hg
    refine ⟨Eq.trans ?_ hstep.symm, Eq.trans ?_ htells.symm⟩
    · exact congrArg (fun s : Sketch α => { s with state := .afterFade release }) hshape
    · cases release <;> rfl

/-- A sketch goes the way of its voice, and tells the handle the same but for the levels. -/
theorem next_sketch (dt : α) (v : Voice α) :
    (v.next dt).sketch = v.sketch.next dt ∧ Cue.lifecycle (v.tells dt) = v.sketch.tells dt := by
  have hreleased (h : v.isReleased = false) : ¬ v.sketch.state = .released := by
    intro hs
    have hs : v.state = .released := hs
    simp [isReleased, hs] at h
  unfold Sketch.next Sketch.tells
  obtain ⟨hr, hn, ht⟩ | ⟨hr, hp, hn, ht⟩ | ⟨f, before, rest, hr, hp, hd, rfl, rfl, hn, ht⟩ |
      ⟨f, hr, hp, hd, hn, ht⟩ := v.next_cases dt <;> rw [hn, ht]
  · have hr : v.state = .released := by simpa [isReleased] using hr
    have hs : v.sketch.state = .released := hr
    rw [if_pos hs, if_pos hs]
    exact ⟨rfl, rfl⟩
  · have hp : v.sketch.pending = none := hp
    rw [if_neg (hreleased hr), if_neg (hreleased hr), hp]
    exact v.step_sketch _
  · have hp : v.sketch.pending = some f := hp
    rw [if_neg (hreleased hr), if_neg (hreleased hr), hp]
    dsimp only
    obtain ⟨h₁, ht₁⟩ := v.step_sketch (Scalar.smaller f.delay (Scalar.larger dt 0))
    rw [if_pos hd, if_pos hd, Cue.lifecycle_append, ht₁, ← h₁, ← sketch_fadeNow]
    obtain ⟨h₂, ht₂⟩ := step_sketch (Scalar.larger
      (Scalar.larger dt 0 - Scalar.smaller f.delay (Scalar.larger dt 0)) 0)
      ((v.stepped (Scalar.smaller f.delay (Scalar.larger dt 0))).fadeNow f)
    exact ⟨h₂, by rw [ht₂]⟩
  · have hp : v.sketch.pending = some f := hp
    rw [if_neg (hreleased hr), if_neg (hreleased hr), hp]
    dsimp only
    rw [if_neg hd, if_neg hd]
    exact step_sketch _ (v.fadeSooner f (Scalar.larger dt 0))

end Voice

end Soundscape
