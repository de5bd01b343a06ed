import Soundscape.Proofs.Interpolation.Elapsed
import Soundscape.Proofs.Voice.Cue

/-!
# Voices with checked arithmetic

What a voice does once more, with the guards that its arithmetic relies on checked where they are
needed: an interpolation divides by a positive duration, at a time that is not negative; a gain
divides by a positive length; and a fade-out is made due after a delay and over a length that are
not negative.  A checked operation gives nothing when a guard is violated, or when a loop is cut
short by its bound; else it gives what the operation gives.

On exact fractions no guard is ever violated as long as the times of a voice are not negative
(`Voice.InTime`), and so they stay: `Voice.InTime.advance?_eq` and `Voice.InTime.next`.
-/

namespace Soundscape

variable {α : Type} [Scalar α]

namespace Scalar

/-- The number moved into an interval that has its ends in order. -/
def clamp? (x low high : α) : Option α := if low ≤ high then some (clamp x low high) else none

def divide? (x y : α) : Option α := if 0 < y then some (x / y) else none

end Scalar

/-! ### Checked operations -/

namespace Gain

/-- The gain after a step of time, whose glide takes some time while it lasts. -/
def advance? (dt : α) (g : Gain α) : Option (Gain α) :=
  match g.ramp with
  | none => some g
  | some r => do
    let elapsed := r.elapsed + dt
    if r.length ≤ 0 ∨ r.length ≤ elapsed + tolerance then pure ⟨r.target, none⟩
    else
      let share ← Scalar.divide? elapsed r.length
      pure ⟨r.start + (r.target - r.start) * share, some { r with elapsed }⟩

end Gain

section Levels

variable [Easing α]

/-- The level within a cycle, which takes some time and has begun. -/
def Playhead.level? (p : Playhead α) : Option (Playhead α × α) :=
  if 0 ≤ p.time ∧ 0 < p.duration then some p.level else none

/-- The run after another step of time, in which its turns come to an end. -/
def Playhead.advance? (p : Playhead α) (dt : α) (s : Source) :
    Option ((Playhead α × α) × Source) :=
  if p.active then
    let p := { p with time := p.time + dt }
    match settle p.turnBound p s with
    | (.within q, s) => q.level?.map fun x => (x, s)
    | (.over q, s) => some ((q, q.cycleEnd), s)
    | (.passed _, _) => none
  else some ((p, p.restingValue), s)

namespace Levels

def axis? (run : Option (Playhead α)) (base dt : α) (s : Source) :
    Option ((Option (Playhead α) × α) × Source) :=
  match run with
  | some p =>
    if isGoto p || p.active then do
      let ((q, v), s) ← p.advance? dt s
      pure ((some q, v), s)
    else some ((some p, base), s)
  | none => some ((none, base), s)

def volume? (l : Levels α) (dt : α) (s : Source) : Option ((Levels α × α) × Source) := do
  let ((volumeRun, v), s) ← axis? l.volumeRun l.baseVolume dt s
  pure (({ l with volumeRun }, v), s)

def pitch? (l : Levels α) (dt : α) (s : Source) : Option ((Levels α × α) × Source) := do
  let ((pitchRun, v), s) ← axis? l.pitchRun l.basePitch dt s
  pure (({ l with pitchRun }, v), s)

end Levels

end Levels

namespace Voice

/-- Makes a fade-out due that begins and ends after it was made. -/
def scheduleFadeOut? (delay length : α) (release : Bool) (v : Voice α) : Option (Voice α) :=
  if 0 ≤ delay ∧ 0 ≤ length then some (v.scheduleFadeOut delay length release) else none

variable [Easing α]

/-- The volume and the pitch after a step of time. -/
def shape? (dt : α) (v : Voice α) : Option (Voice α × α × α) := do
  let gain ← v.gain.advance? dt
  let ((levels, volume), source) ← v.levels.volume? dt v.source
  let ((levels, pitch), source) ← levels.pitch? dt source
  pure ({ v with gain, levels, source }, volume * gain.level, pitch)

variable {β : Type} [AudioBackend α β]

open AudioBackend

/-- A step of time in which no fade-out begins. -/
def step? (dt : α) (v : Voice α) (b : β) : Option (Voice α × β) := do
  let (v, volume, pitch) ← v.shape? dt
  let (v, b) := v.write volume pitch b
  pure (v.finishFade b)

/-- Begins to play a handle that has its clip. -/
def start? (handle : Handle) (clip : String) (levels : Levels α) (fadeIn : α) (looped : Bool)
    (source : Source) (b : β) : Option (Voice α × β) := do
  let (v, b) ← (unheard handle clip levels fadeIn source).step? 0 b
  pure (v, play b handle looped)

def restart? (clip : String) (baseVolume : α) (basePitch : Option α) (fadeIn : α) (v : Voice α)
    (b : β) : Option (Except BackendError Unit × Voice α × β) :=
  if v.isReleased then some (.error (.unknownHandle v.handle), v, b)
  else
    let b := if v.state = .stopped then b else stop b v.handle
    match loadClip b v.handle clip with
    | (.error e, b) => some (.error e, { v with pending := none }, b)
    | (.ok (), b) => do
      let (v, b) ← (v.reloaded clip baseVolume basePitch fadeIn).step? 0 b
      pure (.ok (), v, play b v.handle false)

/-- A step of time, which is cut where the fade-out that is due begins. -/
def advance? (dt : α) (v : Voice α) (b : β) : Option (Voice α × β) :=
  if v.isReleased then some (v, b)
  else
    let dt := Scalar.larger dt 0
    match v.pending with
    | none => v.step? dt b
    | some fade =>
      if fade.delay ≤ dt + tolerance then do
        let before := Scalar.smaller fade.delay dt
        let (v, b) ← v.step? before b
        (v.fadeNow fade).step? (Scalar.larger (dt - before) 0) b
      else (v.fadeSooner fade dt).step? dt b

/-- A step of time for several voices, one after the other. -/
def advanceAll? (dt : α) : List (Voice α) → β → Option (List (Voice α) × β)
  | [], b => some ([], b)
  | v :: vs, b => do
    let (v, b) ← v.advance? dt b
    let (vs, b) ← advanceAll? dt vs b
    pure (v :: vs, b)

end Voice

/-! ### No guard is violated -/

theorem Gain.advance?_eq (dt : Rat) (g : Gain Rat) : g.advance? dt = some (g.advance dt) := by
  unfold Gain.advance? Gain.advance
  cases g.ramp with
  | none => rfl
  | some r =>
    dsimp only
    split
    · rfl
    · next h =>
      have hpos : 0 < r.length := not_le.mp fun hle => h (.inl hle)
      rw [Scalar.divide?, if_pos hpos]
      rfl

namespace Playhead

variable {p q : Playhead Rat} {s u : Source} {t : Rat} {k : Nat}

/-- While the run is on, the time in its cycle is not negative. -/
def InTime (p : Playhead Rat) : Prop := p.active = true → 0 ≤ p.time

theorem Under.time_nonneg (h : Under p s t k q u) : 0 ≤ q.time := by
  rw [h.time]
  exact sub_nonneg.mpr h.begun

theorem duration_pos_of_lt (h : Under p s t k q u) (ht : t < p.span s (k + 1)) :
    0 < q.duration := by
  have hlong : 0 < q.cycleLength := by
    rw [span_succ, ← h.cycleLength] at ht
    linarith [h.begun]
  unfold cycleLength at hlong
  split at hlong
  · norm_num at hlong
    exact hlong
  · exact hlong

variable [Easing Rat]

theorem level_inTime (h : 0 ≤ q.time) : q.level.1.InTime := by
  rw [level_fst]
  exact fun _ => h

theorem InTime.advance?_eq (h : p.InTime) {dt : Rat} (hdt : 0 ≤ dt) (s : Source) :
    p.advance? dt s = some (p.advance dt s) ∧ (p.advance dt s).1.1.InTime := by
  unfold Playhead.advance? Playhead.advance
  cases ha : p.active with
  | false => exact ⟨rfl, h⟩
  | true =>
    have hlater := (under_self (s := s) ha (h ha)).later hdt
    rw [if_pos rfl, if_pos rfl]
    dsimp only
    obtain ⟨r, v, i, hs, hr, ht⟩ | ⟨r, v, i, hs, hr⟩ | ⟨r, v, -, hr⟩ :=
      hlater.settle { p with time := p.time + dt }.turnBound
    · rw [ha] at hs
      rw [hs]
      dsimp only
      rw [level?, if_pos ⟨hr.time_nonneg, duration_pos_of_lt hr ht⟩]
      exact ⟨rfl, level_inTime hr.time_nonneg⟩
    · rw [ha] at hs
      rw [hs]
      exact ⟨rfl, fun hr' => absurd (hr.active.symm.trans hr') Bool.false_ne_true⟩
    · exact absurd (hlater.lt_turnBound hr) (lt_irrefl _)

end Playhead

namespace Levels

/-- The times of the runs are not negative. -/
structure InTime (l : Levels Rat) : Prop where
  volumeRun : ∀ p ∈ l.volumeRun, p.InTime
  pitchRun : ∀ p ∈ l.pitchRun, p.InTime

theorem inTime_mapM (i : Option (Interpolation Rat)) (s : Source) :
    ∀ p ∈ (i.mapM Playhead.start s).1, p.InTime := by
  cases i with
  | none => exact fun p hp => absurd hp (Option.not_mem_none p)
  | some spec => exact fun p hp => Option.mem_some_iff.mp hp ▸ fun _ => le_rfl

theorem inTime_start (volume pitch : Rat) (volumeRun pitchRun : Option (Interpolation Rat))
    (s : Source) : (start volume pitch volumeRun pitchRun s).1.InTime :=
  ⟨inTime_mapM volumeRun s, inTime_mapM pitchRun _⟩

variable {l : Levels Rat}

theorem InTime.rewindGoto (h : l.InTime) (s : Source) : (l.rewindGoto s).1.InTime := by
  obtain ⟨volume, pitch, volumeRun, pitchRun⟩ := l
  unfold Levels.rewindGoto
  cases volumeRun with
  | none => exact h
  | some p =>
    dsimp only
    split
    · exact ⟨fun q hq => Option.mem_some_iff.mp hq ▸ fun _ => le_rfl, h.pitchRun⟩
    · exact h

variable [Easing Rat] {dt : Rat}

theorem axis?_eq {run : Option (Playhead Rat)} (h : ∀ p ∈ run, p.InTime) (hdt : 0 ≤ dt)
    (base : Rat) (s : Source) :
    axis? run base dt s = some (axis run base dt s) ∧
      ∀ p ∈ (axis run base dt s).1.1, p.InTime := by
  unfold axis? axis
  cases run with
  | none => exact ⟨rfl, h⟩
  | some p =>
    obtain ⟨heq, hp⟩ := (h p rfl).advance?_eq hdt s
    dsimp only
    split
    · rw [heq]
      exact ⟨rfl, fun q hq => Option.mem_some_iff.mp hq ▸ hp⟩
    · exact ⟨rfl, h⟩

theorem InTime.volume?_eq (h : l.InTime) (hdt : 0 ≤ dt) (s : Source) :
    l.volume? dt s = some (l.volume dt s) ∧ (l.volume dt s).1.1.InTime := by
  obtain ⟨heq, hrun⟩ := axis?_eq h.volumeRun hdt l.baseVolume s
  unfold volume?
  rw [heq]
  exact ⟨rfl, hrun, h.pitchRun⟩

theorem InTime.pitch?_eq (h : l.InTime) (hdt : 0 ≤ dt) (s : Source) :
    l.pitch? dt s = some (l.pitch dt s) ∧ (l.pitch dt s).1.1.InTime := by
  obtain ⟨heq, hrun⟩ := axis?_eq h.pitchRun hdt l.basePitch s
  unfold pitch?
  rw [heq]
  exact ⟨rfl, h.volumeRun, hrun⟩

end Levels

namespace Voice

/-- The times of the runs of a voice are not negative, and no fade-out lies behind. -/
structure InTime (v : Voice Rat) : Prop where
  levels : v.levels.InTime
  ahead : ∀ f ∈ v.pending, 0 ≤ f.delay

theorem scheduleFadeOut?_eq {delay length : Rat} (hd : 0 ≤ delay) (hl : 0 ≤ length)
    (release : Bool) (v : Voice Rat) :
    v.scheduleFadeOut? delay length release = some (v.scheduleFadeOut delay length release) :=
  if_pos ⟨hd, hl⟩

theorem inTime_unheard {levels : Levels Rat} (h : levels.InTime) (handle : Handle) (clip : String)
    (fadeIn : Rat) (source : Source) : (unheard handle clip levels fadeIn source).InTime :=
  ⟨h, nofun⟩

namespace InTime

variable {v : Voice Rat} {dt : Rat}

theorem scheduleFadeOut (h : v.InTime) (delay length : Rat) (release : Bool) :
    (v.scheduleFadeOut delay length release).InTime := by
  refine ⟨h.levels, ?_⟩
  rintro _ ⟨⟩
  exact Fraction.larger_nonneg delay

theorem fadeNow (h : v.InTime) (f : PendingFade Rat) : (v.fadeNow f).InTime := by
  refine ⟨?_, by simp⟩
  unfold Voice.fadeNow beginFadeOut
  split <;> exact h.levels

theorem fadeSooner (h : v.InTime) {f : PendingFade Rat} (hf : dt ≤ f.delay) :
    (v.fadeSooner f dt).InTime := by
  refine ⟨h.levels, ?_⟩
  rintro _ ⟨⟩
  exact sub_nonneg.mpr hf

theorem before_nonneg (h : v.InTime) {f : PendingFade Rat} (hp : v.pending = some f) (dt : Rat) :
    0 ≤ Scalar.smaller f.delay (Scalar.larger dt 0) :=
  Fraction.smaller_nonneg (h.ahead f hp) (Fraction.larger_nonneg dt)

theorem fadeSooner_of_not_due (h : v.InTime) {f : PendingFade Rat}
    (hd : ¬ f.delay ≤ Scalar.larger dt 0 + tolerance) :
    (v.fadeSooner f (Scalar.larger dt 0)).InTime := by
  have htol := Fraction.tolerance_pos
  exact h.fadeSooner (by linarith [not_le.mp hd])

theorem reloaded (h : v.InTime) (clip : String) (volume : Rat) (pitch : Option Rat)
    (fadeIn : Rat) : (v.reloaded clip volume pitch fadeIn).InTime :=
  ⟨Levels.InTime.rewindGoto (l := { v.levels with
    baseVolume := volume, basePitch := pitch.getD v.levels.basePitch })
      ⟨h.levels.volumeRun, h.levels.pitchRun⟩ v.source, nofun⟩

variable [Easing Rat]

theorem shape?_eq (h : v.InTime) (hdt : 0 ≤ dt) :
    v.shape? dt = some (v.shape dt) ∧ (v.shape dt).1.levels.InTime := by
  obtain ⟨hvolume, hl⟩ := h.levels.volume?_eq hdt v.source
  obtain ⟨hpitch, hl⟩ := hl.pitch?_eq hdt (v.levels.volume dt v.source).2
  refine ⟨?_, hl⟩
  unfold shape?
  rw [Gain.advance?_eq, hvolume]
  dsimp only [Option.bind_eq_bind, Option.bind_some]
  rw [hpitch]
  rfl

variable {β : Type} [AudioBackend Rat β]

theorem step?_eq (h : v.InTime) (hdt : 0 ≤ dt) (b : β) : v.step? dt b = some (v.step dt b) := by
  unfold step?
  rw [(h.shape?_eq hdt).1]
  rfl

theorem stepped (h : v.InTime) (hdt : 0 ≤ dt) : (v.stepped dt).InTime := by
  refine ⟨?_, by rw [stepped_pending]; exact h.ahead⟩
  have hl := (h.shape?_eq hdt).2
  obtain ⟨-, hv, -⟩ | ⟨-, -, hv, -⟩ | ⟨_, -, -, hv, -⟩ := v.stepped_cases dt <;> rw [hv]
  all_goals exact hl

end InTime

variable [Easing Rat]

theorem start?_eq {levels : Levels Rat} (h : levels.InTime) {β : Type} [AudioBackend Rat β]
    (handle : Handle) (clip : String) (fadeIn : Rat) (looped : Bool) (source : Source) (b : β) :
    start? handle clip levels fadeIn looped source b =
      some (start handle clip levels fadeIn looped source b) := by
  unfold start?
  rw [(inTime_unheard h handle clip fadeIn source).step?_eq le_rfl]
  rfl

namespace InTime

variable {v : Voice Rat} {dt : Rat} {β : Type} [AudioBackend Rat β]

theorem restart?_eq (h : v.InTime) (clip : String) (volume : Rat) (pitch : Option Rat)
    (fadeIn : Rat) (b : β) :
    v.restart? clip volume pitch fadeIn b = some (v.restart clip volume pitch fadeIn b) := by
  unfold restart? restart
  split
  · rfl
  · dsimp only
    rcases AudioBackend.loadClip (if v.state = .stopped then b else AudioBackend.stop b v.handle)
      v.handle clip with ⟨e | ⟨⟩, c⟩
    · rfl
    · dsimp only
      rw [(h.reloaded clip volume pitch fadeIn).step?_eq le_rfl]
      rfl

theorem restart {v' : Voice Rat} {x : Except BackendError Unit} {clip : String} {volume : Rat}
    {pitch : Option Rat} {fadeIn : Rat} {b b' : β} (h : v.InTime)
    (hr : v.restart clip volume pitch fadeIn b = (x, v', b')) : v'.InTime := by
  rw [restart_eq] at hr
  split at hr
  · cases hr
    exact h
  · split at hr <;> cases hr
    · exact ⟨h.levels, nofun⟩
    · exact (h.reloaded clip volume pitch fadeIn).stepped le_rfl

/-- Nothing that a voice in time computes in a step of time violates a guard. -/
theorem advance?_eq (h : v.InTime) (dt : Rat) (b : β) :
    v.advance? dt b = some (v.advance dt b) := by
  have hdt : 0 ≤ Scalar.larger dt 0 := Fraction.larger_nonneg dt
  unfold advance?
  cases hr : v.isReleased with
  | true =>
    rw [advance_of_isReleased hr]
    rfl
  | false =>
    cases hp : v.pending with
    | none =>
      rw [advance_of_not_pending hr hp]
      exact h.step?_eq hdt b
    | some f =>
      dsimp only
      by_cases hd : f.delay ≤ Scalar.larger dt 0 + tolerance
      · have hb := h.before_nonneg hp dt
        have hnow := (h.stepped hb).fadeNow f
        rw [advance_of_due hr hp hd, if_pos hd, h.step?_eq hb, step_eq]
        exact hnow.step?_eq (Fraction.larger_nonneg _) _
      · rw [advance_of_not_due hr hp hd, if_neg hd]
        exact (h.fadeSooner_of_not_due hd).step?_eq hdt b

theorem next (h : v.InTime) (dt : Rat) : (v.next dt).InTime := by
  have hdt : 0 ≤ Scalar.larger dt 0 := Fraction.larger_nonneg dt
  obtain ⟨-, hn, -⟩ | ⟨-, -, hn, -⟩ | ⟨f, _, _, -, hp, -, rfl, rfl, hn, -⟩ |
      ⟨f, -, hp, hd, hn, -⟩ := v.next_cases dt <;> rw [hn]
  · exact h
  · exact h.stepped hdt
  · exact ((h.stepped (h.before_nonneg hp dt)).fadeNow f).stepped (Fraction.larger_nonneg _)
  · exact (h.fadeSooner_of_not_due hd).stepped hdt

theorem nexts (h : v.InTime) (steps : List Rat) :
    (steps.foldl (fun w dt => w.next dt) v).InTime := by
  induction steps generalizing v with
  | nil => exact h
  | cons dt steps ih => exact ih (h.next dt)

end InTime

theorem advanceAll?_eq {β : Type} [AudioBackend Rat β] {vs : List (Voice Rat)}
    (h : ∀ v ∈ vs, v.InTime) (dt : Rat) (b : β) :
    advanceAll? dt vs b = some (advanceAll dt vs b) := by
  induction vs generalizing b with
  | nil => rfl
  | cons v vs ih =>
    obtain ⟨hv, hvs⟩ := List.forall_mem_cons.mp h
    unfold advanceAll?
    rw [hv.advance?_eq]
    dsimp only [Option.bind_eq_bind, Option.bind_some]
    rw [ih hvs]
    rfl

end Voice

end Soundscape
