import Soundscape.Proofs.Player.Lifecycle
import Soundscape.Proofs.Voice.Checked

/-!
# Players with checked arithmetic

What a player does once more with the guards of its arithmetic checked, those of its voices
(`Soundscape.Proofs.Voice.Checked`) and its own: a time is clamped into an interval that has its
ends in order, the length of a clip is divided by a positive pitch, and fade-outs are made due after
a delay and over a length that are not negative.

On exact fractions no guard is ever violated, whatever a statement says, as long as no clip is told
to have a negative length (`Player.guarded_throughout`).
-/

namespace Soundscape

/-! ### Backends that measure -/

namespace AudioBackend

variable {β : Type} [AudioBackend Rat β]

/-- Whatever the backend is asked for, no length of a clip that it tells is negative. -/
def Measures (b : β) : Prop :=
  ∀ rs h l, clipLength (performAll b rs).2 h = some l → 0 ≤ l

namespace Measures

variable {b b' : β}

theorem perform (hb : Measures b) (r : Request Rat) : Measures (AudioBackend.perform b r).2 :=
  fun rs => hb (r :: rs)

theorem tell (hb : Measures b) (h : Handle) (c : Cue Rat) : Measures (Soundscape.tell b h c) := by
  cases c with
  | setVolume v => exact hb.perform (.setVolume h v)
  | setPitch v => exact hb.perform (.setPitch h v)
  | play looped => exact hb.perform (.play h looped)
  | stop => exact hb.perform (.stop h)
  | release => exact hb.perform (.release h)
  | place p => exact hb.perform (.place h p)

theorem tellAll (hb : Measures b) (h : Handle) (cs : List (Cue Rat)) :
    Measures (Soundscape.tellAll b h cs) := by
  induction cs generalizing b with
  | nil => exact hb
  | cons c cs ih => exact ih (hb.tell h c)

theorem tellEach (hb : Measures b) (f : Voice Rat → List (Cue Rat)) (vs : List (Voice Rat)) :
    Measures (Voice.tellEach f vs b) := by
  induction vs generalizing b with
  | nil => exact hb
  | cons v vs ih => exact ih (hb.tellAll v.handle (f v))

theorem acquire (hb : Measures b) {clip : String} {x : Except BackendError Handle}
    (ha : AudioBackend.acquire b clip = (x, b')) : Measures b' := by
  have h := hb.perform (.acquire clip)
  rwa [perform_acquire_snd, ha] at h

theorem loadClip (hb : Measures b) {h : Handle} {clip : String} {x : Except BackendError Unit}
    (hl : AudioBackend.loadClip b h clip = (x, b')) : Measures b' := by
  have h := hb.perform (.loadClip h clip)
  rwa [perform_loadClip_snd, hl] at h

theorem clipSeconds (hb : Measures b) {fallback : Rat} (hf : 0 ≤ fallback) (v : Voice Rat) :
    0 ≤ Player.clipSeconds fallback v b := by
  unfold Player.clipSeconds
  cases hl : clipLength b v.handle with
  | none => exact hf
  | some l => exact hb [] v.handle l hl

theorem restart [Easing Rat] (hb : Measures b) {v v' : Voice Rat} {x : Except BackendError Unit}
    {clip : String} {volume : Rat} {pitch : Option Rat} {fadeIn : Rat}
    (hr : v.restart clip volume pitch fadeIn b = (x, v', b')) : Measures b' := by
  rw [Voice.restart_eq] at hr
  split at hr
  · cases hr
    exact hb
  · have hh := hb.tellAll v.handle v.hush
    rcases hl : AudioBackend.loadClip (Soundscape.tellAll b v.handle v.hush) v.handle clip with
      ⟨e | ⟨⟩, c⟩ <;> rw [hl] at hr <;> cases hr
    · exact hh.loadClip hl
    · exact (hh.loadClip hl).tellAll _ _

end Measures

end AudioBackend

theorem Recording.measures {r : Recording Rat} (hd : 0 ≤ r.defaultLength)
    (hl : ∀ x ∈ r.lengths, 0 ≤ x.2) : AudioBackend.Measures r := by
  have hlength (clip : String) : 0 ≤ r.lengthOf clip := by
    unfold lengthOf
    cases hc : r.lengths.lookup clip with
    | none => exact hd
    | some l =>
      obtain ⟨before, after, hm, -⟩ := List.lookup_eq_some_iff.mp hc
      exact hl (clip, l) (by simp [hm])
  intro rs h l hc
  obtain ⟨s, -, rfl⟩ := Option.map_eq_some_iff.mp hc
  rw [lengthOf_congr (r.tables_performAll rs)]
  exact hlength s.clip

/-! ### Checked operations -/

namespace Player

variable {α : Type} [Scalar α] {β : Type} [AudioBackend α β]

open AudioBackend

/-- How long a clip takes at a pitch, or at pitch one if it is not positive. -/
def lifetime? (length pitch : α) : Option α :=
  if 0 < pitch then Scalar.divide? length pitch else some length

/-- Makes the fade-out due that ends a voice of a one-shot together with its clip. -/
def fadeWithClip? (fallback : α) (p : Player α) (v : Voice α) (b : β) :
    Option (Player α × Voice α) := do
  let lifetime ← lifetime? (clipSeconds fallback v b) v.pitch
  let (drawn, source) := p.statement.fadeOut.sampleOr 0 p.source
  let fade ← Scalar.clamp? drawn 0 lifetime
  let v ← v.scheduleFadeOut? (lifetime - fade) fade true
  pure ({ p with source }, v)

/-- Makes the fade-out due that ends a looping voice, if its statement has a duration. -/
def fadeAfterDuration? (p : Player α) (v : Voice α) : Option (Player α × Voice α) :=
  if p.statement.duration.isSet then do
    let (drawn, source) := p.statement.duration.sample p.source
    let duration := Scalar.larger drawn 0
    let (drawn, source) := p.statement.fadeOut.sampleOr 0 source
    let fade ← Scalar.clamp? drawn 0 duration
    let v ← v.scheduleFadeOut? (duration - fade) fade true
    pure ({ p with source }, v)
  else some (p, v)

/-- Makes the fade-out due that silences a held voice at the end of its clip, if its statement has
one. -/
def fadeCycle? (fallback : α) (p : Player α) (v : Voice α) (b : β) :
    Option (Player α × Voice α) := do
  let (drawn, source) := p.statement.fadeOut.sampleOr 0 p.source
  let p := { p with source }
  if drawn ≤ 0 then pure (p, v)
  else
    let length := clipSeconds fallback v b
    let fade := Scalar.smaller drawn length
    let v ← v.scheduleFadeOut? (length - fade) fade false
    pure (p, v)

variable [Easing α]

/-- Acquires a handle for a clip and starts it. -/
def openVoice? (looped : Bool) (p : Player α) (b : β) :
    Option (Player α × Option (Voice α) × β) :=
  let (clip, source) := Clip.resolve p.statement.clip p.source
  match acquire b clip with
  | (.error _, b) => some ({ p with source }, none, b)
  | (.ok handle, b) => do
    let ((placement, levels, fadeIn, own), source) := drawOpening p.statement source
    let b := place b handle placement
    let (v, b) ← Voice.start? handle clip levels fadeIn looped own b
    pure ({ p with source }, some v, b)

def startLoop? (p : Player α) (b : β) : Option (Player α × β) := do
  match ← p.openVoice? true b with
  | (p, none, b) => pure (p.terminate, b)
  | (p, some v, b) =>
    let (p, v) ← p.fadeAfterDuration? v
    pure ({ p with voice := some v, state := .playing }, b)

/-- Starts a voice that plays its clip once and ends by itself. -/
def openTransient? (fallback : α) (p : Player α) (b : β) :
    Option (Player α × Option (Voice α) × β) := do
  match ← p.openVoice? false b with
  | (p, none, b) => pure (p, none, b)
  | (p, some v, b) =>
    let (p, v) ← p.fadeWithClip? fallback v b
    pure (p, some v, b)

def startHeld? (fallback : α) (p : Player α) (b : β) : Option (Player α × β) := do
  match ← p.openVoice? false b with
  | (p, none, b) => pure (p.terminate, b)
  | (p, some v, b) =>
    let (p, v) ← p.fadeCycle? fallback v b
    pure ({ p with voice := some v }.waitForNext, b)

def restartHeld? (fallback : α) (p : Player α) (b : β) : Option (Player α × β) :=
  match p.voice with
  | none => some (p.terminate, b)
  | some v => do
    let ((clip, pitch, volume, fadeIn), source) :=
      drawRestart p.statement v.levels.movesPitch p.source
    let p := { p with source }
    match ← v.restart? clip volume pitch fadeIn b with
    | (.error _, v, b) => pure ({ p with voice := none, state := .terminated }, (v.kill b).2)
    | (.ok (), v, b) =>
      let (p, v) ← p.fadeCycle? fallback v b
      pure ({ p with voice := some v }.waitForNext, b)

def fire? (fallback : α) (p : Player α) (b : β) : Option (Player α × Option (Voice α) × β) :=
  match p.statement.kind with
  | .loop => do
    let (p, b) ← p.startLoop? b
    pure (p, none, b)
  | .oneshot =>
    if !p.statement.every.isSet then do
      let (p, v, b) ← p.openTransient? fallback b
      pure (p.terminate, v, b)
    else if p.statement.overlap then do
      let (p, v, b) ← p.openTransient? fallback b
      pure (if v.isSome then p.waitForNext else p.terminate, v, b)
    else do
      let (p, b) ← match p.state with
        | .waitingToStart _ => p.startHeld? fallback b
        | _ => p.restartHeld? fallback b
      pure (p, none, b)

/-- A step of time for the voice of the player and for voices that it has let go. -/
def advanceVoices? (dt : α) (p : Player α) (fresh : List (Voice α)) (b : β) :
    Option (Player α × List (Voice α) × β) :=
  match p.voice with
  | some v => do
    let (v, b) ← v.advance? dt b
    let (fresh, b) ← Voice.advanceAll? dt fresh b
    pure ({ p with voice := some v }, fresh, b)
  | none => do
    let (fresh, b) ← Voice.advanceAll? dt fresh b
    pure (p, fresh, b)

namespace Progress

/-- Uses up some of what is left of a step. -/
def spend? (x : Progress α β) (dt : α) : Option (Progress α β) := do
  let (player, fresh, backend) ← x.player.advanceVoices? dt x.fresh x.backend
  pure { x with player, fresh, backend }

def turn? (fallback : α) (x : Progress α β) : Option (Bool × Progress α β) :=
  match x.player.wait? with
  | none => do
    let y ← x.spend? x.budget
    pure (false, { y with
      player := if y.player.isTerminated then y.player else y.player.followVoice })
  | some remaining =>
    if x.budget + tolerance < remaining then do
      let y ← x.spend? x.budget
      pure (false, { y with player := y.player.waited x.budget })
    else do
      let dt ← Scalar.clamp? remaining 0 x.budget
      let y ← x.spend? dt
      let (player, v, backend) ← y.player.fire? fallback y.backend
      pure (true, ⟨Scalar.larger (x.budget - dt) 0, player, y.fresh ++ v.toList, backend⟩)

/-- Takes turns until the step is over, as it has to be before the last of them. -/
def run? (fallback : α) : Nat → Progress α β → Option (Progress α β)
  | 0, _ => none
  | turns + 1, x => do
    match ← x.turn? fallback with
    | (true, y) => run? fallback turns y
    | (false, y) => pure y

end Progress

def advance? (dt fallback : α) (p : Player α) (b : β) :
    Option (Player α × List (Voice α) × β) := do
  let dt := Scalar.larger dt 0
  let x ← Progress.run? fallback (turnBound dt) ⟨dt, p, [], b⟩
  pure (x.player, x.fresh, x.backend)

end Player

/-! ### Fade-outs that a player makes due -/

namespace Player

variable {p : Player Rat} {v : Voice Rat} {β : Type} [AudioBackend Rat β] {b : β} {fallback : Rat}

open AudioBackend (Measures)

theorem lifetime?_eq {length : Rat} (hl : 0 ≤ length) (pitch : Rat) :
    lifetime? length pitch = some (if 0 < pitch then length / pitch else length) ∧
      0 ≤ if 0 < pitch then length / pitch else length := by
  unfold lifetime?
  split
  · next hp => exact ⟨if_pos hp, div_nonneg hl hp.le⟩
  · exact ⟨rfl, hl⟩

theorem scheduleFadeOut?_clamp {time : Rat} (ht : 0 ≤ time) (drawn : Rat) (release : Bool)
    (v : Voice Rat) :
    Scalar.clamp? drawn 0 time = some (Scalar.clamp drawn 0 time) ∧
      v.scheduleFadeOut? (time - Scalar.clamp drawn 0 time) (Scalar.clamp drawn 0 time) release =
        some (v.scheduleFadeOut (time - Scalar.clamp drawn 0 time) (Scalar.clamp drawn 0 time)
          release) :=
  ⟨if_pos ht, Voice.scheduleFadeOut?_eq (sub_nonneg.mpr (Fraction.clamp_le drawn time))
    (Fraction.clamp_nonneg drawn ht) release v⟩

theorem fadeWithClip?_eq (hb : Measures b) (hf : 0 ≤ fallback) (p : Player Rat) (v : Voice Rat) :
    p.fadeWithClip? fallback v b = some (p.fadeWithClip fallback v b) := by
  obtain ⟨hlifetime, hl⟩ := lifetime?_eq (hb.clipSeconds hf v) v.pitch
  unfold fadeWithClip? fadeWithClip
  rcases p.statement.fadeOut.sampleOr 0 p.source with ⟨drawn, source⟩
  obtain ⟨hclamp, hfade⟩ := scheduleFadeOut?_clamp hl drawn true v
  dsimp only
  rw [hlifetime, Option.bind_eq_bind, Option.bind_some, hclamp, Option.bind_eq_bind,
    Option.bind_some, hfade]
  rfl

theorem fadeAfterDuration?_eq (p : Player Rat) (v : Voice Rat) :
    p.fadeAfterDuration? v = some (p.fadeAfterDuration v) := by
  unfold fadeAfterDuration? fadeAfterDuration
  rcases p.statement.duration.sample p.source with ⟨duration, source⟩
  dsimp only
  rcases p.statement.fadeOut.sampleOr 0 source with ⟨drawn, source⟩
  obtain ⟨hclamp, hfade⟩ := scheduleFadeOut?_clamp (Fraction.larger_nonneg duration) drawn true v
  dsimp only
  split
  · rw [hclamp, Option.bind_eq_bind, Option.bind_some, hfade]
    rfl
  · rfl

theorem fadeCycle?_eq (hb : Measures b) (hf : 0 ≤ fallback) (p : Player Rat) (v : Voice Rat) :
    p.fadeCycle? fallback v b = some (p.fadeCycle fallback v b) := by
  unfold fadeCycle? fadeCycle
  rcases p.statement.fadeOut.sampleOr 0 p.source with ⟨drawn, source⟩
  dsimp only
  split
  · rfl
  · next hd =>
    have hl := hb.clipSeconds hf v
    have hfade : 0 ≤ Scalar.smaller drawn (clipSeconds fallback v b) :=
      Fraction.smaller_nonneg (not_le.mp hd).le hl
    have hdelay : 0 ≤ clipSeconds fallback v b -
        Scalar.smaller drawn (clipSeconds fallback v b) := by
      rw [Fraction.smaller_eq]
      exact sub_nonneg.mpr (min_le_right _ _)
    rw [Voice.scheduleFadeOut?_eq hdelay hfade]
    rfl

/-! ### Firing -/

variable [Easing Rat]

omit [Easing Rat] in
theorem MayOpen.inTime {s : Statement Rat} {o : Opening Rat} (h : MayOpen s o) :
    o.2.1.InTime := by
  obtain ⟨source, rfl⟩ := h
  exact Levels.inTime_start ..

theorem opened_inTime {s : Statement Rat} {o : Opening Rat} (ho : MayOpen s o) (h : Handle)
    (clip : String) : (opened h clip o).InTime :=
  (Voice.inTime_unheard ho.inTime h clip o.2.2.1 o.2.2.2).stepped le_rfl

theorem openVoice?_eq (looped : Bool) (p : Player Rat) (b : β) :
    p.openVoice? looped b = some (p.openVoice looped b) := by
  unfold openVoice? openVoice
  rcases Clip.resolve p.statement.clip p.source with ⟨clip, source⟩
  dsimp only
  rcases AudioBackend.acquire b clip with ⟨e | h, c⟩
  · rfl
  · have ho : MayOpen p.statement (drawOpening p.statement source).1 := ⟨source, rfl⟩
    generalize drawOpening p.statement source = d at ho
    obtain ⟨⟨placement, levels, fadeIn, own⟩, source⟩ := d
    dsimp only
    rw [Voice.start?_eq ho.inTime]
    rfl

theorem measures_openVoice (hb : Measures b) {looped : Bool} {q : Player Rat}
    {v : Option (Voice Rat)} {c : β} (h : p.openVoice looped b = (q, v, c)) : Measures c := by
  rcases ha : AudioBackend.acquire b p.draws.1.1 with ⟨e | k, b'⟩
  · rw [openVoice_of_error ha] at h
    cases h
    exact hb.acquire ha
  · rw [openVoice_of_ok ha] at h
    cases h
    exact (hb.acquire ha).tellAll _ _

theorem startLoop?_eq (p : Player Rat) (b : β) : p.startLoop? b = some (p.startLoop b) := by
  unfold startLoop? startLoop
  rw [openVoice?_eq]
  rcases p.openVoice true b with ⟨q, _ | v, c⟩
  · rfl
  · dsimp only [Option.bind_eq_bind, Option.bind_some]
    rw [fadeAfterDuration?_eq]
    rfl

theorem openTransient?_eq (hb : Measures b) (hf : 0 ≤ fallback) (p : Player Rat) :
    p.openTransient? fallback b = some (p.openTransient fallback b) := by
  unfold openTransient? openTransient
  rw [openVoice?_eq]
  rcases h : p.openVoice false b with ⟨q, _ | v, c⟩
  · rfl
  · dsimp only [Option.bind_eq_bind, Option.bind_some]
    rw [fadeWithClip?_eq (measures_openVoice hb h) hf]
    rfl

theorem startHeld?_eq (hb : Measures b) (hf : 0 ≤ fallback) (p : Player Rat) :
    p.startHeld? fallback b = some (p.startHeld fallback b) := by
  unfold startHeld? startHeld
  rw [openVoice?_eq]
  rcases h : p.openVoice false b with ⟨q, _ | v, c⟩
  · rfl
  · dsimp only [Option.bind_eq_bind, Option.bind_some]
    rw [fadeCycle?_eq (measures_openVoice hb h) hf]
    rfl

theorem restartHeld?_eq (hb : Measures b) (hf : 0 ≤ fallback) (hv : ∀ v ∈ p.voice, v.InTime) :
    p.restartHeld? fallback b = some (p.restartHeld fallback b) := by
  unfold restartHeld? restartHeld
  cases hp : p.voice with
  | none => rfl
  | some v =>
    dsimp only
    rcases drawRestart p.statement v.levels.movesPitch p.source with
      ⟨⟨clip, pitch, volume, fadeIn⟩, source⟩
    dsimp only
    rw [(hv v hp).restart?_eq]
    rcases h : v.restart clip volume pitch fadeIn b with ⟨e | ⟨⟩, w, c⟩
    · rfl
    · dsimp only [Option.bind_eq_bind, Option.bind_some]
      rw [fadeCycle?_eq (hb.restart h) hf]
      rfl

theorem fire?_eq (hb : Measures b) (hf : 0 ≤ fallback) (hv : ∀ v ∈ p.voice, v.InTime) :
    p.fire? fallback b = some (p.fire fallback b) := by
  unfold fire? fire
  rw [startLoop?_eq, openTransient?_eq hb hf, startHeld?_eq hb hf, restartHeld?_eq hb hf hv]
  cases p.statement.kind with
  | loop => rfl
  | oneshot =>
    dsimp only
    split
    · rfl
    · split
      · rfl
      · cases p.state <;> rfl

/-! ### Turns -/

theorem advanceVoices?_eq (hv : ∀ v ∈ p.voice, v.InTime) {fresh : List (Voice Rat)}
    (hfresh : ∀ v ∈ fresh, v.InTime) (dt : Rat) (b : β) :
    p.advanceVoices? dt fresh b = some (p.advanceVoices dt fresh b) := by
  unfold advanceVoices? advanceVoices
  cases hp : p.voice with
  | none =>
    dsimp only
    rw [Voice.advanceAll?_eq hfresh]
    rfl
  | some v =>
    dsimp only
    rw [(hv v hp).advance?_eq, Option.bind_eq_bind, Option.bind_some,
      Voice.advanceAll?_eq hfresh]
    rfl

theorem alone_inTime (s : Statement Rat) :
    Alone s fun (vs : List (Voice Rat)) (_ : β) => ∀ v ∈ vs, v.InTime :=
  .each (fun dt h => h.next dt) (fun delay length _ h => h.scheduleFadeOut delay length _)
    (fun h clip ho => opened_inTime ho h clip) fun hr h => h.restart hr

theorem alone_measures (s : Statement Rat) :
    Alone s fun (_ : List (Voice Rat)) (b : β) => Measures b where
  perm _ hb := hb
  advance dt hb := hb.tellAll _ _
  drop _ hb := hb
  fade _ _ _ hb := hb
  refused ha hb := hb.acquire ha
  opening _ _ ha hb := (hb.acquire ha).tellAll _ _
  restart _ _ hr hb := hb.restart hr
  giveUp _ _ hr hb := by
    rw [Voice.kill_eq]
    exact (hb.restart hr).tellAll _ _

namespace Progress

variable {i : Instance Rat} {x : Progress Rat β}

/-- Within a step: no more time was used up than there was, and all voices are in time. -/
structure InTime (i : Instance Rat) (x : Progress Rat β) : Prop where
  identity : x.player.identity = i
  coherent : x.player.Coherent
  budget : 0 ≤ x.budget
  voices : ∀ v ∈ x.player.voice.toList ++ x.fresh, v.InTime
  measures : Measures x.backend

namespace InTime

omit [Easing Rat] in
theorem held (h : x.InTime i) : ∀ v ∈ x.player.voice, v.InTime :=
  fun v hv => h.voices v (List.mem_append_left _ (Option.mem_toList.mpr hv))

theorem spend?_eq (h : x.InTime i) (dt : Rat) : x.spend? dt = some (x.spend dt) := by
  unfold spend?
  rw [advanceVoices?_eq h.held fun v hv => h.voices v (List.mem_append_right _ hv)]
  rfl

theorem held_spend (h : x.InTime i) (dt : Rat) : ∀ v ∈ (x.spend dt).player.voice, v.InTime := by
  rw [player_spend, having_voice]
  intro v hv
  obtain ⟨w, hw, rfl⟩ := Option.map_eq_some_iff.mp hv
  exact (h.held w hw).next dt

theorem measures_spend (h : x.InTime i) (dt : Rat) : Measures (x.spend dt).backend := by
  unfold spend
  rw [advanceVoices_eq]
  exact h.measures.tellEach _ _

theorem turn?_eq (h : x.InTime i) (hf : 0 ≤ fallback) :
    x.turn? fallback = some (x.turn fallback) := by
  unfold turn? turn
  cases x.player.wait? with
  | none =>
    dsimp only
    rw [h.spend?_eq]
    rfl
  | some r =>
    dsimp only
    rw [h.spend?_eq]
    split
    · rfl
    · rw [Scalar.clamp?, if_pos h.budget, Option.bind_eq_bind, Option.bind_some, h.spend?_eq,
        Option.bind_eq_bind, Option.bind_some,
        fire?_eq (h.measures_spend _) hf (h.held_spend _)]
      rfl

theorem turn (h : x.InTime i) (fallback : Rat) : (x.turn fallback).2.InTime i := by
  obtain ⟨hi, hc, hv⟩ :=
    (alone_inTime i.statement).turn h.identity h.coherent h.voices fallback
  obtain ⟨-, -, hb⟩ :=
    (alone_measures i.statement).turn h.identity h.coherent h.measures fallback
  refine ⟨hi, hc, ?_, hv, hb⟩
  obtain ⟨-, ht⟩ | ⟨r, -, -, ht⟩ := x.turn_cases fallback <;> rw [ht]
  · unfold finished
    dsimp only
    split <;> exact h.budget
  · exact Fraction.larger_nonneg _

theorem run?_eq (h : x.InTime i) (hf : 0 ≤ fallback) {n : Nat} (hn : x.Stops fallback n) :
    x.run? fallback n = some (x.run fallback n) := by
  induction n generalizing x with
  | zero => exact hn.elim
  | succ n ih =>
    have hturn := h.turn fallback
    unfold run? run
    rw [h.turn?_eq hf, Option.bind_eq_bind, Option.bind_some]
    rcases ht : x.turn fallback with ⟨_ | _, y⟩
    · rfl
    · rw [ht] at hturn
      exact ih hturn (hn.of_fired ht)

end InTime

end Progress

/-! ### Whatever is done with a player -/

theorem inTime_operated {i : Instance Rat} (hp : p.Steady i) (hv : ∀ v ∈ p.voice, v.InTime)
    (ops : List (Operation Rat β)) : ∀ v ∈ (ops.foldl operated p).voice, v.InTime := by
  induction ops generalizing p with
  | nil => exact hv
  | cons op ops ih =>
    refine ih (hp.operated [op]) ?_
    cases op with
    | advance dt fallback b =>
      obtain ⟨-, -, h⟩ := (alone_inTime p.statement).advancePlayer hp.coherent
        (fun v hm => hv v (Option.mem_toList.mp hm)) dt fallback (b := b)
      exact fun v hm => h v (List.mem_append_left _ (Option.mem_toList.mpr hm))
    | cancel b =>
      show ∀ v ∈ (p.cancel b).1.voice, v.InTime
      unfold cancel
      split
      · exact fun v hm => absurd hm (Option.not_mem_none v)
      · exact hv

/-- Whatever was done with an instance of a statement, in a step of time on a backend that measures
its clips no guard is violated and the loops come to their ends; and so it stays with the voices
that are let go in the step, however often they are moved on. -/
theorem guarded_throughout (id : Nat) (s : Statement Rat) (source : Source)
    (ops : List (Operation Rat β)) (dt : Rat) {fallback : Rat} {b : β} (hf : 0 ≤ fallback)
    (hb : Measures b) :
    let p := ops.foldl operated (new id s source)
    p.advance? dt fallback b = some (p.advance dt fallback b) ∧
      ∀ v ∈ (p.advance dt fallback b).2.1, ∀ (steps : List Rat) (d : Rat) (c : β),
        let w := steps.foldl (fun w e => w.next e) v
        w.advance? d c = some (w.advance d c) := by
  intro p
  have hp : p.Steady ⟨id, s⟩ := (steady_new id s source).operated ops
  have hv : ∀ v ∈ p.voice, v.InTime :=
    inTime_operated (steady_new id s source) (fun v hv => absurd hv (Option.not_mem_none v)) ops
  have hx : (⟨Scalar.larger dt 0, p, [], b⟩ : Progress Rat β).InTime ⟨id, s⟩ :=
    ⟨hp.identity, hp.coherent, Fraction.larger_nonneg dt, by simpa using hv, hb⟩
  refine ⟨?_, fun v hm steps d c => ?_⟩
  · unfold advance?
    dsimp only
    rw [hx.run?_eq hf (Progress.stops_turnBound fallback hx.budget)]
    rfl
  · obtain ⟨-, -, h⟩ := (alone_inTime p.statement).advancePlayer hp.coherent
      (fun v hm => hv v (Option.mem_toList.mp hm)) dt fallback (b := b)
    exact ((h v (List.mem_append_right _ hm)).nexts steps).advance?_eq d c

/-- A statement whose times all run backwards, and its pitch too. -/
def ebb : Statement Rat where
  kind := .oneshot
  clip := "gull"
  count := 1
  startsAt := .fixed (-3)
  duration := .fixed (-1)
  every := .fixed (-1)
  volume := .fixed (-1)
  pitch := .range (-1) 1
  fadeIn := .fixed (-1)
  fadeOut := .range (-2) 2
  overlap := true
  movement := .still
  visuals := []
  volumeInterpolation := some (.plain .gobetween (.fixed 1) (.fixed 0) (.range (-1) 1) "linear")
  pitchInterpolation := none
  line := 1

omit [Easing Rat] in
/-- Five voices are let go in a twentieth of a second. -/
theorem guarded_throughout_ebb :
    let _ : Easing Rat := ⟨fun _ x => 3 * x⟩
    let b : Recording Rat := .empty 2 [("gull", 1 / 2)] []
    let ops : List (Operation Rat (Recording Rat)) := [.advance (1 / 50) 1 b]
    let p := ops.foldl operated (new 0 ebb (.ofWords []))
    (0 : Rat) ≤ 1 ∧ AudioBackend.Measures b ∧ (p.advance (1 / 20) 1 b).2.1.length = 5 ∧
      p.advance? (1 / 20) 1 b = some (p.advance (1 / 20) 1 b) ∧
      ∀ v ∈ (p.advance (1 / 20) 1 b).2.1, ∀ (steps : List Rat) (d : Rat) (c : Recording Rat),
        let w := steps.foldl (fun w e => w.next e) v
        w.advance? d c = some (w.advance d c) := by
  intro _ b ops p
  have hb : AudioBackend.Measures b := Recording.measures (by decide) (by decide +kernel)
  exact ⟨by decide, hb, by decide +kernel,
    guarded_throughout 0 ebb (.ofWords []) ops (1 / 20) (by decide) hb⟩

end Player

end Soundscape
