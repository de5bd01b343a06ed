import Soundscape.Playback.Player
import Soundscape.Proofs.Voice.Fade

/-!
# What a player does when it fires

A player opens a voice (`Player.openVoice_of_ok`), makes fade-outs due that all end alike
(`Player.MakesDue`), and advances the voices that it has and that it has let go
(`Player.advanceVoices_eq`).  `Player.Coherent` says which voice a player has at each place on its
timeline, between two turns of a step.
-/

namespace Soundscape

variable {α : Type}

/-- Whether a statement keeps one voice for all its firings. -/
def Statement.isHeld (s : Statement α) : Bool :=
  s.kind = .oneshot && s.every.isSet && !s.overlap

theorem Statement.isHeld_iff {s : Statement α} :
    s.isHeld ↔ s.kind = .oneshot ∧ s.every.isSet ∧ s.overlap = false := by
  simp [isHeld, and_assoc]

def Clip.Names (reference clip : String) : Prop :=
  ∃ source, (Clip.resolve reference source).1 = clip

/-- What makes an instance the one it is: its number and what it plays. -/
structure Instance (α : Type) where
  id : Nat
  statement : Statement α
  deriving Repr, DecidableEq

namespace Player

/-- The instance that a player is the timeline of. -/
def identity (p : Player α) : Instance α := ⟨p.id, p.statement⟩

theorem statement_of_identity {p : Player α} {i : Instance α} (h : p.identity = i) :
    p.statement = i.statement := by
  rw [← h]
  rfl

/-! ### The voice of a player -/

/-- The player with another voice in place of its own. -/
def having (v : Option (Voice α)) (p : Player α) : Player α := { p with voice := v }

@[simp] theorem having_voice (v : Option (Voice α)) (p : Player α) : (p.having v).voice = v := rfl

@[simp] theorem having_self (p : Player α) : p.having p.voice = p := rfl

@[simp] theorem having_state (v : Option (Voice α)) (p : Player α) :
    (p.having v).state = p.state := rfl

@[simp] theorem having_statement (v : Option (Voice α)) (p : Player α) :
    (p.having v).statement = p.statement := rfl

@[simp] theorem wait?_having (v : Option (Voice α)) (p : Player α) : (p.having v).wait? = p.wait? :=
  rfl

@[simp] theorem isTerminated_having (v : Option (Voice α)) (p : Player α) :
    (p.having v).isTerminated = p.isTerminated := rfl

theorem wait?_of_isTerminated {p : Player α} (ht : p.isTerminated) : p.wait? = none := by
  cases hs : p.state <;> simp [isTerminated, hs] at ht
  simp [wait?, hs]

/-- The voice of a player fits its place on the timeline. -/
def Coherent (p : Player α) : Prop :=
  match p.state with
  | .waitingToStart _ | .terminated => p.voice = none
  | .waitingForNext _ =>
    p.statement.kind = .oneshot ∧ p.statement.every.isSet ∧ p.statement.overlap = p.voice.isNone
  | .playing | .fadingOut =>
    p.statement.kind = .loop ∧ ∃ v, p.voice = some v ∧ v.isReleased = false

theorem Coherent.voice_of_isTerminated {p : Player α} (hp : p.Coherent) (ht : p.isTerminated) :
    p.voice = none := by
  unfold isTerminated at ht
  unfold Coherent at hp
  split at hp <;> simp_all

theorem Coherent.having_of_wait {p : Player α} {v w : Option (Voice α)}
    (hp : (p.having v).Coherent) (hw : p.wait?.isSome) (hv : w.isNone = v.isNone) :
    (p.having w).Coherent := by
  obtain ⟨id, s, state, source, voice⟩ := p
  cases state with
  | waitingToStart remaining =>
    obtain rfl : v = none := hp
    exact Option.isNone_iff_eq_none.mp hv
  | waitingForNext remaining =>
    obtain ⟨hk, he, ho⟩ := hp
    exact ⟨hk, he, ho.trans hv.symm⟩
  | _ => simp [wait?] at hw

variable [Scalar α]

@[simp] theorem waitForNext_having (v : Option (Voice α)) (p : Player α) :
    (p.having v).waitForNext = p.waitForNext.having v := rfl

theorem coherent_waitForNext {v : Option (Voice α)} {p : Player α} :
    (p.waitForNext.having v).Coherent ↔
      p.statement.kind = .oneshot ∧ p.statement.every.isSet ∧ p.statement.overlap = v.isNone :=
  Iff.rfl

theorem coherent_new (id : Nat) (s : Statement α) (source : Source) : (new id s source).Coherent :=
  rfl

theorem waited_having (dt : α) (v : Option (Voice α)) (p : Player α) :
    (p.having v).waited dt = (p.waited dt).having v := by
  unfold waited
  rw [having_state]
  cases p.state <;> rfl

@[simp] theorem waited_identity (dt : α) (p : Player α) : (p.waited dt).identity = p.identity := by
  unfold waited
  cases p.state <;> rfl

theorem Coherent.waited {p : Player α} (hp : p.Coherent) (dt : α) : (p.waited dt).Coherent := by
  obtain ⟨id, s, state, source, voice⟩ := p
  cases state <;> exact hp

/-! ### Fade-outs that a player makes due -/

/-- A change that leaves a voice as it is, or makes a fade-out due. -/
inductive MakesDue (release : Bool) : (Voice α → Voice α) → Prop where
  | nothing : MakesDue release fun v => v
  | fade (delay length : α) : MakesDue release (Voice.scheduleFadeOut delay length release)

section Fade

variable {β γ : Type} [AudioBackend α β] [AudioBackend α γ]

variable {p : Player α} {x y : Option (Voice α)} {v w : Voice α} {b : β} {c : γ}

theorem fadeWithClip_having (fallback : α)
    (hl : clipSeconds fallback v b = clipSeconds fallback w c) (hp : v.pitch = w.pitch) :
    ∃ (source : Source) (f : Voice α → Voice α), MakesDue true f ∧
      fadeWithClip fallback (p.having x) v b = ({ p with source }.having x, f v) ∧
      fadeWithClip fallback (p.having y) w c = ({ p with source }.having y, f w) := by
  refine ⟨(p.statement.fadeOut.sampleOr 0 p.source).2, _, .fade _ _, rfl, ?_⟩
  simp only [fadeWithClip, ← hl, ← hp]
  rfl

theorem fadeAfterDuration_having :
    ∃ (source : Source) (f : Voice α → Voice α), MakesDue true f ∧
      fadeAfterDuration (p.having x) v = ({ p with source }.having x, f v) ∧
      fadeAfterDuration (p.having y) w = ({ p with source }.having y, f w) := by
  unfold fadeAfterDuration
  cases hd : p.statement.duration.isSet with
  | true => exact ⟨_, _, .fade _ _, if_pos hd, if_pos hd⟩
  | false => exact ⟨p.source, _, .nothing, if_neg (by simp [hd]), if_neg (by simp [hd])⟩

theorem fadeCycle_having (fallback : α)
    (hl : clipSeconds fallback v b = clipSeconds fallback w c) :
    ∃ (source : Source) (f : Voice α → Voice α), MakesDue false f ∧
      fadeCycle fallback (p.having x) v b = ({ p with source }.having x, f v) ∧
      fadeCycle fallback (p.having y) w c = ({ p with source }.having y, f w) := by
  by_cases hd : (p.statement.fadeOut.sampleOr 0 p.source).1 ≤ 0
  · exact ⟨_, _, .nothing, if_pos hd, if_pos hd⟩
  · refine ⟨_, _, .fade _ _, if_neg hd, (if_neg hd).trans ?_⟩
    rw [hl]
    rfl

end Fade

/-! ### Draws -/

abbrev Opening (α : Type) := Placement α × Levels α × α × Source

/-- What a player draws for a voice that opens: its clip first, then all that is needed once its
handle was acquired. -/
def draws (p : Player α) : (String × Source) × Opening α × Source :=
  let clip := Clip.resolve p.statement.clip p.source
  (clip, drawOpening p.statement clip.2)

/-- What a player draws to start a held voice again. -/
def drawsAgain (p : Player α) (v : Voice α) : (String × Option α × α × α) × Source :=
  drawRestart p.statement v.levels.movesPitch p.source

/-- What may be drawn for a voice of a statement that opens. -/
def MayOpen (s : Statement α) (o : Opening α) : Prop :=
  ∃ source, (drawOpening s source).1 = o

/-- What may be drawn to start a held voice of a statement again. -/
def MayRestart (s : Statement α) (movesPitch : Bool) (clip : String) (volume : α)
    (pitch : Option α) (fadeIn : α) : Prop :=
  ∃ source, (drawRestart s movesPitch source).1 = (clip, pitch, volume, fadeIn)

theorem mayOpen_draws (p : Player α) : MayOpen p.statement p.draws.2.1 := ⟨_, rfl⟩

theorem mayRestart_drawsAgain (p : Player α) (v : Voice α) :
    MayRestart p.statement v.levels.movesPitch (p.drawsAgain v).1.1 (p.drawsAgain v).1.2.2.1
      (p.drawsAgain v).1.2.1 (p.drawsAgain v).1.2.2.2 := by
  refine ⟨p.source, ?_⟩
  show (p.drawsAgain v).1 = _
  generalize (p.drawsAgain v).1 = d
  rfl

theorem MayRestart.names {s : Statement α} {movesPitch : Bool} {clip : String} {volume : α}
    {pitch : Option α} {fadeIn : α} (h : MayRestart s movesPitch clip volume pitch fadeIn) :
    Clip.Names s.clip clip := by
  obtain ⟨source, h⟩ := h
  refine ⟨source, ?_⟩
  rw [← show (drawRestart s movesPitch source).1.1 = clip from congrArg Prod.fst h]
  cases movesPitch <;> rfl

/-! ### Opening a voice -/

variable [Easing α]

def opened (h : Handle) (clip : String) (o : Opening α) : Voice α :=
  (Voice.unheard h clip o.2.1 o.2.2.1 o.2.2.2).stepped 0

/-- What the handle of a voice is told as it opens. -/
def overture (h : Handle) (clip : String) (o : Opening α) (looped : Bool) : List (Cue α) :=
  .place o.1 :: ((Voice.unheard h clip o.2.1 o.2.2.1 o.2.2.2).stepTells 0 ++ [.play looped])

@[simp] theorem opened_handle (h : Handle) (clip : String) (o : Opening α) :
    (opened h clip o).handle = h :=
  Voice.stepped_handle ..

@[simp] theorem opened_state (h : Handle) (clip : String) (o : Opening α) :
    (opened h clip o).state = .playing :=
  Voice.stepped_state_of_playing rfl 0

@[simp] theorem opened_pending (h : Handle) (clip : String) (o : Opening α) :
    (opened h clip o).pending = none :=
  Voice.stepped_pending ..

theorem opened_onHandle (h k : Handle) (clip : String) (o : Opening α) :
    opened k clip o = (opened h clip o).onHandle k :=
  Voice.stepped_onHandle k 0 (Voice.unheard h clip o.2.1 o.2.2.1 o.2.2.2)

theorem overture_onHandle (h k : Handle) (clip : String) (o : Opening α) (looped : Bool) :
    overture k clip o looped = overture h clip o looped := by
  unfold overture
  rw [← Voice.stepTells_onHandle k 0 (Voice.unheard h clip o.2.1 o.2.2.1 o.2.2.2)]
  rfl

theorem overture_eq (h : Handle) (clip : String) (o : Opening α) (looped : Bool) :
    overture h clip o looped =
      [.place o.1, .setVolume (opened h clip o).volume, .setPitch (opened h clip o).pitch,
        .play looped] := by
  unfold overture opened
  rw [Voice.stepTells_of_playing (v := Voice.unheard h clip o.2.1 o.2.2.1 o.2.2.2) rfl 0]
  rfl

section Backend

variable {β : Type} [AudioBackend α β]

variable {p : Player α} {b b' : β}

theorem openVoice_of_error {e : BackendError}
    (h : AudioBackend.acquire b p.draws.1.1 = (.error e, b')) (looped : Bool) :
    p.openVoice looped b = ({ p with source := p.draws.1.2 }, none, b') := by
  unfold draws at h ⊢
  unfold openVoice
  generalize Clip.resolve p.statement.clip p.source = x at h ⊢
  obtain ⟨clip, source⟩ := x
  dsimp only at h ⊢
  rw [h]

theorem openVoice_of_ok {h : Handle} (ha : AudioBackend.acquire b p.draws.1.1 = (.ok h, b'))
    (looped : Bool) :
    p.openVoice looped b =
      ({ p with source := p.draws.2.2 }, some (opened h p.draws.1.1 p.draws.2.1),
        tellAll b' h (overture h p.draws.1.1 p.draws.2.1 looped)) := by
  unfold draws at ha ⊢
  unfold openVoice
  generalize Clip.resolve p.statement.clip p.source = x at ha ⊢
  obtain ⟨clip, source⟩ := x
  dsimp only at ha ⊢
  rw [ha]
  rcases drawOpening p.statement source with ⟨⟨placement, levels, fadeIn, own⟩, source⟩
  dsimp only
  rw [Voice.start_eq]
  rfl

/-! ### Starting a held voice again -/

variable {v v' : Voice α} {d : (String × Option α × α × α) × Source}

theorem restartHeld_of_error (hd : p.drawsAgain v = d) {e : BackendError}
    (h : v.restart d.1.1 d.1.2.2.1 d.1.2.1 d.1.2.2.2 b = (.error e, v', b')) (fallback : α) :
    (p.having (some v)).restartHeld fallback b =
      ({ p with source := d.2, state := .terminated }.having none, (v'.kill b').2) := by
  unfold drawsAgain at hd
  unfold restartHeld
  dsimp only [having]
  rw [hd]
  obtain ⟨⟨clip, pitch, volume, fadeIn⟩, source⟩ := d
  dsimp only at h ⊢
  rw [h]

theorem restartHeld_of_ok (hd : p.drawsAgain v = d)
    (h : v.restart d.1.1 d.1.2.2.1 d.1.2.1 d.1.2.2.2 b = (.ok (), v', b')) (fallback : α) :
    (p.having (some v)).restartHeld fallback b =
      let x := fadeCycle fallback ({ p with source := d.2 }.having (some v)) v' b'
      (x.1.waitForNext.having (some x.2), b') := by
  unfold drawsAgain at hd
  unfold restartHeld
  dsimp only [having]
  rw [hd]
  obtain ⟨⟨clip, pitch, volume, fadeIn⟩, source⟩ := d
  dsimp only at h ⊢
  rw [h]
  rfl

/-- A step of time moves the voice of a player and the voices that it has let go. -/
theorem advanceVoices_eq (dt : α) (p : Player α) (fresh : List (Voice α)) (b : β) :
    p.advanceVoices dt fresh b =
      (p.having (p.voice.map (Voice.next dt)), fresh.map (Voice.next dt),
        Voice.tellEach (Voice.tells dt) (p.voice.toList ++ fresh) b) := by
  obtain ⟨id, statement, state, source, voice⟩ := p
  cases voice with
  | none => simp [advanceVoices, Voice.advanceAll_eq, having]
  | some v =>
    simp only [advanceVoices, Voice.advance_eq, Voice.advanceAll_eq]
    rfl

theorem Progress.player_spend (dt : α) (x : Progress α β) :
    (x.spend dt).player = x.player.having (x.player.voice.map (Voice.next dt)) := by
  unfold Progress.spend
  rw [advanceVoices_eq]

theorem turn_of_isTerminated (ht : p.isTerminated) (hv : p.voice = none) (fallback dt : α) (b : β) :
    Progress.turn fallback ⟨dt, p, [], b⟩ = (false, ⟨dt, p, [], b⟩) := by
  have hp : p.having none = p := by rw [← hv, having_self]
  simp [Progress.turn, wait?_of_isTerminated ht, Progress.spend, advanceVoices_eq, hv, hp, ht,
    Voice.tellEach]

theorem advance_of_isTerminated (ht : p.isTerminated) (hv : p.voice = none) (dt fallback : α)
    (b : β) : p.advance dt fallback b = (p, [], b) := by
  unfold advance turnBound
  dsimp only
  rw [Progress.run, turn_of_isTerminated ht hv]

theorem advanceFate_of_isTerminated (ht : p.isTerminated) (hv : p.voice = none) (dt fallback : α)
    (b : β) : p.advanceFate dt fallback b = .ok () := by
  unfold advanceFate turnBound
  dsimp only
  rw [Progress.runFate, turn_of_isTerminated ht hv, Progress.turnFate, wait?_of_isTerminated ht]
  simp only [Progress.spendFate, hv]
  rfl

end Backend

end Player

end Soundscape
