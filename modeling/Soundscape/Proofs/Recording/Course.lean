import Soundscape.Proofs.Recording.Protocol

/-!
# A voice and its handle

A channel is on course when what was done with its handle is a `Word`, and the handle is live until
the word is over.  `Kept` says so of a voice and the channel of its handle, between two operations.
Every operation of a voice keeps it (`Kept.next`, `Kept.reload`) or ends in a handle that was given
back (`Kept.kill`, `Kept.giveUp`).
-/

namespace Soundscape

variable {α : Type}

/-- The handle has come as far as the stage in the life of a statement's handle. -/
structure Course (s : Statement α) (stage : Stage) (c : Channel α) : Prop where
  live : c.state.isSome = (stage != .ended)
  word : Word s c.missing stage c.deeds

/-- What holds between a voice of a statement and the channel of its handle. -/
structure Kept (s : Statement α) (v : Voice α) (c : Channel α) : Prop where
  fades : v.Fades !s.isHeld
  course : Course s v.state.stage c

namespace Channel

@[simp] theorem missing_tell (c : Channel α) (h : Handle) (q : Cue α) :
    (tell c h q).missing = c.missing := by
  obtain ⟨missing, state, deeds⟩ := c
  cases q <;> cases state <;> rfl

@[simp] theorem missing_tellAll (c : Channel α) (h : Handle) (qs : List (Cue α)) :
    (tellAll c h qs).missing = c.missing := by
  induction qs generalizing c with
  | nil => rfl
  | cons q qs ih => rw [tellAll_cons, ih, missing_tell]

variable {c : Channel α}

theorem deeds_tell (hc : c.state.isSome) (h : Handle) (q : Cue α) :
    (tell c h q).deeds = c.deeds ++ [.told q] := by
  obtain ⟨missing, _ | state, deeds⟩ := c
  · simp at hc
  · cases q <;> rfl

theorem state_tell_release (c : Channel α) (h : Handle) : (tell c h .release).state = none := by
  obtain ⟨missing, _ | state, deeds⟩ := c <;> rfl

/-- A live handle gets another clip unless that clip is missing. -/
theorem loadClip_live {missing : List String} {state : HandleState α} {deeds : List (Deed α)}
    {clip : String} (hm : missing.contains clip = false) (h : Handle) :
    loadClip ⟨missing, some state, deeds⟩ h clip =
      (.ok (), ⟨missing, some { state with clip, playing := false },
        deeds ++ [.loadClip clip]⟩) := by
  simp only [loadClip, hm]
  rfl

end Channel

namespace Course

variable {s : Statement α} {c : Channel α}

theorem dead (hc : Course s .ended c) : c.state = none := by
  simpa using hc.live

theorem lose {stage : Stage} (hc : Course s stage c) (clip : String) :
    Course s stage { c with missing := clip :: c.missing } :=
  ⟨hc.live, hc.word.mono (List.subset_cons_self ..)⟩

theorem writes (hc : Course s .sounding c) (h : Handle) {ws : List (Cue α)}
    (hw : ∀ q ∈ ws, q.isWrite) : Course s .sounding (tellAll c h ws) := by
  induction ws generalizing c with
  | nil => exact hc
  | cons q ws ih =>
    obtain ⟨hq, hw⟩ := List.forall_mem_cons.mp hw
    refine ih ⟨?_, ?_⟩ hw
    · exact Channel.isSome_tell hc.live h fun e => by simp [e, Cue.isWrite] at hq
    · rw [Channel.deeds_tell hc.live, Channel.missing_tell]
      have hws : ∀ p ∈ [q], p.isWrite := by simpa using hq
      exact hc.word.writes hws

theorem stop (hc : Course s .sounding c) (h : Handle) : Course s .silent (tell c h .stop) where
  live := Channel.isSome_tell hc.live h nofun
  word := by
    rw [Channel.deeds_tell hc.live, Channel.missing_tell]
    exact hc.word.stop

theorem release (hc : Course s .silent c) (h : Handle) : Course s .ended (tell c h .release) where
  live := by simp [Channel.state_tell_release]
  word := by
    rw [Channel.deeds_tell hc.live, Channel.missing_tell]
    exact hc.word.release

theorem farewell (hc : Course s .sounding c) (h : Handle) (r : Bool) :
    Course s (VoiceState.afterFade r).stage (tellAll c h (Cue.farewell r)) := by
  cases r with
  | true => exact (hc.stop h).release h
  | false => exact hc.stop h

theorem giveUp (hc : Course s .sounding c) (h : Handle) (hs : s.isHeld) (hm : s.Lacks c.missing) :
    Course s .ended (tellAll c h [.stop, .stop, .release]) := by
  have h₁ : (tell c h .stop).state.isSome := Channel.isSome_tell hc.live h nofun
  have h₂ : (tell (tell c h .stop) h .stop).state.isSome := Channel.isSome_tell h₁ h nofun
  refine ⟨by simp [Channel.state_tell_release], ?_⟩
  have hw := hc.word.giveUp hs hm
  simpa [Channel.deeds_tell h₂, Channel.deeds_tell h₁, Channel.deeds_tell hc.live] using hw

theorem again (hc : Course s .silent c) (h : Handle) (hs : s.isHeld) {clip : String}
    (hm : c.missing.contains clip = false) (volume pitch : α) :
    (c.loadClip h clip).1 = .ok () ∧
      Course s .sounding (tellAll (c.loadClip h clip).2 h
        [.setVolume volume, .setPitch pitch, .play false]) := by
  obtain ⟨missing, state, deeds⟩ := c
  obtain ⟨state, rfl⟩ := Option.isSome_iff_exists.mp hc.live
  rw [Channel.loadClip_live hm]
  refine ⟨rfl, rfl, ?_⟩
  simpa [tell, AudioBackend.setVolume, AudioBackend.setPitch, AudioBackend.play, Channel.onLive]
    using hc.word.again clip volume pitch hs

theorem opening (missing : List String) (clip : String) (state : HandleState α) (h : Handle)
    (placement : Placement α) (volume pitch : α) :
    Course s .sounding (tellAll (⟨missing, some state, [.acquire clip]⟩ : Channel α) h
      [.place placement, .setVolume volume, .setPitch pitch, .play (s.kind = .loop)]) :=
  ⟨rfl, .opening clip placement volume pitch⟩

end Course

namespace Voice

theorem isReleased_iff {v : Voice α} : v.isReleased ↔ v.state = .released := by
  simp [isReleased]

theorem stage_of_isSounding {v : Voice α} (h : v.state.isSounding) : v.state.stage = .sounding := by
  cases hs : v.state <;> simp_all [VoiceState.isSounding]

end Voice

namespace Kept

variable {s : Statement α} {v : Voice α} {c : Channel α}

theorem parted (hk : Kept s v c) (hr : v.isReleased) : Course s .ended c := by
  simpa [Voice.isReleased_iff.mp hr] using hk.course

theorem not_released (hk : Kept s v c) (hs : s.isHeld) : v.isReleased = false := by
  cases hr : v.isReleased with
  | false => rfl
  | true => simpa [hs] using hk.fades.released (Voice.isReleased_iff.mp hr)

theorem isSome_live (hk : Kept s v c) (hr : v.isReleased = false) : c.state.isSome := by
  rw [hk.course.live]
  cases hs : v.state <;> simp_all [Voice.isReleased]

theorem kill (hk : Kept s v c) : Course s .ended (tellAll c v.handle v.lastWords) := by
  cases hs : v.state with
  | playing =>
    rw [Voice.lastWords_of_isSounding (by simp [hs, VoiceState.isSounding])]
    have hc : Course s .sounding c := by simpa [hs] using hk.course
    exact (hc.stop _).release _
  | fadingOut release =>
    rw [Voice.lastWords_of_isSounding (by simp [hs, VoiceState.isSounding])]
    have hc : Course s .sounding c := by simpa [hs] using hk.course
    exact (hc.stop _).release _
  | stopped =>
    rw [Voice.lastWords_of_stopped hs]
    have hc : Course s .silent c := by simpa [hs] using hk.course
    exact hc.release _
  | released =>
    have hr := Voice.isReleased_iff.mpr hs
    rw [Voice.lastWords_of_isReleased hr]
    exact hk.parted hr

theorem hush (hk : Kept s v c) (hr : v.isReleased = false) :
    Course s .silent (tellAll c v.handle v.hush) := by
  unfold Voice.hush
  split
  · next hs => simpa [hs] using hk.course
  · next hs =>
    have hc : Course s .sounding c := by
      have := hk.course
      cases hv : v.state <;> simp_all [Voice.isReleased]
    exact hc.stop _

/-- A held voice whose next clip is missing gives its handle back. -/
theorem giveUp (hk : Kept s v c) (hr : v.isReleased = false) (hs : s.isHeld)
    (hm : s.Lacks c.missing) :
    Course s .ended
      (tellAll (tellAll c v.handle v.hush) v.handle { v with pending := none }.lastWords) := by
  by_cases hv : v.state = .stopped
  · rw [Voice.lastWords_of_stopped (v := { v with pending := none }) hv]
    exact (hk.hush hr).release _
  · have hsound : v.state.isSounding := by
      cases hs : v.state <;> simp_all [Voice.isReleased, VoiceState.isSounding]
    have hc : Course s .sounding c := Voice.stage_of_isSounding hsound ▸ hk.course
    rw [Voice.lastWords_of_isSounding (v := { v with pending := none }) hsound, Voice.hush,
      if_neg hv, ← tellAll_append]
    exact hc.giveUp _ hs hm

variable [Scalar α]

theorem scheduleFadeOut (hk : Kept s v c) (hs : v.state = .playing) (delay length : α) :
    Kept s (v.scheduleFadeOut delay length !s.isHeld) c :=
  ⟨.scheduleFadeOut hs delay length, hk.course⟩

variable [Easing α]

theorem next (hk : Kept s v c) (dt : α) :
    Kept s (v.next dt) (tellAll c v.handle (v.tells dt)) := by
  refine ⟨hk.fades.next dt, ?_⟩
  obtain ⟨-, hs, ht⟩ | ⟨hs, ws, hw, ⟨hn, ht⟩ | ⟨hn, ht⟩⟩ := hk.fades.tells_cases dt <;> rw [ht]
  · simpa [hs] using hk.course
  · have hc : Course s .sounding c := Voice.stage_of_isSounding hs ▸ hk.course
    rw [Voice.stage_of_isSounding hn]
    exact hc.writes _ hw
  · have hc : Course s .sounding c := Voice.stage_of_isSounding hs ▸ hk.course
    rw [hn, tellAll_append]
    exact (hc.writes _ hw).farewell _ _

theorem reload (hk : Kept s v c) (hr : v.isReleased = false) (hs : s.isHeld) {clip : String}
    (hm : c.missing.contains clip = false) (volume : α) (pitch : Option α) (fadeIn : α) :
    ((tellAll c v.handle v.hush).loadClip v.handle clip).1 = .ok () ∧
      Kept s ((v.reloaded clip volume pitch fadeIn).stepped 0)
        (tellAll ((tellAll c v.handle v.hush).loadClip v.handle clip).2 v.handle
          ((v.reloaded clip volume pitch fadeIn).stepTells 0 ++ [.play false])) := by
  have hp : (v.reloaded clip volume pitch fadeIn).state = .playing := rfl
  have hst := Voice.stepped_state_of_playing hp 0
  rw [Voice.stepTells_of_playing hp]
  have hm' : (tellAll c v.handle v.hush).missing.contains clip = false := by simpa using hm
  obtain ⟨hl, hc⟩ := (hk.hush hr).again v.handle hs hm'
    ((v.reloaded clip volume pitch fadeIn).stepped 0).volume
    ((v.reloaded clip volume pitch fadeIn).stepped 0).pitch
  refine ⟨hl, .of_playing hst fun f hf => ?_, by simpa [hst] using hc⟩
  rw [Voice.stepped_pending] at hf
  cases hf

theorem opened (missing : List String) (clip : String) (state : HandleState α) (h : Handle)
    (o : Player.Opening α) :
    Kept s (Player.opened h clip o)
      (tellAll (⟨missing, some state, [.acquire clip]⟩ : Channel α) h
        (Player.overture h clip o (s.kind = .loop))) := by
  refine ⟨.of_playing (Player.opened_state ..) (by simp), ?_⟩
  rw [Player.opened_state, Player.overture_eq]
  exact .opening missing clip state h _ _ _

end Kept

end Soundscape
