import Soundscape.Proofs.Scheduler.World

/-!
# Handles in a run

Two results about every run of a scheduler on a recording that nothing else uses:

* `Scheduler.handles_in_use`: no handle is leaked, shared, or used after its release;
* `World.handles_follow_protocol`: what is done with one handle, from its acquisition to its
  release.
-/

namespace Soundscape

variable {α : Type} [Scalar α] [Easing α]

/-- After any events the live handles are, each once, those of the voices that players hold or have
let go; none of these voices has given its handle back, no player that is over is kept, no call went
to a handle that was not live, and the players are in the order of their numbers. -/
theorem Scheduler.handles_in_use (seed : UInt64) (fallback len : α) (lens : List (String × α))
    (missing : List String) (es : List (Scheduler.Event α)) :
    let x := (Scheduler.new seed fallback).handleAll (Recording.empty len lens missing) es
    x.2.liveHandles.Perm (x.1.allVoices.map Voice.handle) ∧
      (x.1.allVoices.map Voice.handle).Nodup ∧
      x.1.voiceCount = x.2.liveHandles.length ∧
      (∀ p ∈ x.1.players, p.isTerminated = false) ∧
      (∀ v ∈ x.1.allVoices, v.isReleased = false) ∧
      x.2.stale = 0 ∧
      (x.1.players.map Player.id).Pairwise (· < ·) ∧ ∀ p ∈ x.1.players, p.id < x.1.nextId := by
  have hw := World.sound_run seed fallback len lens missing (es.map .event)
  obtain ⟨hs, hr⟩ :=
    World.run_events (World.new seed fallback (.empty len lens missing)) es
  generalize (World.new seed fallback (.empty len lens missing)).run (es.map .event) = w at hw hs hr
  intro x
  have hx : x = (w.scheduler, w.recording) := Prod.ext hs.symm hr.symm
  rw [hx]
  refine ⟨hw.live_perm, hw.tended.distinct, ?_, hw.active, hw.unreleased, hw.tended.stale,
    hw.crew.ids, hw.ids⟩
  rw [w.scheduler.voiceCount_eq, hw.live_perm.length_eq, List.length_map]

/-- A sounding handle is stopped twice when its voice is to be started again and the next clip is
missing. -/
theorem Player.deeds_restartHeld_of_missing {p : Player α} {v : Voice α} {r : Recording α}
    (hv : p.voice = some v) (hs : v.state.isSounding) (hl : (r.channel v.handle).state.isSome)
    (hm : (p.drawsAgain v).1.1 ∈ r.missing) (fallback : α) :
    ((p.restartHeld fallback r).2.channel v.handle).deeds =
      (r.channel v.handle).deeds ++ [.told .stop, .told .stop, .told .release] := by
  have hstop : ¬ v.state = .stopped := fun he => by simp [he, VoiceState.isSounding] at hs
  have hr : ¬ v.isReleased := fun hr => by
    simp [Voice.isReleased_iff.mp hr, VoiceState.isSounding] at hs
  have hload : AudioBackend.loadClip (tellAll r v.handle v.hush) v.handle (p.drawsAgain v).1.1 =
      (.error (Recording.notFound (p.drawsAgain v).1.1), tellAll r v.handle v.hush) :=
    if_pos (by simpa [(r.kin_tellAll _ _).missing] using hm)
  have hrestart := Voice.restart_eq (p.drawsAgain v).1.1 (p.drawsAgain v).1.2.2.1
    (p.drawsAgain v).1.2.1 (p.drawsAgain v).1.2.2.2 v r
  rw [if_neg hr, hload] at hrestart
  have hp : p.having (some v) = p := by rw [← hv, having_self]
  rw [← hp, restartHeld_of_error rfl hrestart, Voice.kill_eq,
    Voice.lastWords_of_isSounding (v := { v with pending := none }) hs, Voice.hush, if_neg hstop,
    ← tellAll_append, Recording.channel_tellAll]
  have h₁ := Channel.isSome_tell hl v.handle (q := .stop) (by simp)
  have h₂ := Channel.isSome_tell h₁ v.handle (q := .stop) (by simp)
  simp [Channel.deeds_tell h₂, Channel.deeds_tell h₁, Channel.deeds_tell hl]

/-- In every run, with clips that go missing at any time, only handles that an instance acquired
are called, and what is done with each of them follows the protocol of its statement.  After a reset
the last call of all is the release.  A handle is stopped twice when it sounds and its voice cannot
be started again. -/
theorem World.handles_follow_protocol (seed : UInt64) (fallback len : α)
    (lens : List (String × α)) (missing : List String) (os : List (Occurrence α)) :
    let w := (World.new seed fallback (.empty len lens missing)).run os
    (∀ h, (∀ i, ¬ Owns w.owners h i) → (w.recording.channel h).deeds = []) ∧
    (∀ h i, Owns w.owners h i →
      Protocol i.statement w.recording.missing (w.recording.channel h).deeds) ∧
    (∀ h i, Owns w.owners h i →
      (Deed.signals ((w.after (.event .hardReset)).recording.channel h).deeds).getLast? =
        some .release) ∧
    ∀ (p : Player α) (v : Voice α) (r : Recording α), p.voice = some v → v.state.isSounding →
      (r.channel v.handle).state.isSome → (p.drawsAgain v).1.1 ∈ r.missing →
      ((p.restartHeld fallback r).2.channel v.handle).deeds =
        (r.channel v.handle).deeds ++ [.told .stop, .told .stop, .told .release] := by
  intro w
  have hw : w.Sound := World.sound_run seed fallback len lens missing os
  refine ⟨fun h hn => ?_, fun h i hi => ?_, fun h i hi => ?_, fun p v r hv hs hl hm =>
    Player.deeds_restartHeld_of_missing hv hs hl hm fallback⟩
  · rw [hw.tended.unissued h hn]
    rfl
  · by_cases hm : h ∈ w.scheduler.allVoices.map Voice.handle
    · obtain ⟨v, hv, rfl⟩ := List.mem_map.mp hm
      obtain ⟨j, hj, hk⟩ := hw.tended.kept v hv
      exact hi.unique hj ▸ hk.course.word.protocol
    · exact (hw.tended.parted h i hi hm).word.protocol
  · obtain ⟨hreset, hnone⟩ := hw.hardReset
    have hi' : Owns (w.after (.event .hardReset)).owners h i := hi.append _
    have ht := hreset.tended
    rw [hnone] at ht
    exact (ht.parted h i hi' (by simp)).word.getLast_signals

end Soundscape
