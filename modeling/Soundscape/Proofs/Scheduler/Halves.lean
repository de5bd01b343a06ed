import Soundscape.Proofs.Player.Seam
import Soundscape.Proofs.Scheduler.Solo

/-!
# A step of time in two

On exact fractions an instance may take a step of time in one or in two, with the voices that it has
let go taking the second of the two by themselves.  Both ways it comes to the same but for the
levels of its voices (`Solo.inTwo_alike`), if nothing ends just after the cut, within the tolerance,
and no fade-out of a voice that was let go before the cut is due just after a later firing.  The
last is needed (`Solo.inTwo_not_alike`): in the whole step the voice is cut at each firing as well,
and there a fade-out begins that is nearly due, while by itself the voice goes on to where it is
due.
-/

namespace Soundscape

open Player

namespace Solo

/-! ### What is done with an instance -/

section Reachable

variable {α : Type}

def cancel (x : Solo α) : Solo α :=
  let (player, r) := x.player.cancel x.recording
  { x with player, recording := r }

theorem crew_cancel {os : List (Instance α)} {x : Solo α}
    (h : Crew os [x.player] x.voices x.recording) :
    Crew os [x.cancel.player] x.cancel.voices x.cancel.recording := by
  obtain ⟨⟨id, s, state, source, voice⟩, voices, r⟩ := x
  refine ⟨?_, ?_, ?_, List.pairwise_singleton _ _⟩
  · cases voice with
    | none => exact h.tended
    | some v => exact h.tended.kill
  · cases voice <;> simp [cancel, Player.cancel, Player.terminate, Coherent]
  · cases voice <;> simp [cancel, Player.cancel, Player.terminate]

variable [Scalar α] [Easing α]

def advance (dt fallback : α) (x : Solo α) : Solo α :=
  let (player, fresh, r) := x.player.advance dt fallback x.recording
  ⟨player, x.voices ++ fresh, r⟩

/-- The first voices that were let go take a step of time. -/
def play (first : Nat) (dt : α) (x : Solo α) : Solo α :=
  let (voices, r) := Voice.advanceAll dt (x.voices.take first) x.recording
  { x with voices := voices ++ x.voices.drop first, recording := r }

/-- What an instance and the voices that it has let go come to, whatever is done with them. -/
inductive Reachable : Solo α → Prop
  | new (id : Nat) (s : Statement α) (source : Source) (len : α) (lens : List (String × α))
      (missing : List String) : Reachable (.new (.new id s source) (.empty len lens missing))
  | advance {x : Solo α} (dt fallback : α) : Reachable x → Reachable (x.advance dt fallback)
  | play {x : Solo α} (first : Nat) (dt : α) : Reachable x → Reachable (x.play first dt)
  | cancel {x : Solo α} : Reachable x → Reachable x.cancel
  | lose {x : Solo α} (clip : String) :
      Reachable x → Reachable { x with recording := x.recording.lose clip }

theorem play_eq (first : Nat) (dt : α) (x : Solo α) :
    x.play first dt =
      ⟨x.player, (x.voices.take first).map (Voice.next dt) ++ x.voices.drop first,
        Voice.tellEach (Voice.tells dt) (x.voices.take first) x.recording⟩ := by
  unfold play
  rw [Voice.advanceAll_eq]

theorem crew_play {os : List (Instance α)} {x : Solo α}
    (h : Crew os [x.player] x.voices x.recording) (first : Nat) (dt : α) :
    Crew os [(x.play first dt).player] (x.play first dt).voices (x.play first dt).recording := by
  have ht := h.tended
  rw [← x.voices.take_append_drop first] at ht
  rw [play_eq]
  refine ⟨?_, h.coherent, h.own, h.ids⟩
  have hnext := Crew.tellEach_tended (ht.perm (List.perm_append_comm_assoc ..)) dt
  exact hnext.perm (List.perm_append_comm_assoc ..)

theorem Reachable.crew {x : Solo α} (h : x.Reachable) :
    ∃ os, Crew os [x.player] x.voices x.recording := by
  induction h with
  | new id s source len lens missing =>
    have hown (v : Voice α) (hv : v ∈ (Player.new id s source).voice) :
        Owns [] v.handle (Player.new id s source).identity := by
      cases hv
    exact ⟨[], .empty len lens missing, by simp [Solo.new, coherent_new],
      List.forall_mem_singleton.mpr hown, List.pairwise_singleton _ _⟩
  | @advance x dt fallback _ ih =>
    obtain ⟨os, h⟩ := ih
    have hp : Crew os ([] ++ x.player :: []) x.voices x.recording := h
    exact ⟨_, hp.advancePlayer dt fallback⟩
  | @play x first dt _ ih =>
    obtain ⟨os, h⟩ := ih
    exact ⟨os, crew_play h first dt⟩
  | @cancel x _ ih =>
    obtain ⟨os, h⟩ := ih
    exact ⟨os, crew_cancel h⟩
  | lose clip _ ih =>
    obtain ⟨os, h⟩ := ih
    exact ⟨os, h.tended.lose clip, h.coherent, h.own, h.ids⟩

/-- Two solos that differ in no more than the levels of their voices. -/
structure Alike (x y : Solo α) : Prop where
  identity : x.player.identity = y.player.identity
  state : x.player.state = y.player.state
  source : x.player.source = y.player.source
  voice : x.player.voice.map Voice.sketch = y.player.voice.map Voice.sketch
  voices : x.voices.map Voice.sketch = y.voices.map Voice.sketch
  lifecycle : ∀ h, x.recording.lifecycle.filter (fun c => c.handle = h) =
    y.recording.lifecycle.filter (fun c => c.handle = h)

end Reachable

/-! ### In one and in two -/

section Halves

variable [Easing Rat]

/-- The states in which the turns of a step of time begin. -/
def turns (dt fallback : Rat) (x : Solo Rat) : List (Progress Rat (Recording Rat)) :=
  Progress.trail fallback (turnBound dt) ⟨dt, x.player, [], x.recording⟩

/-- No wait and no fade-out that is due ends just after a step of time. -/
def Parts (dt fallback : Rat) (x : Solo Rat) : Prop :=
  ∀ y ∈ x.turns dt fallback, (∀ r ∈ y.player.wait?, ¬ Nearly (r - y.budget)) ∧
    ((∀ r ∈ y.player.wait?, y.budget < r) →
      ∀ v ∈ y.player.voice.toList ++ y.fresh, ∀ f ∈ v.pending, ¬ Nearly (f.delay - y.budget))

/-- When the player fires in the second part of a step, no voice let go in the first part has a
fade-out that is due just after it. -/
def Clear (d₁ d₂ fallback : Rat) (x : Solo Rat) : Prop :=
  Behind.Clear (x.player.advance d₁ fallback x.recording).2.1.length d₂
    (x.turns (d₁ + d₂) fallback)

/-- One step of time, and then the voices let go before it take a part of it. -/
def inOne (d₁ d₂ fallback : Rat) (x : Solo Rat) : Solo Rat :=
  (x.advance (d₁ + d₂) fallback).play x.voices.length d₂

/-- A step of time in two; all voices let go before the second take it by themselves. -/
def inTwo (d₁ d₂ fallback : Rat) (x : Solo Rat) : Solo Rat :=
  let y := x.advance d₁ fallback
  (y.play y.voices.length d₂).advance d₂ fallback

theorem advance_of_nonneg {d : Rat} (hd : 0 ≤ d) (fallback : Rat) (p : Player Rat)
    (b : Recording Rat) :
    p.advance d fallback b = (Progress.run fallback (turnBound d) ⟨d, p, [], b⟩).outcome := by
  unfold Player.advance
  rw [Fraction.larger_of_nonneg hd]
  rfl

/-- The state in which the last turn of the first part begins, and what the two ways come to. -/
theorem exists_cut {fallback : Rat} {x : Solo Rat} (hx : x.Reachable) {d₁ d₂ : Rat}
    (hd₁ : 0 ≤ d₁) (hd₂ : 0 ≤ d₂) (hp : x.Parts d₁ fallback) (hc : x.Clear d₁ d₂ fallback) :
    ∃ z : Progress Rat (Recording Rat),
      ((z.player.voice.toList ++ z.fresh ++ x.voices).map Voice.handle).Nodup ∧
      x.player.advance d₁ fallback x.recording = z.finished.outcome ∧
      Behind.Met x.player.identity (fun h => h ∈ (x.voices ++ z.fresh).map Voice.handle) z.backend
        (z.handedOn x.voices d₂) ((z.fresh.map (Voice.next z.budget)).map (Voice.next d₂))
        (x.player.advance (d₁ + d₂) fallback x.recording)
        (z.finished.player.advance d₂ fallback (z.handedOn x.voices d₂)) := by
  obtain ⟨os, hcrew⟩ := hx.crew
  have ht : Tended os (x.player.voice.toList ++ x.voices) x.recording := by
    simpa [Crew.filterMap_voice_cons] using hcrew.tended
  have hcoherent := hcrew.coherent _ List.mem_cons_self
  have hstart := ht.upkeep (hcrew.own _ List.mem_cons_self)
  have hd : 0 ≤ d₁ + d₂ := add_nonneg hd₁ hd₂
  set y : Progress Rat (Recording Rat) := ⟨d₁, x.player, [], x.recording⟩
  obtain ⟨z, hz, hrun, hb, ⟨hi, hcz, hu⟩, hlast, hmore⟩ :=
    Progress.exists_last (x := y) (n := turnBound d₁)
      (I := fun y => y.player.identity = x.player.identity ∧ y.player.Coherent ∧
        Upkeep os x.voices x.player.identity x.recording (y.player.voice.toList ++ y.fresh)
          y.backend)
      (fun y hy => Upkeep.alone.turn hy.1 hy.2.1 hy.2.2 fallback)
      (Progress.stops_turnBound fallback hd₁) hd₁
      ⟨rfl, hcoherent, by rwa [List.append_nil]⟩ fun y hy => (hp y hy).1
  have hfirst : x.player.advance d₁ fallback x.recording = z.finished.outcome := by
    rw [advance_of_nonneg hd₁, hrun]
  have hlater : ∀ r ∈ z.player.wait?, z.budget < r := fun r hr => by
    linarith [hlast r hr, Fraction.tolerance_pos]
  have hwhole : Behind.whole z.fresh z.player z.atEnd [] z.budget d₂ z.backend = z.more d₂ := by
    simp [Behind.whole, Progress.more, Progress.atEnd, Function.comp_def]
  obtain ⟨m, hm, hrun', htrail⟩ :=
    hmore d₂ hd₂ _ (Progress.stops_turnBound fallback (x := y.more d₂) hd)
  refine ⟨z, hu.tended.distinct, hfirst, ?_⟩
  rw [advance_of_nonneg hd, advance_of_nonneg hd₂, Progress.outcome_rest hcz ?_]
  · have hbehind := Behind.of_cut hi hcz hu hb hd₂ fun v hv f hf => (hp z hz).2 hlater v hv f hf
    have hmet := hbehind.run fallback hb hd₂ le_rfl (.inr hlater) (hwhole ▸ hm)
      (Progress.stops_turnBound fallback hd₂) ?_
    · rw [hwhole, ← hrun'] at hmet
      exact hmet
    · have hcount : (x.player.advance d₁ fallback x.recording).2.1.length = z.fresh.length := by
        rw [hfirst, Progress.outcome, z.finished_fresh_backend.1, List.length_map]
      intro w hw
      rw [hwhole] at hw
      rw [← hcount]
      exact hc w (htrail w hw)
  · intro v hv
    rw [statement_of_identity hi]
    exact (hu.kept_of_mem (List.mem_append_left _ (Option.mem_toList.mpr hv))).fades

theorem sketch_channel_halves {z : Progress Rat (Recording Rat)} {voices : List (Voice Rat)}
    {i : Instance Rat} {d₂ : Rat} {one two : Player Rat × List (Voice Rat) × Recording Rat}
    (hz : ((z.player.voice.toList ++ z.fresh ++ voices).map Voice.handle).Nodup)
    (hmet : Behind.Met i (fun h => h ∈ (voices ++ z.fresh).map Voice.handle) z.backend
      (z.handedOn voices d₂) ((z.fresh.map (Voice.next z.budget)).map (Voice.next d₂)) one two)
    (h : Handle) :
    ((Voice.tellEach (Voice.tells d₂) voices one.2.2).channel h).sketch =
      (two.2.2.channel h).sketch := by
  have hhandles : ((z.fresh.map (Voice.next z.budget)).map (Voice.next d₂)).map Voice.handle =
      z.fresh.map Voice.handle := by
    rw [Voice.handles_next, Voice.handles_next]
  have hloose := Progress.nodup_loose hz
  rw [List.map_append] at hloose
  obtain ⟨hvoices, -, happart⟩ := List.nodup_append.mp hloose
  by_cases hm : h ∈ voices.map Voice.handle
  · obtain ⟨v, hv, rfl⟩ := List.mem_map.mp hm
    have haside : v.handle ∈ (voices ++ z.fresh).map Voice.handle :=
      List.mem_map_of_mem (List.mem_append_left _ hv)
    have hne : v.handle ∉ z.fresh.map Voice.handle := fun hf => happart _ hm _ hf rfl
    rw [Recording.channel_tellEach hvoices hv, hmet.channel_left haside (hhandles ▸ hne),
      hmet.channel_right haside, Progress.channel_handedOn_of_loose hz hv]
  · rw [Recording.channel_tellEach_of_not_mem hm]
    refine hmet.sketch_channel fun haside => ?_
    rw [List.map_append, List.mem_append] at haside
    rw [hhandles]
    exact haside.resolve_left hm

/-- For an instance it makes no difference but for the levels whether it takes a step of time in one
or in two. -/
theorem inTwo_alike {fallback : Rat} {x : Solo Rat} (hx : x.Reachable) {d₁ d₂ : Rat}
    (hd₁ : 0 ≤ d₁) (hd₂ : 0 ≤ d₂) (hp : x.Parts d₁ fallback) (hc : x.Clear d₁ d₂ fallback) :
    (x.inTwo d₁ d₂ fallback).Alike (x.inOne d₁ d₂ fallback) := by
  obtain ⟨z, hz, hfirst, hmet⟩ := exists_cut hx hd₁ hd₂ hp hc
  obtain ⟨hfresh, hbackend⟩ := z.finished_fresh_backend
  have hone : x.inOne d₁ d₂ fallback =
      let y := x.player.advance (d₁ + d₂) fallback x.recording
      ⟨y.1, x.voices.map (Voice.next d₂) ++ y.2.1,
        Voice.tellEach (Voice.tells d₂) x.voices y.2.2⟩ := by
    simp [inOne, play_eq, advance]
  have hcut : x.advance d₁ fallback = ⟨z.finished.player,
      x.voices ++ z.fresh.map (Voice.next z.budget), z.finished.backend⟩ := by
    unfold advance
    rw [hfirst, ← hfresh]
    rfl
  have htwo : x.inTwo d₁ d₂ fallback =
      let y := z.finished.player.advance d₂ fallback (z.handedOn x.voices d₂)
      ⟨y.1, (x.voices ++ z.fresh.map (Voice.next z.budget)).map (Voice.next d₂) ++ y.2.1,
        y.2.2⟩ := by
    unfold inTwo
    dsimp only
    rw [hcut, play_eq, List.take_length, List.drop_length, List.append_nil, hbackend]
    rfl
  obtain ⟨hi, hs, hsource, hv⟩ := hmet.player
  rw [hone, htwo]
  refine ⟨hi.symm, hs.symm, hsource.symm, hv.symm, ?_, fun h => ?_⟩
  · dsimp only
    simp only [List.map_append, hmet.voices, List.append_assoc]
  · rw [Recording.lifecycle_eq, Recording.lifecycle_eq]
    exact congrArg (fun c : Channel Rat => c.deeds.map (Deed.call h))
      (sketch_channel_halves hz hmet h).symm

end Halves

end Solo

/-- A sound at every second, which may overlap the one before it, fading out at its end. -/
def Statement.patter (fadeOut : Rat) : Statement Rat where
  kind := .oneshot
  clip := "drop"
  count := 1
  startsAt := .unset
  duration := .unset
  every := .fixed 1
  volume := .unset
  pitch := .unset
  fadeIn := .unset
  fadeOut := .fixed fadeOut
  overlap := true
  movement := .still
  visuals := []
  volumeInterpolation := none
  pitchInterpolation := none
  line := 1

namespace Solo

/-- A step is cut while a sound plays; then others begin, and the first one fades out. -/
theorem inTwo_alike_patter :
    let _ : Easing Rat := ⟨fun _ x => x⟩
    let x : Solo Rat := .new (.new 0 (.patter 1) (.ofWords [])) (.empty (5 / 2) [] [])
    x.Reachable ∧ x.Parts (1 / 2) 2 ∧ x.Clear (1 / 2) (3 / 2) 2 ∧
      (x.inTwo (1 / 2) (3 / 2) 2).Alike (x.inOne (1 / 2) (3 / 2) 2) := by
  intro _ x
  have hx : x.Reachable := .new ..
  have hp : x.Parts (1 / 2) 2 := by
    unfold Parts
    decide +kernel
  have hc : x.Clear (1 / 2) (3 / 2) 2 := by
    unfold Clear Behind.Clear
    decide +kernel
  exact ⟨hx, hp, hc, inTwo_alike hx (by norm_num) (by norm_num) hp hc⟩

/-- A sound is let go in the first part of a step, and its fade-out is due just after the player
fires in the second.  In one step the fade-out begins with the firing and is over at the end. -/
theorem inTwo_not_alike :
    let _ : Easing Rat := ⟨fun _ x => x⟩
    let x : Solo Rat := .new (.new 0 (.patter (1 / 100000000)) (.ofWords []))
      (.empty (1 + 21 / 2000000000) [] [])
    let d₂ : Rat := 1 / 2 + 37 / 4000000000
    let script := "oneshot \"drop\" every 1:\n  fade_out = 0.00000001\n  overlap = true"
    (compile false script (.ofWords [])).1.statements = [.patter (1 / 100000000)] ∧
      x.Reachable ∧ x.Parts (1 / 2) 2 ∧
      (∀ y ∈ x.turns (1 / 2) 2, ∀ v ∈ y.player.voice.toList ++ y.fresh, ∀ r ∈ v.gain.ramp,
        ¬ Nearly (r.length - r.elapsed - y.budget)) ∧
      (x.inTwo (1 / 2) d₂ 2).voices.map Voice.state = [.fadingOut true, .playing] ∧
      (x.inOne (1 / 2) d₂ 2).voices.map Voice.state = [.released, .playing] ∧
      ¬ (x.inTwo (1 / 2) d₂ 2).Alike (x.inOne (1 / 2) d₂ 2) := by
  intro _ x d₂ script
  have hp : x.Parts (1 / 2) 2 := by
    unfold Parts
    decide +kernel
  refine ⟨by decide +kernel, .new .., hp, by decide +kernel, by decide +kernel, by decide +kernel,
    fun h => ?_⟩
  have hstates : (x.inTwo (1 / 2) d₂ 2).voices.map (fun v => v.sketch.state) =
      (x.inOne (1 / 2) d₂ 2).voices.map fun v => v.sketch.state := by
    have := congrArg (List.map Sketch.state) h.voices
    rwa [List.map_map, List.map_map] at this
  revert hstates
  decide +kernel

end Solo

end Soundscape
