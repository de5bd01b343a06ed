import Mathlib.Algebra.Order.Field.Rat
import Soundscape.Proofs.Voice.Fade
import Soundscape.Proofs.Voice.Split

/-!
# When a fade-out ends

On exact fractions a fade-out that is made due after a delay is over by the end of the delay and its
length, and it begins and ends at most a tolerance early each (`Voice.fadeOut_punctual`).  It makes
no difference how the time until then is cut into steps.  `Voice.Stage` says where the voice stands
at a time in between: the fade-out is ahead, under way or over.
-/

namespace Soundscape

namespace Cue

variable {α : Type} [Scalar α]

/-- The cues write levels, the last volume is silence, and then the handle is given back, or left
silent, as `release` says. -/
def Closes (release : Bool) (cs : List (Cue α)) : Prop :=
  ∃ (ws : List (Cue α)) (pitch : α), (∀ c ∈ ws, c.isWrite) ∧
    cs = ws ++ [.setVolume 0, .setPitch pitch] ++ farewell release

theorem Closes.append {release : Bool} {cs ds : List (Cue α)} (h : Closes release ds)
    (hcs : ∀ c ∈ cs, c.isWrite) : Closes release (cs ++ ds) := by
  obtain ⟨ws, pitch, hws, rfl⟩ := h
  refine ⟨cs ++ ws, pitch, fun c hc => ?_, by simp only [List.append_assoc]⟩
  exact (List.mem_append.mp hc).elim (hcs c) (hws c)

/-- What a voice tells its handle while it comes from one state to another: it writes levels as long
as it sounds, and ends a fade-out if it sounds no more. -/
def Leads (release : Bool) (s t : VoiceState) (cs : List (Cue α)) : Prop :=
  s.isSounding = false ∧ t = s ∧ cs = [] ∨
    s.isSounding ∧ (t.isSounding ∧ (∀ c ∈ cs, c.isWrite) ∨
      t = .afterFade release ∧ Closes release cs)

namespace Leads

variable {release : Bool} {s t u : VoiceState} {cs ds : List (Cue α)}

theorem refl (release : Bool) (s : VoiceState) : Leads release s s ([] : List (Cue α)) := by
  cases h : s.isSounding with
  | false => exact .inl ⟨h, rfl, rfl⟩
  | true => exact .inr ⟨h, .inl ⟨h, nofun⟩⟩

theorem of_writes (hs : s.isSounding) (ht : t.isSounding) (hcs : ∀ c ∈ cs, c.isWrite) :
    Leads release s t cs :=
  .inr ⟨hs, .inl ⟨ht, hcs⟩⟩

theorem trans (h : Leads release s t cs) (h' : Leads release t u ds) :
    Leads release s u (cs ++ ds) := by
  obtain ⟨-, rfl, rfl⟩ | ⟨hs, ⟨ht, hcs⟩ | ⟨rfl, hcs⟩⟩ := h
  · exact h'
  · obtain ⟨ht', -⟩ | ⟨-, ⟨hu, hds⟩ | ⟨hu, hds⟩⟩ := h'
    · simp [ht] at ht'
    · exact of_writes hs hu fun c hc => (List.mem_append.mp hc).elim (hcs c) (hds c)
    · exact .inr ⟨hs, .inr ⟨hu, hds.append hcs⟩⟩
  · obtain ⟨-, rfl, rfl⟩ | ⟨ht, -⟩ := h'
    · exact .inr ⟨hs, .inr ⟨rfl, by rwa [List.append_nil]⟩⟩
    · simp at ht

end Leads

end Cue

namespace Voice

section Steps

variable {α : Type} [Scalar α] [Easing α]

/-- The voice after steps of time, one after the other. -/
def nextAll (steps : List α) (v : Voice α) : Voice α := steps.foldl (fun v dt => v.next dt) v

def tellsAll : List α → Voice α → List (Cue α)
  | [], _ => []
  | dt :: steps, v => v.tells dt ++ tellsAll steps (v.next dt)

def advanceSteps {β : Type} [AudioBackend α β] (steps : List α) (v : Voice α) (b : β) :
    Voice α × β :=
  steps.foldl (fun x dt => x.1.advance dt x.2) (v, b)

theorem advanceSteps_eq {β : Type} [AudioBackend α β] (steps : List α) (v : Voice α) (b : β) :
    v.advanceSteps steps b = (v.nextAll steps, tellAll b v.handle (v.tellsAll steps)) := by
  induction steps generalizing v b with
  | nil => rfl
  | cons dt steps ih =>
    have h := ih (v.next dt) (tellAll b v.handle (v.tells dt))
    rw [next_handle] at h
    rw [tellsAll, tellAll_append, advanceSteps, List.foldl_cons, advance_eq]
    exact h

theorem next_of_not_sounding {v : Voice α} (hs : v.state.isSounding = false)
    (hp : v.pending = none) (dt : α) :
    (v.next dt).state = v.state ∧ (v.next dt).pending = none ∧ v.tells dt = [] := by
  obtain ⟨-, he, ht⟩ | ⟨-, -, he, ht⟩ | ⟨f, _, _, -, hf, -⟩ | ⟨f, -, hf, -⟩ := v.next_cases dt
  · rw [he]
    exact ⟨rfl, hp, ht⟩
  · obtain ⟨-, hv, htv⟩ | ⟨hs', -⟩ | ⟨r, hs', -⟩ := v.stepped_cases (Scalar.larger dt 0)
    · rw [he, hv, ht, htv]
      exact ⟨rfl, hp, rfl⟩
    · simp [hs] at hs'
    · simp [hs', VoiceState.isSounding] at hs
  · simp [hp] at hf
  · simp [hp] at hf

end Steps

/-! ### Falling -/

/-- The voice falls to silence since it began to, and this takes it some time. -/
structure Falls (release : Bool) (begun length time : Rat) (v : Voice Rat) : Prop where
  state : v.state = .fadingOut release
  pending : v.pending = none
  ramp : ∃ r, v.gain.ramp = some r ∧ r.target = 0 ∧ r.length = length ∧ r.elapsed = time - begun
  since : begun ≤ time

/-- Where a voice stands at a time, if a fade-out of some length was due after a delay. -/
inductive Stage (delay length : Rat) (release : Bool) (time : Rat) (v : Voice Rat) : Prop
  | ahead (state : v.state = .playing) (due : v.pending = some ⟨delay - time, length, release⟩)
      (early : time + tolerance < delay)
  | underWay (begun : Rat) (falls : v.Falls release begun length time) (late : begun ≤ delay)
      (early : delay ≤ begun + tolerance) (unfinished : time - begun + tolerance < length)
  | done (state : v.state = .afterFade release) (clear : v.pending = none)
      (begun : delay ≤ time + tolerance) (late : delay + length ≤ time + 2 * tolerance)

variable {delay length time begun dt : Rat} {release : Bool} {v : Voice Rat}

namespace Stage

theorem state_of_before (h : v.Stage delay length release time) (hb : time + tolerance < delay) :
    v.state = .playing := by
  cases h with
  | ahead hs => exact hs
  | underWay begun hf _ hearly => linarith [hf.since]
  | done _ _ hbegun => linarith

theorem isSounding_of_before (h : v.Stage delay length release time)
    (hb : time + 2 * tolerance < delay + length) : v.state.isSounding := by
  cases h with
  | ahead hs => rw [hs]; rfl
  | underWay _ hf => rw [hf.state]; rfl
  | done _ _ _ hlate => linarith

theorem state_of_after (h : v.Stage delay length release time) (hl : 0 ≤ length)
    (ha : delay + length ≤ time) : v.state = .afterFade release := by
  have htol := Fraction.tolerance_pos
  cases h with
  | ahead _ _ hearly => linarith
  | underWay _ _ hlate _ hunfinished => linarith
  | done hs => exact hs

end Stage

variable [Easing Rat]

theorem Falls.stepped (h : v.Falls release begun length time) (hdt : 0 ≤ dt) :
    (time + dt - begun + tolerance < length ∧
      (v.stepped dt).Falls release begun length (time + dt) ∧ ∀ c ∈ v.stepTells dt, c.isWrite) ∨
    ((length ≤ 0 ∨ length ≤ time + dt - begun + tolerance) ∧
      (v.stepped dt).state = .afterFade release ∧ (v.stepped dt).pending = none ∧
      Cue.Closes release (v.stepTells dt)) := by
  obtain ⟨r, hr, htarget, rfl, helapsed⟩ := h.ramp
  have hsum : r.elapsed + dt = time + dt - begun := by rw [helapsed]; ring
  have hpending : (v.stepped dt).pending = none := by rw [stepped_pending, h.pending]
  by_cases hd : r.length ≤ 0 ∨ r.length ≤ r.elapsed + dt + tolerance
  · have hg : v.gain.advance dt = ⟨0, none⟩ := by rw [Gain.advance_of_arrived hr hd, htarget]
    have hsettled : (v.gain.advance dt).isSettled := by rw [hg]; rfl
    obtain ⟨hs, -⟩ | ⟨-, hn, -⟩ | ⟨r', hs, -, hv, ht⟩ := v.stepped_cases dt
    · simp [h.state, VoiceState.isSounding] at hs
    · rw [hn release h.state] at hsettled
      cases hsettled
    · obtain rfl : release = r' := by simpa [h.state] using hs
      have hvolume : (v.shape dt).2.1 = 0 := (congrArg (_ * Gain.level ·) hg).trans (mul_zero _)
      rw [hvolume] at ht
      exact .inr ⟨hsum ▸ hd, by rw [hv], hpending, [], _, by simp, ht⟩
  · have hg := Gain.advance_of_under_way hr hd
    rw [not_or, not_le, not_le, hsum] at hd
    obtain ⟨hs, -⟩ | ⟨-, -, hv, ht⟩ | ⟨_, -, hn, -⟩ := v.stepped_cases dt
    · simp [h.state, VoiceState.isSounding] at hs
    · refine .inl ⟨hd.2, ⟨by rw [hv]; exact h.state, hpending, ?_, by linarith [h.since]⟩,
        by simp [ht, Cue.isWrite]⟩
      rw [stepped_gain, hg]
      exact ⟨_, rfl, htarget, rfl, hsum⟩
    · simp [hg, Gain.isSettled] at hn

theorem Falls.stage (h : v.Falls release begun length time) (hlate : begun ≤ delay)
    (hearly : delay ≤ begun + tolerance) (hdt : 0 ≤ dt) :
    (v.stepped dt).Stage delay length release (time + dt) ∧
      Cue.Leads release v.state (v.stepped dt).state (v.stepTells dt) := by
  have hs : v.state.isSounding := by rw [h.state]; rfl
  obtain ⟨hu, hf, ht⟩ | ⟨hd, hs', hp, ht⟩ := h.stepped hdt
  · refine ⟨.underWay begun hf hlate hearly hu, .of_writes hs ?_ ht⟩
    rw [hf.state]
    rfl
  · have hbegun := h.since
    refine ⟨.done hs' hp (by linarith) ?_, .inr ⟨hs, .inr ⟨hs', ht⟩⟩⟩
    -- a fade-out without length is over as soon as it begins, and that is at most a tolerance early
    have htol := Fraction.tolerance_pos
    obtain hd | hd := hd <;> linarith

/-! ### One step -/

theorem stage_of_due (hs : v.state = .playing)
    (hp : v.pending = some ⟨delay - time, length, release⟩) (htime : time ≤ delay)
    (hl : 0 ≤ length) (hdt : 0 ≤ dt) :
    (v.next dt).Stage delay length release (time + dt) ∧
      Cue.Leads release v.state (v.next dt).state (v.tells dt) := by
  have hsounds : v.state.isSounding := by rw [hs]; rfl
  have hlarger : Scalar.larger dt 0 = dt := Fraction.larger_of_nonneg hdt
  obtain ⟨hr, -⟩ | ⟨-, hn, -⟩ | ⟨f, before, rest, -, hf, hdue, hb, hrest, he, ht⟩ |
      ⟨f, -, hf, hdue, he, ht⟩ := v.next_cases dt
  · simp [isReleased, hs] at hr
  · simp [hp] at hn
  · -- the fade-out begins where the step is cut, or at its end if it is due within the tolerance
    obtain rfl : _ = f := Option.some.inj (hp.symm.trans hf)
    rw [hlarger] at hdue hb hrest
    rw [Fraction.smaller_eq] at hb
    have hb₀ : 0 ≤ before := hb ▸ le_min (sub_nonneg.mpr htime) hdt
    have hb₁ : before ≤ delay - time := hb ▸ min_le_left _ _
    have hb₂ : before ≤ dt := hb ▸ min_le_right _ _
    have hearly : delay ≤ time + before + tolerance := by
      have htol := Fraction.tolerance_pos
      obtain h | h := min_choice (delay - time) dt <;> rw [← hb] at h
      · linarith
      · dsimp only at hdue
        linarith
    rw [Fraction.larger_of_nonneg (sub_nonneg.mpr hb₂)] at hrest
    have hplaying := stepped_state_of_playing hs before
    have hfalls : ((v.stepped before).fadeNow ⟨delay - time, length, release⟩).Falls release
        (time + before) length (time + before) := by
      rw [fadeNow_of_playing hplaying]
      exact ⟨rfl, rfl, ⟨_, rfl, rfl, Fraction.larger_of_nonneg hl, (sub_self _).symm⟩, le_rfl⟩
    obtain ⟨hstage, hlead⟩ := hfalls.stage (show time + before ≤ delay by linarith) hearly
      (show 0 ≤ rest by rw [hrest]; linarith)
    have hwrites : ∀ c ∈ v.stepTells before, c.isWrite := by
      rw [stepTells_of_playing hs]
      simp [Cue.isWrite]
    have hfading : ((v.stepped before).fadeNow ⟨delay - time, length, release⟩).state.isSounding :=
      by rw [hfalls.state]; rfl
    rw [he, ht, show time + dt = time + before + rest by rw [hrest]; ring]
    exact ⟨hstage, (Cue.Leads.of_writes hsounds hfading hwrites).trans hlead⟩
  · obtain rfl : _ = f := Option.some.inj (hp.symm.trans hf)
    rw [hlarger] at hdue he ht
    have hplaying : (v.fadeSooner ⟨delay - time, length, release⟩ dt).state = .playing := hs
    have hnext := stepped_state_of_playing hplaying dt
    rw [he, ht]
    refine ⟨.ahead hnext ?_ (by linarith [not_le.mp hdue]),
      .of_writes hsounds (by rw [hnext]; rfl) ?_⟩
    · rw [stepped_pending]
      exact congrArg (fun d => some (PendingFade.mk d length release)) (by ring)
    · rw [stepTells_of_playing hplaying]
      simp [Cue.isWrite]

namespace Stage

theorem next (h : v.Stage delay length release time) (hl : 0 ≤ length) (hdt : 0 ≤ dt) :
    (v.next dt).Stage delay length release (time + dt) ∧
      Cue.Leads release v.state (v.next dt).state (v.tells dt) := by
  have htol := Fraction.tolerance_pos
  cases h with
  | ahead hs hp hearly => exact stage_of_due hs hp (by linarith) hl hdt
  | underWay begun hf hlate hearly _ =>
    have hr : v.isReleased = false := by simp [isReleased, hf.state]
    have hn : v.next dt = v.stepped dt ∧ v.tells dt = v.stepTells dt := by
      unfold Voice.next Voice.tells
      rw [advance_of_not_pending hr hf.pending, Fraction.larger_of_nonneg hdt]
      exact ⟨rfl, rfl⟩
    rw [hn.1, hn.2]
    exact hf.stage hlate hearly hdt
  | done hs hp hbegun hlate =>
    have hsilent : v.state.isSounding = false := by rw [hs, VoiceState.isSounding_afterFade]
    obtain ⟨hs', hp', ht⟩ := next_of_not_sounding hsilent hp dt
    exact ⟨.done (hs'.trans hs) hp' (by linarith) (by linarith), .inl ⟨hsilent, hs', ht⟩⟩

theorem nextAll (h : v.Stage delay length release time) (hl : 0 ≤ length) {steps : List Rat}
    (hs : ∀ dt ∈ steps, 0 ≤ dt) :
    (v.nextAll steps).Stage delay length release (time + steps.sum) ∧
      Cue.Leads release v.state (v.nextAll steps).state (v.tellsAll steps) := by
  induction steps generalizing v time with
  | nil =>
    rw [List.sum_nil, add_zero]
    exact ⟨h, .refl release v.state⟩
  | cons dt steps ih =>
    obtain ⟨hnext, hlead⟩ := h.next hl (hs dt List.mem_cons_self)
    obtain ⟨hall, hleads⟩ := ih hnext fun d hd => hs d (List.mem_cons_of_mem dt hd)
    rw [List.sum_cons, ← add_assoc]
    exact ⟨hall, hlead.trans hleads⟩

end Stage

/-! ### From beginning to end -/

/-- A fade-out that is made due on a playing voice begins after its delay and ends after its length,
each at most a tolerance early, on every backend and however the time is cut into steps.  Until
then levels are written and nothing else; at the end the volume is silence, the handle is stopped,
and it is given back right then if that was asked for. -/
theorem fadeOut_punctual {β : Type} [AudioBackend Rat β] (b : β) (hv : v.state = .playing)
    (hd : 0 ≤ delay) (hl : 0 ≤ length) (release : Bool) {steps : List Rat} (hne : steps ≠ [])
    (hs : ∀ dt ∈ steps, 0 ≤ dt) :
    let w := v.scheduleFadeOut delay length release
    let state := (w.nextAll steps).state
    let cues := w.tellsAll steps
    w.advanceSteps steps b = (w.nextAll steps, tellAll b w.handle cues) ∧
      (steps.sum + tolerance < delay → state = .playing) ∧
      (steps.sum + 2 * tolerance < delay + length → state ≠ .stopped ∧ state ≠ .released) ∧
      (delay + length ≤ steps.sum → state = if release then .released else .stopped) ∧
      (state.isSounding ∧ (∀ c ∈ cues, c.isWrite) ∨
        state = .afterFade release ∧ Cue.Closes release cues) := by
  intro w state cues
  cases steps with
  | nil => exact absurd rfl hne
  | cons dt steps =>
    have hw : w.state = .playing := hv
    have hp : w.pending = some ⟨delay - 0, length, release⟩ := by
      rw [sub_zero, ← Fraction.larger_of_nonneg hd, ← Fraction.larger_of_nonneg hl]
      rfl
    obtain ⟨hnext, hlead⟩ := stage_of_due hw hp hd hl (hs dt List.mem_cons_self)
    obtain ⟨hstage, hleads⟩ := hnext.nextAll hl fun d hd => hs d (List.mem_cons_of_mem dt hd)
    rw [zero_add, ← List.sum_cons] at hstage
    refine ⟨w.advanceSteps_eq _ b, hstage.state_of_before, fun hb => ?_, hstage.state_of_after hl,
      ?_⟩
    · have hsounds : state.isSounding := hstage.isSounding_of_before hb
      constructor <;> intro hst <;> rw [hst] at hsounds <;> cases hsounds
    · obtain ⟨hsilent, -⟩ | ⟨-, h⟩ := hlead.trans hleads
      · simp [hw, VoiceState.isSounding] at hsilent
      · exact h

omit [Easing Rat] in
/-- The fade-out begins while the voice still fades in, in the middle of a step. -/
theorem fadeOut_punctual_inFadeIn :
    let _ : Easing Rat := ⟨fun _ x => x⟩
    let v : Voice Rat :=
      ⟨⟨1⟩, "clip", ⟨1, 1, none, none⟩, .fadeIn 4, .ofWords [], none, .playing, 0, 1⟩
    let w := v.scheduleFadeOut 1 1 true
    let steps : List Rat := [1 / 2, 3 / 4, 3 / 4]
    v.gain.isSettled = false ∧ (w.nextAll (steps.take 2)).state = .fadingOut true ∧
      w.advanceSteps steps (Notes.blank : Notes Rat) =
        (w.nextAll steps, tellAll (Notes.blank : Notes Rat) w.handle (w.tellsAll steps)) ∧
      (w.nextAll steps).state = .released ∧ Cue.Closes true (w.tellsAll steps) := by
  intro _ v w steps
  have hs : ∀ dt ∈ steps, 0 ≤ dt := by decide +kernel
  obtain ⟨hall, -, -, hover, hcues⟩ := fadeOut_punctual (Notes.blank : Notes Rat) (v := v) rfl
    (show (0 : Rat) ≤ 1 by norm_num) (show (0 : Rat) ≤ 1 by norm_num) true (List.cons_ne_nil _ _) hs
  have hstate : (w.nextAll steps).state = .released := hover (by norm_num [steps])
  refine ⟨rfl, by decide +kernel, hall, hstate, ?_⟩
  obtain ⟨hsounds, -⟩ | ⟨-, h⟩ := hcues
  · rw [hstate] at hsounds
    cases hsounds
  · exact h

end Voice

end Soundscape
