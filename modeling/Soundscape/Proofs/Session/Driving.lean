import Soundscape.Playback.Recording
import Soundscape.Proofs.Number.Fraction
import Soundscape.Session

/-!
# Two ways to play a session

A session can be run for a time, counting what remains down to the tolerance, and it can be driven
to a limit, counting up what has passed and stopping early when nothing is left to play.  Both loops
are also relations without a bound on their turns, `Session.Runs` and `Session.Drives`, and on exact
fractions both end (`Session.runs_runFor`, `Session.drives_driveTicks`).  They take the same ticks
until the scheduler is idle, and an idle scheduler asks its backend for nothing; so after the final
reset a backend was asked for the same in the same order (`Session.drive_runFor`).
-/

namespace Soundscape

/-! ### What a backend is asked for -/

/-- A backend with an account of all that is asked of it.  To ask for the length of a clip changes
no backend, so it is not entered. -/
structure Ledger (α β : Type) where
  backend : β
  requests : List (Request α)

namespace Ledger

variable {α β : Type}

def blank (b : β) : Ledger α β := ⟨b, []⟩

/-- The account with one more entry, and the backend after it. -/
def entered (l : Ledger α β) (r : Request α) (b : β) : Ledger α β := ⟨b, l.requests ++ [r]⟩

instance [AudioBackend α β] : AudioBackend α (Ledger α β) where
  acquire l clip :=
    let (answer, b) := AudioBackend.acquire l.backend clip
    (answer, l.entered (.acquire clip) b)
  loadClip l h clip :=
    let (answer, b) := AudioBackend.loadClip l.backend h clip
    (answer, l.entered (.loadClip h clip) b)
  setVolume l h v := l.entered (.setVolume h v) (AudioBackend.setVolume l.backend h v)
  setPitch l h v := l.entered (.setPitch h v) (AudioBackend.setPitch l.backend h v)
  play l h looped := l.entered (.play h looped) (AudioBackend.play l.backend h looped)
  stop l h := l.entered (.stop h) (AudioBackend.stop l.backend h)
  release l h := l.entered (.release h) (AudioBackend.release l.backend h)
  clipLength l h := AudioBackend.clipLength l.backend h
  place l h p := l.entered (.place h p) (AudioBackend.place l.backend h p)

end Ledger

namespace Session

section Loops

variable {α β : Type} [Scalar α] [AudioBackend α β] [Easing α]

/-- Ticks while more than the tolerance remains. -/
inductive Runs : α → Session α × β → Session α × β → Prop
  | past {remaining : α} {x : Session α × β} : ¬ tolerance < remaining → Runs remaining x x
  | tick {remaining dt : α} {x y : Session α × β} : tolerance < remaining →
      dt = Scalar.smaller x.1.setup.tickSeconds remaining →
      Runs (remaining - dt) (x.1.tick dt x.2) y → Runs remaining x y

/-- Ticks until nothing is left to play or the limit is reached; tells the time that was played. -/
inductive Drives (limit : α) : α → Session α × β → Session α × β × α → Prop
  | idle {elapsed : α} {x : Session α × β} : x.1.scheduler.isIdle →
      Drives limit elapsed x (x.1, x.2, elapsed)
  | past {elapsed : α} {x : Session α × β} : ¬ x.1.scheduler.isIdle → limit ≤ elapsed + tolerance →
      Drives limit elapsed x (x.1, x.2, elapsed)
  | tick {elapsed dt : α} {x : Session α × β} {y : Session α × β × α} :
      ¬ x.1.scheduler.isIdle → ¬ limit ≤ elapsed + tolerance →
      dt = Scalar.smaller x.1.setup.tickSeconds (limit - elapsed) →
      Drives limit (elapsed + dt) (x.1.tick dt x.2) y → Drives limit elapsed x y

/-! ### An idle session -/

variable {s : Session α}

omit [Scalar α] [Easing α] in
theorem idle_iff : s.scheduler.isIdle ↔ s.scheduler.players = [] ∧ s.scheduler.voices = [] := by
  simp [Scheduler.isIdle]

theorem tick_of_idle (h : s.scheduler.isIdle) (dt : α) (b : β) :
    (s.tick dt b).2 = b ∧ (s.tick dt b).1.scheduler.isIdle := by
  obtain ⟨hp, hv⟩ := idle_iff.mp h
  constructor
  · simp [tick, Scheduler.tick, hp, hv, Voice.advanceAll, Scheduler.advanceAll]
  · rw [idle_iff]
    simp [tick, Scheduler.tick, hp, hv, Voice.advanceAll, Scheduler.advanceAll]

omit [Scalar α] [Easing α] in
theorem hardReset_of_idle (h : s.scheduler.isIdle) (b : β) : (s.hardReset b).2 = b := by
  obtain ⟨hp, hv⟩ := idle_iff.mp h
  simp [hardReset, Scheduler.hardReset, hp, hv, Scheduler.cancelAll, Voice.killAll]

theorem Runs.of_idle {remaining : α} {x y : Session α × β} (h : Runs remaining x y)
    (hx : x.1.scheduler.isIdle) : y.2 = x.2 ∧ y.1.scheduler.isIdle := by
  induction h with
  | past _ => exact ⟨rfl, hx⟩
  | @tick _ dt x _ _ _ _ ih =>
    obtain ⟨hb, hidle⟩ := tick_of_idle hx dt x.2
    obtain ⟨hy, hend⟩ := ih hidle
    exact ⟨hy.trans hb, hend⟩

end Loops

/-! ### On exact fractions -/

theorem sub_smaller_le {step remaining : Rat} {n : Nat} (hstep : 0 < step)
    (hn : remaining ≤ (n + 1 : Nat) * step + tolerance) :
    remaining - Scalar.smaller step remaining ≤ n * step + tolerance := by
  have hnonneg : 0 ≤ (n : Rat) * step := by positivity
  have htol := Fraction.tolerance_pos
  rw [Fraction.smaller_eq]
  rcases le_total step remaining with h | h
  · rw [min_eq_left h]
    push_cast at hn
    linarith
  · rw [min_eq_right h]
    linarith

theorem le_turnBound (seconds : Rat) {step : Rat} (hstep : 0 < step) :
    seconds ≤ (turnBound seconds step : Nat) * step + tolerance := by
  have htol := Fraction.tolerance_pos
  have hfloor : seconds < (Scalar.floor (seconds / step) + 1) * step := by
    rw [← div_lt_iff₀ hstep]
    exact Fraction.lt_floor_add_one _
  have hbound : ((Scalar.floor (seconds / step) + 1 : Nat) : Rat) * step ≤
      (turnBound seconds step : Nat) * step := by
    apply mul_le_mul_of_nonneg_right _ hstep.le
    exact_mod_cast (by unfold turnBound; omega :
      Scalar.floor (seconds / step) + 1 ≤ turnBound seconds step)
  push_cast at hbound
  linarith

variable {β : Type} [AudioBackend Rat β] [Easing Rat] {s : Session Rat}

theorem runs_runTicks (hstep : 0 < s.setup.tickSeconds) {turns : Nat} {remaining : Rat}
    (hn : remaining ≤ turns * s.setup.tickSeconds + tolerance) (b : β) :
    Runs remaining (s, b) (s.runTicks turns remaining b) := by
  induction turns generalizing s remaining b with
  | zero =>
    rw [Nat.cast_zero, zero_mul, zero_add] at hn
    exact .past (not_lt.mpr hn)
  | succ turns ih =>
    unfold runTicks
    by_cases hr : tolerance < remaining
    · rw [if_pos hr]
      refine .tick hr rfl ?_
      exact ih (s := (s.tick _ b).1) hstep (sub_smaller_le hstep hn) (s.tick _ b).2
    · rw [if_neg hr]
      exact .past hr

/-- To run a session for a time comes to an end. -/
theorem runs_runFor (hstep : 0 < s.setup.tickSeconds) (seconds : Rat) (b : β) :
    Runs seconds (s, b) (s.runFor seconds b) :=
  runs_runTicks hstep (le_turnBound seconds hstep) b

theorem drives_driveTicks (hstep : 0 < s.setup.tickSeconds) {turns : Nat} {limit elapsed : Rat}
    (hn : limit - elapsed ≤ turns * s.setup.tickSeconds + tolerance) (b : β) :
    Drives limit elapsed (s, b) (s.driveTicks (some limit) turns elapsed b) := by
  induction turns generalizing s elapsed b with
  | zero =>
    rw [Nat.cast_zero, zero_mul, zero_add] at hn
    by_cases hi : s.scheduler.isIdle
    · exact .idle hi
    · exact .past hi (by linarith)
  | succ turns ih =>
    unfold driveTicks
    by_cases hi : s.scheduler.isIdle
    · rw [if_pos hi]
      exact .idle hi
    · rw [if_neg hi]
      dsimp only
      by_cases hl : limit ≤ elapsed + tolerance
      · rw [if_pos hl]
        exact .past hi hl
      · rw [if_neg hl]
        refine .tick hi hl rfl ?_
        refine ih (s := (s.tick _ b).1) hstep ?_ (s.tick _ b).2
        rw [← sub_sub]
        exact sub_smaller_le hstep hn

/-- What remains is what the limit is away, so the two loops take the same ticks up to the moment at
which nothing is left to play. -/
theorem Drives.hardReset_eq {limit elapsed : Rat} {x y : Session Rat × β}
    {z : Session Rat × β × Rat} (h : Drives limit elapsed x z) (hr : Runs (limit - elapsed) x y) :
    (z.1.hardReset z.2.1).2 = (y.1.hardReset y.2).2 := by
  induction h with
  | idle hi =>
    obtain ⟨hy, hend⟩ := hr.of_idle hi
    rw [hardReset_of_idle hi, hardReset_of_idle hend, hy]
  | past _ hl =>
    cases hr with
    | past _ => rfl
    | tick hlt _ _ => exact absurd hlt (by linarith)
  | @tick elapsed dt x z _ hl hdt _ ih =>
    cases hr with
    | past hlt => exact absurd (show tolerance < limit - elapsed by linarith) hlt
    | @tick _ dt' _ _ _ hdt' hrest =>
      obtain rfl : dt = dt' := hdt.trans hdt'.symm
      apply ih
      rw [← sub_sub]
      exact hrest

/-- To drive a loaded session to a limit and to run it for that time both come to an end, and when
it is reset then a backend has been asked for the same in the same order.  A backend is a state that
its calls change, so what it answers depends on the calls alone. -/
theorem drive_runFor (setup : SessionSetup Rat) (hstep : 0 < setup.tickSeconds) (script : String)
    (seconds : Rat) (b : β) :
    let s := (Session.new setup).load script
    let l : Ledger Rat β := .blank b
    let ran := s.runFor seconds l
    let driven := s.drive (some seconds) l
    Runs seconds (s, l) ran ∧
      (∃ (s' : Session Rat) (l' : Ledger Rat β), Drives seconds 0 (s, l) (s', l', driven.2.2) ∧
        s'.hardReset l' = (driven.1, driven.2.1)) ∧
      driven.2.1 = (ran.1.hardReset ran.2).2 := by
  have hs : 0 < ((Session.new setup).load script).setup.tickSeconds := hstep
  generalize (Session.new setup).load script = s at hs
  intro _ l ran driven
  have hbound : seconds - 0 ≤ turnBound seconds s.setup.tickSeconds * s.setup.tickSeconds +
      tolerance := by
    rw [sub_zero]
    exact le_turnBound seconds hs
  have hruns : Runs (seconds - 0) (s, l) ran := by
    rw [sub_zero]
    exact runs_runFor hs seconds l
  have hdrives := drives_driveTicks hs hbound l
  refine ⟨sub_zero seconds ▸ hruns, ⟨_, _, hdrives, rfl⟩, ?_⟩
  exact hdrives.hardReset_eq hruns

omit [Easing Rat] in
/-- A bird that is heard for half a second is over in the second tick, long before the limit. -/
theorem drive_runFor_bird :
    let _ : Easing Rat := ⟨fun _ x => x⟩
    let setup : SessionSetup Rat := ⟨7, 2 / 5, 1 / 2, false⟩
    let s := (Session.new setup).load "oneshot \"bird\":"
    let l : Ledger Rat (Recording Rat) := .blank (.empty (1 / 2) [] [])
    let ran := s.runFor (3 / 2) l
    let driven := s.drive (some (3 / 2)) l
    0 < setup.tickSeconds ∧
      (driven.2.2 = 4 / 5 ∧ driven.2.1.requests = [.acquire "bird",
        .place ⟨1⟩ ⟨.still, ⟨0, 0, 0⟩, ⟨0, 0, 0⟩, 0, []⟩, .setVolume ⟨1⟩ 1, .setPitch ⟨1⟩ 1,
        .play ⟨1⟩ false, .setVolume ⟨1⟩ 1, .setPitch ⟨1⟩ 1, .setVolume ⟨1⟩ 1, .setPitch ⟨1⟩ 1,
        .setVolume ⟨1⟩ 0, .setPitch ⟨1⟩ 1, .stop ⟨1⟩, .release ⟨1⟩]) ∧
      Runs (3 / 2) (s, l) ran ∧
      (∃ (s' : Session Rat) (l' : Ledger Rat (Recording Rat)),
        Drives (3 / 2) 0 (s, l) (s', l', driven.2.2) ∧
        s'.hardReset l' = (driven.1, driven.2.1)) ∧
      driven.2.1 = (ran.1.hardReset ran.2).2 := by
  intro _
  refine ⟨by decide +kernel, by decide +kernel, ?_⟩
  exact drive_runFor _ (by decide +kernel) _ _ _

end Session

end Soundscape
