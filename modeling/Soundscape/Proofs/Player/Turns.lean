import Soundscape.Proofs.Number.Fraction
import Soundscape.Proofs.Player.Firing

/-!
# The turns of a step of time

A turn of a step is a last one, or the player fires in it (`Progress.turn_cases`).  What the player
does when it fires does not depend on how long it has waited (`Player.fire_waited`), and then it
plays, waits at least a shortest cycle, or is over (`Player.landed_fire`).  So on exact fractions a
step has as many turns as it may take (`Progress.stops_turnBound`).
-/

namespace Soundscape

namespace Player

variable {α : Type} [Scalar α]

/-! ### Waiting -/

theorem wait?_waited (dt : α) (p : Player α) :
    (p.waited dt).wait? = p.wait?.map fun remaining => remaining - dt := by
  obtain ⟨id, s, state, source, voice⟩ := p
  cases state <;> rfl

theorem waited_of_not_waiting {p : Player α} (h : p.wait? = none) (dt : α) : p.waited dt = p := by
  obtain ⟨id, s, state, source, voice⟩ := p
  cases state <;> first | rfl | cases h

theorem waited_waited (d e : Rat) (p : Player Rat) : (p.waited d).waited e = p.waited (d + e) := by
  obtain ⟨id, s, state, source, voice⟩ := p
  cases state <;> simp only [waited, sub_sub]

theorem waited_zero (p : Player Rat) : p.waited 0 = p := by
  obtain ⟨id, s, state, source, voice⟩ := p
  cases state <;> simp only [waited, sub_zero]

/-- The player does not wait, or no shorter than the shortest cycle. -/
def IsPaced (p : Player α) : Prop :=
  p.wait? = none ∨ ∃ wait, p.wait? = some (Scalar.larger wait shortestCycle)

/-- Where a player is once it has fired. -/
inductive Landed (p : Player α) : Prop where
  | ends : p.state = .terminated → Landed p
  | waits (wait : α) : p.state = .waitingForNext (Scalar.larger wait shortestCycle) → Landed p
  | plays (v : Voice α) : p.state = .playing → p.voice = some v → v.state = .playing → Landed p

theorem landed_terminate (p : Player α) : p.terminate.Landed := .ends rfl

theorem landed_waitForNext (p : Player α) : p.waitForNext.Landed := .waits _ rfl

theorem Landed.isPaced {p : Player α} (h : p.Landed) : p.IsPaced := by
  cases h with
  | ends hs => exact .inl (by rw [wait?, hs])
  | waits wait hs => exact .inr ⟨wait, by rw [wait?, hs]⟩
  | plays v hs => exact .inl (by rw [wait?, hs])

def moved (state : PlayerState α) (p : Player α) : Player α := { p with state }

theorem fadeAfterDuration_moved (state : PlayerState α) (p : Player α) (v : Voice α) :
    (p.moved state).fadeAfterDuration v =
      ((p.fadeAfterDuration v).1.moved state, (p.fadeAfterDuration v).2) := by
  have hs : (p.moved state).statement = p.statement := rfl
  unfold fadeAfterDuration
  rw [hs]
  split <;> rfl

variable {β : Type} [AudioBackend α β]

theorem fadeCycle_moved (state : PlayerState α) (fallback : α) (p : Player α) (v : Voice α)
    (b : β) :
    (p.moved state).fadeCycle fallback v b =
      ((p.fadeCycle fallback v b).1.moved state, (p.fadeCycle fallback v b).2) := by
  have hs : (p.moved state).statement = p.statement := rfl
  have hd : (p.moved state).source = p.source := rfl
  unfold fadeCycle
  rw [hs, hd]
  rcases p.statement.fadeOut.sampleOr 0 p.source with ⟨drawn, source⟩
  dsimp only
  split <;> rfl

variable [Easing α]

theorem state_of_openVoice {looped : Bool} {p q : Player α} {b b' : β} {v : Voice α}
    (h : p.openVoice looped b = (q, some v, b')) : v.state = .playing := by
  rcases ha : AudioBackend.acquire b p.draws.1.1 with ⟨e | k, c⟩
  · rw [openVoice_of_error ha] at h
    cases h
  · rw [openVoice_of_ok ha] at h
    cases h
    exact opened_state ..

theorem landed_startLoop (p : Player α) (b : β) : (p.startLoop b).1.Landed := by
  unfold startLoop
  rcases h : p.openVoice true b with ⟨q, _ | v, b'⟩
  · exact landed_terminate q
  · have hv := state_of_openVoice h
    obtain ⟨source, f, hf, hfade, -⟩ :=
      fadeAfterDuration_having (p := q) (x := q.voice) (y := q.voice) (v := v) (w := v)
    rw [having_self] at hfade
    dsimp only
    rw [hfade]
    refine .plays (f v) rfl rfl ?_
    cases hf with
    | nothing => exact hv
    | fade delay length => exact hv

theorem landed_startHeld (fallback : α) (p : Player α) (b : β) :
    (p.startHeld fallback b).1.Landed := by
  unfold startHeld
  split
  · exact landed_terminate _
  · exact landed_waitForNext _

theorem landed_restartHeld (fallback : α) (p : Player α) (b : β) :
    (p.restartHeld fallback b).1.Landed := by
  unfold restartHeld
  split
  · exact landed_terminate _
  · next v hv =>
    rcases drawRestart p.statement v.levels.movesPitch p.source with
      ⟨⟨clip, pitch, volume, fadeIn⟩, source⟩
    dsimp only
    rcases v.restart clip volume pitch fadeIn b with ⟨e | ⟨⟩, w, b'⟩
    · exact .ends rfl
    · exact landed_waitForNext _

/-- Only a looping player plays once it has fired; all firings but the first are a shortest cycle
apart. -/
theorem landed_fire (fallback : α) (p : Player α) (b : β) : (p.fire fallback b).1.Landed := by
  unfold fire
  split
  · exact p.landed_startLoop b
  · split
    · exact landed_terminate _
    · split
      · dsimp only
        split
        · exact landed_waitForNext _
        · exact landed_terminate _
      · dsimp only
        split
        · exact p.landed_startHeld fallback b
        · exact p.landed_restartHeld fallback b

theorem openVoice_moved (state : PlayerState α) (looped : Bool) (p : Player α) (b : β) :
    (p.moved state).openVoice looped b =
      ((p.openVoice looped b).1.moved state, (p.openVoice looped b).2) := by
  have hs : (p.moved state).statement = p.statement := rfl
  have hd : (p.moved state).source = p.source := rfl
  unfold openVoice
  rw [hs, hd]
  rcases Clip.resolve p.statement.clip p.source with ⟨clip, source⟩
  dsimp only
  rcases AudioBackend.acquire b clip with ⟨e | k, b'⟩ <;> rfl

theorem startLoop_moved (state : PlayerState α) (p : Player α) (b : β) :
    (p.moved state).startLoop b = p.startLoop b := by
  unfold startLoop
  rw [openVoice_moved]
  rcases p.openVoice true b with ⟨q, _ | v, b'⟩
  · rfl
  · dsimp only
    rw [fadeAfterDuration_moved]
    rfl

theorem openTransient_moved (state : PlayerState α) (fallback : α) (p : Player α) (b : β) :
    (p.moved state).openTransient fallback b =
      ((p.openTransient fallback b).1.moved state, (p.openTransient fallback b).2) := by
  unfold openTransient
  rw [openVoice_moved]
  rcases p.openVoice false b with ⟨q, _ | v, b'⟩ <;> rfl

theorem startHeld_moved (state : PlayerState α) (fallback : α) (p : Player α) (b : β) :
    (p.moved state).startHeld fallback b = p.startHeld fallback b := by
  unfold startHeld
  rw [openVoice_moved]
  rcases p.openVoice false b with ⟨q, _ | v, b'⟩
  · rfl
  · dsimp only
    rw [fadeCycle_moved]
    rfl

theorem restartHeld_moved (state : PlayerState α) (fallback : α) (p : Player α) (b : β) :
    (p.moved state).restartHeld fallback b = p.restartHeld fallback b := by
  have hs : (p.moved state).statement = p.statement := rfl
  have hd : (p.moved state).source = p.source := rfl
  have hv : (p.moved state).voice = p.voice := rfl
  unfold restartHeld
  rw [hs, hd, hv]
  split
  · rfl
  · next v hv =>
    rcases drawRestart p.statement v.levels.movesPitch p.source with
      ⟨⟨clip, pitch, volume, fadeIn⟩, source⟩
    dsimp only
    rcases v.restart clip volume pitch fadeIn b with ⟨e | ⟨⟩, w, b'⟩
    · rfl
    · have hf : fadeCycle fallback
          ⟨(p.moved state).id, p.statement, (p.moved state).state, source, p.voice⟩ w b' = _ :=
        fadeCycle_moved state fallback ({ p with source } : Player α) w b'
      dsimp only
      rw [hf]
      rfl

/-- How long a player has waited makes no difference once it fires. -/
theorem fire_waited {p : Player α} (hw : p.wait?.isSome) (dt fallback : α) (b : β) :
    (p.waited dt).fire fallback b = p.fire fallback b := by
  have hs : (p.waited dt).statement = p.statement := by
    unfold waited
    cases p.state <;> rfl
  have hmoved : ∃ state, p.waited dt = p.moved state ∧
      ((∃ r r', p.state = .waitingToStart r ∧ state = .waitingToStart r') ∨
        ∃ r r', p.state = .waitingForNext r ∧ state = .waitingForNext r') := by
    unfold waited
    cases hs : p.state with
    | waitingToStart r => exact ⟨_, rfl, .inl ⟨_, _, rfl, rfl⟩⟩
    | waitingForNext r => exact ⟨_, rfl, .inr ⟨_, _, rfl, rfl⟩⟩
    | _ => simp [wait?, hs] at hw
  obtain ⟨state, hq, hstate⟩ := hmoved
  rw [hq] at hs ⊢
  unfold fire
  rw [hs, startLoop_moved, openTransient_moved, startHeld_moved, restartHeld_moved]
  generalize p.openTransient fallback b = x
  generalize p.startHeld fallback b = y
  generalize p.restartHeld fallback b = z
  cases p.statement.kind with
  | loop => rfl
  | oneshot =>
    obtain ⟨q, v, b'⟩ := x
    dsimp only
    split
    · rfl
    · split
      · rfl
      · obtain ⟨r, r', hp, rfl⟩ | ⟨r, r', hp, rfl⟩ := hstate <;> rw [hp] <;> rfl

/-! ### Turns -/

namespace Progress

/-- The state within a step after the player has fired once some of it has passed. -/
def fired (fallback dt : α) (x : Progress α β) : Progress α β :=
  let y := x.spend dt
  let (player, v, backend) := y.player.fire fallback y.backend
  ⟨Scalar.larger (x.budget - dt) 0, player, y.fresh ++ v.toList, backend⟩

/-- The last turn of a step, in which all that is left is used up. -/
def finished (x : Progress α β) : Progress α β :=
  let y := x.spend x.budget
  match x.player.wait? with
  | none => { y with player := if y.player.isTerminated then y.player else y.player.followVoice }
  | some _ => { y with player := y.player.waited x.budget }

def outcome (x : Progress α β) : Player α × List (Voice α) × β := (x.player, x.fresh, x.backend)

theorem turn_cases (fallback : α) (x : Progress α β) :
    ((∀ r ∈ x.player.wait?, x.budget + tolerance < r) ∧ x.turn fallback = (false, x.finished)) ∨
    ∃ r, x.player.wait? = some r ∧ ¬ x.budget + tolerance < r ∧
      x.turn fallback = (true, x.fired fallback (Scalar.clamp r 0 x.budget)) := by
  unfold turn finished
  cases hw : x.player.wait? with
  | none => exact .inl ⟨nofun, rfl⟩
  | some r =>
    by_cases hr : x.budget + tolerance < r
    · exact .inl ⟨by simpa using hr, if_pos hr⟩
    · exact .inr ⟨r, rfl, hr, if_neg hr⟩

theorem finished_of_waiting {x : Progress α β} {r : α} (hw : x.player.wait? = some r) :
    x.finished =
      let y := x.spend x.budget
      { y with player := y.player.waited x.budget } := by
  unfold finished
  rw [hw]

theorem finished_of_not_waiting {x : Progress α β} (hw : x.player.wait? = none) :
    x.finished =
      let y := x.spend x.budget
      { y with player := if y.player.isTerminated then y.player else y.player.followVoice } := by
  unfold finished
  rw [hw]

theorem turn_of_last {x : Progress α β} (h : ∀ r ∈ x.player.wait?, x.budget + tolerance < r)
    (fallback : α) : x.turn fallback = (false, x.finished) := by
  obtain ⟨-, ht⟩ | ⟨r, hw, hr, -⟩ := x.turn_cases fallback
  · exact ht
  · exact absurd (h r hw) hr

theorem turn_of_due {x : Progress α β} {r : α} (hw : x.player.wait? = some r)
    (hr : ¬ x.budget + tolerance < r) (fallback : α) :
    x.turn fallback = (true, x.fired fallback (Scalar.clamp r 0 x.budget)) := by
  obtain ⟨h, -⟩ | ⟨r', hw', -, ht⟩ := x.turn_cases fallback
  · exact absurd (h r hw) hr
  · obtain rfl : r = r' := Option.some.inj (hw.symm.trans hw')
    exact ht

theorem fired_eq (fallback dt : α) (x : Progress α β) :
    x.fired fallback dt =
      let y := x.spend dt
      let z := y.player.fire fallback y.backend
      ⟨Scalar.larger (x.budget - dt) 0, z.1, y.fresh ++ z.2.1.toList, z.2.2⟩ := rfl

/-- Some turns are enough to end the step. -/
def Stops (fallback : α) : Nat → Progress α β → Prop
  | 0, _ => False
  | turns + 1, x => (x.turn fallback).1 → Stops fallback turns (x.turn fallback).2

variable {fallback : α} {x y : Progress α β} {n : Nat}

theorem run_of_last (h : x.turn fallback = (false, y)) (n : Nat) :
    x.run fallback (n + 1) = y := by
  rw [run, h]

theorem run_of_fired (h : x.turn fallback = (true, y)) (n : Nat) :
    x.run fallback (n + 1) = y.run fallback n := by
  rw [run, h]

theorem Stops.of_fired (hs : Stops fallback (n + 1) x) (h : x.turn fallback = (true, y)) :
    Stops fallback n y := by
  unfold Stops at hs
  rw [h] at hs
  exact hs rfl

end Progress

/-! ### How many turns there are -/

namespace Progress

variable {β : Type} [AudioBackend Rat β] [Easing Rat]

theorem budget_fired (fallback r : Rat) (x : Progress Rat β) :
    (x.fired fallback (Scalar.clamp r 0 x.budget)).budget =
      x.budget - Scalar.clamp r 0 x.budget :=
  Fraction.larger_of_nonneg (sub_nonneg.mpr (Fraction.clamp_le r x.budget))

theorem isPaced_fired (x : Progress Rat β) (fallback dt : Rat) :
    (x.fired fallback dt).player.IsPaced := by
  rw [fired_eq]
  exact (landed_fire ..).isPaced

theorem stops_of_paced (fallback : Rat) {n : Nat} {x : Progress Rat β} (hx : 0 ≤ x.budget)
    (hp : x.player.IsPaced) (hn : x.budget + tolerance < n / 100) : Stops fallback n x := by
  have htol : (tolerance : Rat) = 1 / 1000000000 := Fraction.tolerance_eq
  induction n generalizing x with
  | zero =>
    have hzero : ((0 : Nat) : Rat) / 100 = 0 := by norm_num
    linarith
  | succ n ih =>
    intro hfire
    obtain ⟨-, ht⟩ | ⟨r, hw, hr, ht⟩ := x.turn_cases fallback
    · rw [ht] at hfire
      cases hfire
    · rw [ht]
      obtain hnone | ⟨wait, hpaced⟩ := hp
      · simp [hnone] at hw
      · have hle : 1 / 100 ≤ r := by
          rw [← Option.some.inj (hpaced.symm.trans hw), Fraction.larger_eq,
            ← Fraction.shortestCycle_eq]
          exact le_max_right _ _
        have hsucc : ((n + 1 : Nat) : Rat) / 100 = n / 100 + 1 / 100 := by
          push_cast
          ring
        have hclamp : Scalar.clamp r 0 x.budget = min r x.budget := by
          rw [Fraction.clamp_eq, max_eq_left (by linarith)]
        have hpace := x.isPaced_fired fallback (Scalar.clamp r 0 x.budget)
        refine ih ?_ hpace ?_ <;> rw [budget_fired, hclamp]
        · exact sub_nonneg.mpr (min_le_right _ _)
        · rcases le_total r x.budget with hrx | hrx
          · rw [min_eq_left hrx]
            linarith
          · rw [min_eq_right hrx]
            have hpos : (0 : Rat) < n / 100 := by linarith
            have hone : 1 ≤ n := by
              by_contra hlt
              obtain rfl : n = 0 := by omega
              norm_num at hpos
            have hcast : (1 : Rat) ≤ n := by exact_mod_cast hone
            linarith

/-- A step of time has no more turns than it may take. -/
theorem stops_turnBound (fallback : Rat) {x : Progress Rat β} (hx : 0 ≤ x.budget) :
    Stops fallback (turnBound x.budget) x := by
  have hbound : turnBound x.budget = (2 * Scalar.floor (x.budget / shortestCycle) + 7) + 1 := rfl
  rw [hbound]
  intro hfire
  obtain ⟨-, ht⟩ | ⟨r, hw, hr, ht⟩ := x.turn_cases fallback
  · rw [ht] at hfire
    cases hfire
  · rw [ht]
    have hfloor := Fraction.lt_floor_add_one (x.budget / shortestCycle)
    have htol : (tolerance : Rat) = 1 / 1000000000 := Fraction.tolerance_eq
    have hpace := x.isPaced_fired fallback (Scalar.clamp r 0 x.budget)
    refine stops_of_paced fallback ?_ hpace ?_ <;> rw [budget_fired]
    · exact sub_nonneg.mpr (Fraction.clamp_le _ _)
    · have hclamp := Fraction.clamp_nonneg r hx
      have hk : (0 : Rat) ≤ (Scalar.floor (x.budget / shortestCycle) : Rat) := Nat.cast_nonneg _
      have hdiv : x.budget / shortestCycle = 100 * x.budget := by
        rw [Fraction.shortestCycle_eq]
        ring
      rw [hdiv] at hfloor hk ⊢
      push_cast
      linarith

end Progress

end Player

end Soundscape
