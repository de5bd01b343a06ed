import Mathlib.Algebra.Order.Field.Rat
import Soundscape.Playback.Recording
import Soundscape.Proofs.Player.Timeline

/-!
# Firing times do not drift

On exact fractions a one-shot that repeats fires for the n-th time at the n-th moment of its
timeline, at most a tolerance for each firing so far too early, and never late; and all firings are
nearly a shortest cycle apart, so every step of time comes to an end (`Player.fires_onTime`).  How
the time is cut into steps makes no difference.
-/

namespace Soundscape

namespace Player

/-! ### What waiting leaves alone -/

section Ready

variable {α : Type} [Scalar α] {s : Statement α} {source : Source} {n : Nat} {p : Player α}

theorem Ready.coherent (h : p.Ready s source n) (hk : s.kind = .oneshot) (he : s.every.isSet) :
    p.Coherent := by
  obtain rfl := h.statement
  obtain ⟨r, hstate⟩ := h.state
  unfold Coherent
  rw [hstate]
  cases n with
  | zero => exact h.empty (.inr rfl)
  | succ n =>
    refine ⟨hk, he, ?_⟩
    by_cases ho : p.statement.overlap = true
    · rw [h.empty (.inl ho), ho]
      rfl
    · obtain ⟨v, hv, -⟩ := h.holds (by simp [ho])
      rw [hv, Bool.eq_false_iff.mpr ho]
      rfl

theorem Ready.waited (h : p.Ready s source n) (dt : α) : (p.waited dt).Ready s source n := by
  obtain ⟨id, s', state, draws, voice⟩ := p
  obtain ⟨r, hstate⟩ := h.state
  obtain rfl : state = _ := hstate
  refine ⟨?_, ?_, ⟨r - dt, ?_⟩, ?_, ?_⟩ <;> cases n
  all_goals first
    | exact h.statement
    | exact h.draws
    | exact h.empty
    | exact h.holds
    | rfl

variable [Easing α]

theorem Ready.next (h : p.Ready s source n) (dt : α) :
    (p.having (p.voice.map (Voice.next dt))).Ready s source n where
  statement := h.statement
  draws := h.draws
  state := h.state
  empty ho := by rw [having_voice, h.empty ho, Option.map_none]
  holds ho := by
    obtain ⟨v, hv, hf, hm⟩ := h.holds ho
    refine ⟨v.next dt, by rw [having_voice, hv, Option.map_some], hf.next dt, ?_⟩
    rw [Voice.movesPitch_next, hm]

variable {β : Type} [AudioBackend α β]

theorem plays_tellEach (dt : α) (vs : List (Voice α)) (l : Listener α β) :
    (Voice.tellEach (Voice.tells dt) vs l).plays = l.plays ∧
      (Voice.tellEach (Voice.tells dt) vs l).refusals = l.refusals := by
  induction vs generalizing l with
  | nil => exact ⟨rfl, rfl⟩
  | cons v vs ih =>
    obtain ⟨hp, hr⟩ := ih (tellAll l v.handle (v.tells dt))
    rw [Listener.refusals_tellAll] at hr
    rw [Listener.plays_tellAll, Voice.countP_tells] at hp
    exact ⟨hp, hr⟩

end Ready

/-! ### On time -/

theorem shortestCycle_pos : (0 : Rat) < shortestCycle := by
  rw [Fraction.shortestCycle_eq]
  norm_num

theorem shortestCycle_le_drawWait (s : Statement Rat) (n : Nat) (source : Source) :
    shortestCycle ≤ (s.drawWait n source).1 := by
  show shortestCycle ≤ Scalar.larger _ shortestCycle
  rw [Fraction.larger_eq]
  exact le_max_right _ _

theorem timeline_le (s : Statement Rat) (source : Source) {n k : Nat} (h : n ≤ k) :
    (s.timeline source n).1 ≤ (s.timeline source k).1 := by
  induction k, h using Nat.le_induction with
  | base => exact le_rfl
  | succ k _ ih =>
    have hwait := shortestCycle_le_drawWait s k (s.timeline source k).2
    exact ih.trans (le_add_of_nonneg_right (shortestCycle_pos.le.trans hwait))

variable {β : Type} [AudioBackend Rat β] [Easing Rat]

/-- After some time the player has fired n times, each when it should, and fires again after the
rest of its wait. -/
structure OnTime (s : Statement Rat) (source : Source) (n : Nat) (time rest : Rat) (p : Player Rat)
    (l : Listener Rat β) : Prop where
  ready : p.Ready s source n
  plays : l.plays = n
  refusals : l.refusals = []
  wait : p.wait? = some rest
  since : 0 ≤ time
  ahead : 0 ≤ rest
  /-- Each firing so far may have been a tolerance early. -/
  early : (s.timeline source n).1 ≤ time + rest + n * tolerance
  late : time + rest ≤ (s.timeline source n).1
  fired : ∀ k < n, (s.timeline source k).1 ≤ time + (k + 1) * tolerance
  paced : ∀ k, n = k + 1 → k * (shortestCycle - tolerance) ≤ time ∧
    (k + 1) * (shortestCycle - tolerance) + tolerance ≤ time + rest

variable {s : Statement Rat} {source : Source} {n : Nat} {time rest : Rat} {p : Player Rat}
  {l : Listener Rat β}

omit [AudioBackend Rat β] [Easing Rat] in
theorem onTime_new (id : Nat) (s : Statement Rat) (source : Source) (b : β) :
    ∃ rest, OnTime s source 0 0 rest (new id s source) (Listener.on b : Listener Rat β) := by
  refine ⟨(s.timeline source 0).1, ready_new id s source, rfl, rfl, rfl, le_rfl, ?_, ?_, ?_, nofun,
    nofun⟩
  · show (0 : Rat) ≤ Scalar.larger _ 0
    rw [Fraction.larger_eq]
    exact le_max_right _ 0
  · rw [Nat.cast_zero, zero_mul, add_zero, zero_add]
  · rw [zero_add]

theorem OnTime.wait_spend (h : OnTime s source n time rest p l) {dt : Rat} (hdt : 0 ≤ dt)
    (hle : dt ≤ rest) (fresh : List (Voice Rat)) :
    OnTime s source n (time + dt) (rest - dt) ((p.having (p.voice.map (Voice.next dt))).waited dt)
      (Voice.tellEach (Voice.tells dt) (p.voice.toList ++ fresh) l) := by
  obtain ⟨hplays, hrefusals⟩ := plays_tellEach dt (p.voice.toList ++ fresh) l
  have hsum : time + dt + (rest - dt) = time + rest := by ring
  refine ⟨(h.ready.next dt).waited dt, hplays.trans h.plays, hrefusals.trans h.refusals, ?_,
    add_nonneg h.since hdt, sub_nonneg.mpr hle, hsum ▸ h.early, hsum ▸ h.late, fun k hk => ?_,
    fun k hk => ?_⟩
  · rw [wait?_waited, wait?_having, h.wait]
    rfl
  · linarith [h.fired k hk]
  · rw [hsum]
    exact ⟨by linarith [(h.paced k hk).1], (h.paced k hk).2⟩

theorem OnTime.fire (h : OnTime s source n time rest p l) (hk : s.kind = .oneshot)
    (he : s.every.isSet) (hrest : rest ≤ tolerance) (fallback : Rat) :
    0 < (p.fire fallback l).2.2.refusals.length ∨
      ∃ wait, OnTime s source (n + 1) time wait (p.fire fallback l).1 (p.fire fallback l).2.2 := by
  have hfire := h.ready.fire hk he fallback l
  revert hfire
  generalize (p.fire fallback l).1 = q
  generalize (p.fire fallback l).2.2 = l'
  rintro (hr | ⟨hready, hwait, hplays, hrefusals⟩)
  · exact .inl (Nat.zero_lt_of_lt hr)
  · generalize hd : (s.drawWait n (s.timeline source n).2).1 = wait at hwait
    have hcycle : shortestCycle ≤ wait := hd ▸ shortestCycle_le_drawWait s n _
    have hnext : (s.timeline source (n + 1)).1 = (s.timeline source n).1 + wait := by
      rw [← hd]
      rfl
    have hearly : (s.timeline source n).1 ≤ time + (n + 1) * tolerance := by
      linarith [h.early]
    have hlate := h.late
    have hahead := h.ahead
    refine .inr ⟨wait, hready, by rw [hplays, h.plays], hrefusals.trans h.refusals, hwait, h.since,
      shortestCycle_pos.le.trans hcycle, ?_, ?_, fun k hlt => ?_, fun k hn => ?_⟩
    · rw [hnext]
      push_cast
      linarith
    · rw [hnext]
      linarith
    · obtain hlt | rfl := Nat.lt_succ_iff_lt_or_eq.mp hlt
      · exact h.fired k hlt
      · exact hearly
    · obtain rfl : n = k := Nat.succ.inj hn
      have hsince : n * (shortestCycle - tolerance) ≤ time := by
        cases n with
        | zero =>
          rw [Nat.cast_zero, zero_mul]
          exact h.since
        | succ j =>
          have hpaced := (h.paced j rfl).2
          push_cast
          linarith
      exact ⟨hsince, by linarith⟩

variable {x : Progress Rat (Listener Rat β)}

theorem OnTime.turn (h : OnTime s source n time rest x.player x.backend) (hk : s.kind = .oneshot)
    (he : s.every.isSet) (hx : 0 ≤ x.budget) (fallback : Rat) :
    let y := (x.turn fallback).2
    ((x.turn fallback).1 = false ∧ tolerance < rest - x.budget ∧
      OnTime s source n (time + x.budget) (rest - x.budget) y.player y.backend) ∨
    ((x.turn fallback).1 = true ∧ 0 ≤ y.budget ∧
      (0 < y.backend.refusals.length ∨
        ∃ rest, OnTime s source (n + 1) (time + (x.budget - y.budget)) rest y.player
          y.backend)) := by
  obtain ⟨hlast, ht⟩ | ⟨r, hw, hr, ht⟩ := x.turn_cases fallback <;> rw [ht]
  · have hlt := hlast rest h.wait
    have htol := Fraction.tolerance_pos
    refine .inl ⟨rfl, by linarith, ?_⟩
    rw [Progress.finished_of_waiting h.wait, Progress.spend, advanceVoices_eq]
    exact h.wait_spend hx (by linarith) x.fresh
  · obtain rfl : rest = r := Option.some.inj (h.wait.symm.trans hw)
    generalize hdt : Scalar.clamp rest 0 x.budget = dt
    rw [Fraction.clamp_eq, max_eq_left h.ahead] at hdt
    have hdt₀ : 0 ≤ dt := hdt ▸ le_min h.ahead hx
    have hdt₁ : dt ≤ rest := hdt ▸ min_le_left _ _
    have hdt₂ : dt ≤ x.budget := hdt ▸ min_le_right _ _
    have hnow : rest - dt ≤ tolerance := by
      have htol := Fraction.tolerance_pos
      obtain hm | hm := min_choice rest x.budget <;> rw [hdt] at hm <;> linarith
    have hfire := (h.wait_spend hdt₀ hdt₁ x.fresh).fire hk he hnow fallback
    have hwait : (x.player.having (x.player.voice.map (Voice.next dt))).wait?.isSome := by
      rw [wait?_having, h.wait]
      rfl
    rw [fire_waited hwait] at hfire
    rw [Progress.fired_eq, Progress.spend, advanceVoices_eq]
    dsimp only
    rw [Fraction.larger_of_nonneg (sub_nonneg.mpr hdt₂), sub_sub_cancel]
    exact .inr ⟨rfl, sub_nonneg.mpr hdt₂, hfire⟩

theorem OnTime.run (h : OnTime s source n time rest x.player x.backend) (hk : s.kind = .oneshot)
    (he : s.every.isSet) (hx : 0 ≤ x.budget) {fallback : Rat} {turns : Nat}
    (hs : Progress.Stops fallback turns x) :
    let y := x.run fallback turns
    0 < y.backend.refusals.length ∨
      ∃ n rest, tolerance < rest ∧ OnTime s source n (time + x.budget) rest y.player y.backend := by
  induction turns generalizing x n time rest with
  | zero => exact hs.elim
  | succ turns ih =>
    have hturn := h.turn hk he hx fallback
    rcases hy : x.turn fallback with ⟨_ | _, y⟩ <;> rw [hy] at hturn
    · obtain ⟨-, hlt, hlast⟩ | ⟨hf, -⟩ := hturn
      · rw [Progress.run_of_last hy]
        exact .inr ⟨n, _, hlt, hlast⟩
      · cases hf
    · obtain ⟨hf, -⟩ | ⟨-, hb, hr | ⟨rest', hfired⟩⟩ := hturn
      · cases hf
      · -- what was refused in this turn is not forgotten in the others
        have hcoherent : y.player.Coherent := by
          have hc := (Listener.alone_refused (β := β) x.player.statement 0).turn
            (i := x.player.identity) rfl (h.ready.coherent hk he) (Nat.zero_le _) fallback
          rw [hy] at hc
          exact hc.2.1
        rw [Progress.run_of_fired hy]
        exact .inl ((Listener.alone_refused (β := β) y.player.statement 1).run
          (i := y.player.identity) fallback turns rfl hcoherent hr).2.2
      · rw [Progress.run_of_fired hy]
        have hsum : time + (x.budget - y.budget) + y.budget = time + x.budget := by ring
        rw [← hsum]
        exact ih hfired hb (hs.of_fired hy)

/-! ### Steps of time -/

/-- A step of time, unless a clip cannot be had in it. -/
theorem OnTime.advance (h : OnTime s source n time rest p l) (hk : s.kind = .oneshot)
    (he : s.every.isSet) {dt : Rat} (hdt : 0 ≤ dt) (fallback : Rat) :
    0 < (p.advance dt fallback l).2.2.refusals.length ∨
      ∃ n rest, tolerance < rest ∧ OnTime s source n (time + dt) rest (p.advance dt fallback l).1
        (p.advance dt fallback l).2.2 := by
  have hrun := h.run (x := ⟨dt, p, [], l⟩) hk he hdt
    (Progress.stops_turnBound fallback (x := ⟨dt, p, [], l⟩) hdt)
  unfold Player.advance
  rw [Fraction.larger_of_nonneg hdt]
  exact hrun

section Steps

variable {α γ : Type} [Scalar α] [Easing α] [AudioBackend α γ]

/-- The player and its backend after steps of time, one after the other. -/
def advanceSteps (fallback : α) (steps : List α) (p : Player α) (b : γ) : Player α × γ :=
  steps.foldl (fun x dt =>
    let (p, _, b) := x.1.advance dt fallback x.2
    (p, b)) (p, b)

end Steps

theorem refused_advanceSteps (hc : p.Coherent) (hl : 0 < l.refusals.length) (fallback : Rat)
    (steps : List Rat) : 0 < (p.advanceSteps fallback steps l).2.refusals.length := by
  induction steps generalizing p l with
  | nil => exact hl
  | cons dt steps ih =>
    have ha := (Listener.alone_refused (β := β) p.statement 1).advancePlayer hc hl dt fallback
    exact ih ha.2.1 ha.2.2

theorem OnTime.advanceSteps (h : OnTime s source n time rest p l) (hk : s.kind = .oneshot)
    (he : s.every.isSet) {fallback : Rat} {steps : List Rat} (hs : ∀ dt ∈ steps, 0 ≤ dt)
    (hr : (p.advanceSteps fallback steps l).2.refusals = []) (hne : steps ≠ []) :
    ∃ n rest, tolerance < rest ∧ OnTime s source n (time + steps.sum) rest
      (p.advanceSteps fallback steps l).1 (p.advanceSteps fallback steps l).2 := by
  induction steps generalizing p l n time rest with
  | nil => exact absurd rfl hne
  | cons dt steps ih =>
    obtain ⟨hdt, hs⟩ := List.forall_mem_cons.mp hs
    obtain hlost | ⟨n', rest', hrest', hnext⟩ := h.advance hk he hdt fallback
    · have hc := ((Listener.alone_refused (β := β) p.statement 0).advancePlayer
        (h.ready.coherent hk he) (Nat.zero_le l.refusals.length) dt fallback).2.1
      have hlater := refused_advanceSteps hc hlost fallback steps
      have hkept : (Player.advanceSteps fallback steps (p.advance dt fallback l).1
          (p.advance dt fallback l).2.2).2.refusals = [] := hr
      rw [hkept] at hlater
      cases hlater
    · rw [List.sum_cons, ← add_assoc]
      cases steps with
      | nil =>
        rw [List.sum_nil, add_zero]
        exact ⟨n', rest', hrest', hnext⟩
      | cons d steps => exact ih hnext hs hr (List.cons_ne_nil d steps)

/-- A one-shot that repeats fires as its timeline says, as long as its clips can be had.  Every step
of time ends by itself; by the end of some steps a firing has happened if its moment has come, and
has not happened if its moment is more than a tolerance for each firing so far away; and there are
no more firings than there is time for. -/
theorem fires_onTime (b : β) (hk : s.kind = .oneshot) (he : s.every.isSet) (id : Nat)
    (source : Source) (fallback : Rat) {steps : List Rat} (hs : ∀ dt ∈ steps, 0 ≤ dt) :
    let run := fun steps =>
      (new id s source).advanceSteps fallback steps (Listener.on b : Listener Rat β)
    let fired := (run steps).2.plays
    (∀ before dt after, steps = before ++ dt :: after → Progress.Stops fallback (turnBound dt)
      ⟨dt, (run before).1, [], (run before).2⟩) ∧
    ((run steps).2.refusals = [] → steps ≠ [] →
      (∀ k, (s.timeline source k).1 ≤ steps.sum → k < fired) ∧
      (∀ k < fired, (s.timeline source k).1 - (k + 1) * tolerance ≤ steps.sum) ∧
      fired ≤ 1 + steps.sum / (shortestCycle - tolerance)) := by
  intro run fired
  obtain ⟨rest, hnew⟩ := onTime_new id s source b
  refine ⟨fun before dt after heq => ?_, fun hr hne => ?_⟩
  · have hdt : dt ∈ steps := heq ▸ List.mem_append_right _ List.mem_cons_self
    exact Progress.stops_turnBound fallback (x := ⟨dt, (run before).1, [], (run before).2⟩)
      (hs dt hdt)
  · obtain ⟨n, rest, hrest, h⟩ := hnew.advanceSteps hk he hs hr hne
    rw [zero_add] at h
    have hn : fired = n := h.plays
    have htol := Fraction.tolerance_pos
    rw [hn]
    refine ⟨fun k hle => ?_, fun k hlt => ?_, ?_⟩
    · by_contra hlt
      have := timeline_le s source (not_lt.mp hlt)
      linarith [h.late]
    · linarith [h.fired k hlt]
    · have hgap : (0 : Rat) < shortestCycle - tolerance := by
        rw [Fraction.shortestCycle_eq, Fraction.tolerance_eq]
        norm_num
      cases n with
      | zero =>
        rw [Nat.cast_zero]
        have := div_nonneg h.since hgap.le
        linarith
      | succ k =>
        have hk : (k : Rat) ≤ steps.sum / (shortestCycle - tolerance) :=
          (le_div_iff₀ hgap).mpr (h.paced k rfl).1
        push_cast
        linarith

def drip : Statement Rat where
  kind := .oneshot
  clip := "drop"
  count := 1
  startsAt := .fixed (1 / 4)
  duration := .unset
  every := .fixed 1
  volume := .unset
  pitch := .unset
  fadeIn := .unset
  fadeOut := .fixed (1 / 2)
  overlap := false
  movement := .still
  visuals := []
  volumeInterpolation := none
  pitchInterpolation := none
  line := 1

omit [Easing Rat] in
/-- Two of the three firings come in one step. -/
theorem fires_onTime_drip :
    let _ : Easing Rat := ⟨fun _ x => x⟩
    let source := Source.ofWords []
    let steps : List Rat := [1 / 2, 0, 2]
    let l : Listener Rat (Recording Rat) := .on (.empty 3 [] [])
    let played := ((new 0 drip source).advanceSteps 1 steps l).2
    played.refusals = [] ∧ played.plays = 3 ∧
      (∀ k, (drip.timeline source k).1 ≤ steps.sum → k < 3) ∧
      (∀ k < 3, (drip.timeline source k).1 - (k + 1) * tolerance ≤ steps.sum) ∧
      (3 : Rat) ≤ 1 + steps.sum / (shortestCycle - tolerance) := by
  intro _ source steps l played
  have hs : ∀ dt ∈ steps, 0 ≤ dt := by decide +kernel
  have hrefusals : played.refusals = [] := by decide +kernel
  have hplays : played.plays = 3 := by decide +kernel
  obtain ⟨-, hall⟩ :=
    fires_onTime (Recording.empty 3 [] [] : Recording Rat) (s := drip) rfl rfl 0 source 1 hs
  have hfires := hall hrefusals (List.cons_ne_nil _ _)
  change (∀ k, _ → k < played.plays) ∧ (∀ k < played.plays, _) ∧ (played.plays : Rat) ≤ _ at hfires
  rw [hplays] at hfires
  exact ⟨hrefusals, hplays, hfires⟩

end Player

end Soundscape
