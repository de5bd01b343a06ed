import Soundscape.Interpolation.Playhead
import Soundscape.Proofs.Number.Size
import Soundscape.Script.Property

/-!
# Turns that come to an end

A counted run has no more turns than cycles, whatever its numbers are.  An endless one only stops
when its time lies within a cycle, and every cycle that passes is taken from the time with rounding.
In doubles that lowers the time as long as no duration is too short for it, so the turns come to an
end (`Playhead.ends_of_inScale`).  A duration that is lost in the time leaves it as it is, and an
endless run then takes turns for ever (`Playhead.not_ends_of_outOfScale`).
-/

namespace Soundscape

/-! ## Durations and times -/

namespace Doubles

variable {d t u : Float}

/-- A positive duration that lowers a time when it is taken from it. -/
structure Felt (d t : Float) : Prop where
  positive : Positive d
  size_lt : size t < 2 ^ 53 * size d

/-- A positive duration that is lost when it or twice itself is taken from a time. -/
structure Lost (d t : Float) : Prop where
  positive : Positive d
  size_le : 2 ^ 56 * size d ≤ size t

theorem Felt.of_size_le (h : Felt d t) (hu : size u ≤ size t) : Felt d u :=
  ⟨h.positive, hu.trans_lt h.size_lt⟩

theorem Lost.of_size_eq (h : Lost d t) (hu : size u = size t) : Lost d u :=
  ⟨h.positive, hu ▸ h.size_le⟩

theorem Positive.not_le_zero (h : Positive d) : ¬ d ≤ 0.0 := by
  intro hle
  have hlt := (Scalar.Ordered.lt_iff (0.0 : Float) d).mp h.pos
  exact hlt.2 hle

end Doubles

namespace Playhead

/-! ## Turns -/

section Turns

variable {α : Type} [Scalar α] {p q : Playhead α} {s u : Source}

/-- The turns of a run come to an end. -/
def Ends (p : Playhead α) (s : Source) : Prop :=
  ∃ n, ∀ q, (settle n p s).1 ≠ .passed q

/-- One cycle of a run has passed, and the next is drawn. -/
structure Passes (p q : Playhead α) : Prop where
  due : p.cycleLength ≤ p.time
  roams : p.spec.motion ≠ .goto
  spec : q.spec = p.spec
  time : q.time = p.time - p.cycleLength
  drawn : ∃ v, q.duration = (p.spec.duration.sample v).1
  counted : p.spec.forever = false → q.completed = p.completed + 1 ∧ q.completed < p.spec.repeats

theorem passes_of_turn (h : p.turn s = (.passed q, u)) : Passes p q := by
  unfold turn at h
  split at h
  case isFalse => cases h
  case isTrue hdue =>
  split at h
  case isTrue => cases h
  case isFalse hlast =>
  have hroams := (not_or.mp hlast).1
  dsimp only at h
  split at h
  case isTrue hforever =>
    cases h
    exact ⟨hdue, hroams, rfl, rfl, ⟨_, rfl⟩, fun hc => absurd hforever (Bool.eq_false_iff.mp hc)⟩
  case isFalse hforever =>
  split at h
  case isTrue => cases h
  case isFalse hmore =>
    cases h
    exact ⟨hdue, hroams, rfl, rfl, ⟨_, rfl⟩, fun _ => ⟨rfl, not_le.mp hmore⟩⟩

theorem turn_of_forever (hf : p.spec.forever = true) (hroams : p.spec.motion ≠ .goto)
    (hlong : ¬ p.duration ≤ 0) (hdue : p.cycleLength ≤ p.time) (s : Source) :
    ∃ q u, p.turn s = (.passed q, u) := by
  unfold turn
  rw [if_pos hdue, if_neg (not_or.mpr ⟨hroams, hlong⟩)]
  dsimp only
  rw [if_pos hf]
  exact ⟨_, _, rfl⟩

theorem ends_of_measure {I : Playhead α → Prop} {μ : Playhead α → Nat}
    (hstep : ∀ p q, I p → Passes p q → I q ∧ μ q < μ p) (hp : I p) (s : Source) : Ends p s := by
  induction hm : μ p using Nat.strong_induction_on generalizing p s with
  | _ m ih =>
    rcases ht : p.turn s with ⟨q | q | q, u⟩
    · exact ⟨1, fun r => by unfold settle; rw [ht]; nofun⟩
    · exact ⟨1, fun r => by unfold settle; rw [ht]; nofun⟩
    · obtain ⟨hq, hlt⟩ := hstep p q hp (passes_of_turn ht)
      obtain ⟨n, hn⟩ := ih (μ q) (hm ▸ hlt) hq u rfl
      exact ⟨n + 1, fun r => by unfold settle; rw [ht]; exact hn r⟩

theorem not_ends_of_passed {I : Playhead α → Prop}
    (hstep : ∀ p s, I p → ∃ q u, p.turn s = (.passed q, u) ∧ I q) (hp : I p) (s : Source) :
    ¬ Ends p s := by
  rintro ⟨n, hn⟩
  induction n generalizing p s with
  | zero => exact hn p rfl
  | succ n ih =>
    obtain ⟨q, u, ht, hq⟩ := hstep p s hp
    refine ih hq u fun r hr => hn r ?_
    unfold settle
    rw [ht]
    exact hr

theorem ends_of_counted (h : p.spec.forever = false) (s : Source) : Ends p s := by
  refine ends_of_measure (I := fun p => p.spec.forever = false)
    (μ := fun p => p.spec.repeats - p.completed) (fun p q hp hq => ?_) h s
  obtain ⟨hcompleted, hmore⟩ := hq.counted hp
  rw [hq.spec]
  exact ⟨hp, by omega⟩

theorem ends_of_goto (h : p.spec.motion = .goto) (s : Source) : Ends p s :=
  ends_of_measure (I := fun p => p.spec.motion = .goto) (μ := fun _ => 0)
    (fun _ _ hp hq => absurd hp hq.roams) h s

/-! ### What becomes of a step of time -/

theorem ends_of_settleFate {n : Nat} (h : settleFate n p s = .ok ()) : Ends p s := by
  refine ⟨n, ?_⟩
  induction n generalizing p s with
  | zero => cases h
  | succ n ih =>
    unfold settleFate at h
    unfold settle
    generalize p.turn s = x at h ⊢
    obtain ⟨q | q | q, u⟩ := x
    · exact fun r => nofun
    · exact fun r => nofun
    · exact ih (Fate.seq_eq_ok.mp h).2

/-- A step of time whose turns do not come to an end does not come back. -/
theorem advanceFate_of_not_ends {dt : α} (ha : p.active = true)
    (h : ¬ Ends { p with time := p.time + dt } s) : p.advanceFate dt s ≠ .ok () := by
  intro hok
  rw [advanceFate, if_pos ha] at hok
  exact h (ends_of_settleFate hok)

end Turns

/-! ## Endless runs on doubles -/

open Doubles

variable {p q : Playhead Float}

/-- No duration of a run is too short for its time. -/
structure InScale (p : Playhead Float) : Prop where
  time : Nonneg p.time
  duration : Felt p.duration p.time
  drawn : ∀ v, Felt (p.spec.duration.sample v).1 p.time

theorem InScale.cycleLength (h : InScale p) (hdue : p.cycleLength ≤ p.time) :
    Felt p.cycleLength p.time := by
  unfold Playhead.cycleLength at hdue ⊢
  split
  · next hm =>
    rw [hm] at hdue
    obtain ⟨hpos, hsize⟩ := h.duration.positive.two_mul h.time.isFinite hdue
    have := h.duration.size_lt
    exact ⟨hpos, by omega⟩
  · exact h.duration

theorem InScale.passes (h : InScale p) (hq : Passes p q) :
    InScale q ∧ size q.time < size p.time := by
  have hfelt := h.cycleLength hq.due
  obtain ⟨hnonneg, hlt⟩ := hfelt.positive.size_sub_lt h.time.isFinite hq.due hfelt.size_lt
  obtain ⟨v, hv⟩ := hq.drawn
  rw [← hq.time] at hnonneg hlt
  refine ⟨⟨hnonneg, ?_, fun w => ?_⟩, hlt⟩
  · rw [hv]
    exact (h.drawn v).of_size_le hlt.le
  · rw [hq.spec]
    exact (h.drawn w).of_size_le hlt.le

theorem ends_of_inScale (h : InScale p) (s : Source) : Ends p s :=
  ends_of_measure (I := InScale) (μ := fun p => size p.time) (fun _ _ hp hq => hp.passes hq) h s

/-- An endless run whose durations are all too short for its time. -/
structure OutOfScale (p : Playhead Float) : Prop where
  forever : p.spec.forever = true
  roams : p.spec.motion ≠ .goto
  time : Nonneg p.time
  duration : Lost p.duration p.time
  drawn : ∀ v, Lost (p.spec.duration.sample v).1 p.time

theorem OutOfScale.cycleLength (h : OutOfScale p) :
    Positive p.cycleLength ∧ 2 ^ 55 * size p.cycleLength ≤ size p.time := by
  have hle := h.duration.size_le
  have hpos := h.duration.positive
  unfold Playhead.cycleLength
  split
  · have htime : Positive p.time := h.time.positive (by have := hpos.size_pos; omega)
    obtain ⟨htwice, hsize⟩ := hpos.two_mul_of_size_le htime (by omega)
    exact ⟨htwice, by omega⟩
  · exact ⟨hpos, by omega⟩

theorem OutOfScale.turn (h : OutOfScale p) (s : Source) :
    ∃ q u, p.turn s = (.passed q, u) ∧ OutOfScale q := by
  obtain ⟨hpos, hle⟩ := h.cycleLength
  have hdue : p.cycleLength ≤ p.time :=
    hpos.le_of_size_lt h.time (by have := hpos.size_pos; omega)
  obtain ⟨q, u, ht⟩ :=
    turn_of_forever h.forever h.roams h.duration.positive.not_le_zero hdue s
  have hq := passes_of_turn ht
  obtain ⟨hnonneg, hsame⟩ := hpos.size_sub_eq h.time hle
  rw [← hq.time] at hnonneg hsame
  obtain ⟨v, hv⟩ := hq.drawn
  refine ⟨q, u, ht, ?_, ?_, hnonneg, ?_, fun w => ?_⟩
  · rw [hq.spec]
    exact h.forever
  · rw [hq.spec]
    exact h.roams
  · rw [hv]
    exact (h.drawn v).of_size_eq hsame
  · rw [hq.spec]
    exact (h.drawn w).of_size_eq hsame

theorem not_ends_of_outOfScale (h : OutOfScale p) (s : Source) : ¬ Ends p s :=
  not_ends_of_passed (fun _ s h => h.turn s) h s

/-- After a step of time the turns of a run come to an end, but those of an endless one only if its
durations are not too short for the time: they do if none is, and do not if all are. -/
theorem ends_after (p : Playhead Float) (dt : Float) (s : Source) :
    let q := { p with time := p.time + dt }
    (p.spec.forever = false ∨ p.spec.motion = .goto ∨ InScale q → Ends q s) ∧
      (OutOfScale q → ¬ Ends q s) := by
  intro q
  refine ⟨?_, fun h => not_ends_of_outOfScale h s⟩
  rintro (hcounted | hgoto | hscale)
  · exact ends_of_counted (p := q) hcounted s
  · exact ends_of_goto (p := q) hgoto s
  · exact ends_of_inScale hscale s

/-- A minute of two endless runs there and back, one with a fiftieth of a second each way and one
with `2 ^ -60` seconds. -/
theorem ends_after_minute :
    let i : Interpolation Float :=
      ⟨.gobetween, .fixed 0.0, .fixed 1.0, .fixed 0.02, "linear", .linear, 1, true⟩
    let s := Source.ofWords [0]
    let p := (start i s).1
    let q := (start { i with duration := .fixed (Float.ofBits 0x3c30000000000000) } s).1
    (InScale { p with time := p.time + 60.0 } ∧ Ends { p with time := p.time + 60.0 } s) ∧
      OutOfScale { q with time := q.time + 60.0 } ∧ ¬ Ends { q with time := q.time + 60.0 } s := by
  intro i s p q
  have htime : Nonneg (0.0 + 60.0) := ⟨by decide +kernel, by decide +kernel⟩
  have hfelt : Felt 0.02 (0.0 + 60.0) :=
    ⟨⟨by decide +kernel, by decide +kernel⟩, by decide +kernel⟩
  have hlost : Lost (Float.ofBits 0x3c30000000000000) (0.0 + 60.0) :=
    ⟨⟨by decide +kernel, by decide +kernel⟩, by decide +kernel⟩
  have hin : InScale { p with time := p.time + 60.0 } := ⟨htime, hfelt, fun _ => hfelt⟩
  have hout : OutOfScale { q with time := q.time + 60.0 } :=
    ⟨rfl, nofun, htime, hlost, fun _ => hlost⟩
  exact ⟨⟨hin, (ends_after p 60.0 s).1 (.inr (.inr hin))⟩, hout, (ends_after q 60.0 s).2 hout⟩

/-- A second of an endless run with cycles of `2 ^ -60` seconds: the second stays as it is. -/
theorem not_ends_after_second :
    let i : Interpolation Float :=
      ⟨.interpolate, .fixed 0.0, .fixed 1.0, .fixed (Float.ofBits 0x3c30000000000000), "linear",
        .linear, 1, true⟩
    let p := (start i (.ofWords [0])).1
    Setting.readAxis false 1 ("interpolate(0 and 1 as linear in " ++
        "0.0000000000000000008673617379884035 for ever)").toList = .ok (.animated i) ∧
      (∀ v, Positive (i.duration.sample v).1) ∧ Positive 1.0 ∧
      ¬ Ends { p with time := p.time + 1.0 } (.ofWords [0]) := by
  intro i p
  have hlost : Lost (Float.ofBits 0x3c30000000000000) (0.0 + 1.0) :=
    ⟨⟨by decide +kernel, by decide +kernel⟩, by decide +kernel⟩
  have hscale : OutOfScale { p with time := p.time + 1.0 } :=
    ⟨rfl, nofun, ⟨by decide +kernel, by decide +kernel⟩, hlost, fun _ => hlost⟩
  exact ⟨by decide +kernel, fun _ => hlost.positive, ⟨by decide +kernel, by decide +kernel⟩,
    not_ends_of_outOfScale hscale _⟩

end Playhead

end Soundscape
