import Mathlib.Algebra.BigOperators.Group.Finset.Basic
import Mathlib.Algebra.Order.BigOperators.Group.Finset
import Mathlib.Tactic.FieldSimp
import Mathlib.Tactic.Positivity
import Soundscape.Proofs.Interpolation.LeastDraw

/-!
# The cycles of a run

The cycles of a run are drawn one after the other: `cycle` gives the ends and the length of each of
them and `span` the time the first of them take, both without a look at how time passes.  A run that
is `Under` way stands in the cycle in which its time lies, and one that is `Over` in the cycle that
none follows.  A turn keeps to this description and enough of them reach its end, so the time alone
tells where a run stands.
-/

namespace Soundscape

open Finset

namespace Playhead

section Draws

variable {α : Type} [Scalar α]

theorem resample_eq (p : Playhead α) (s : Source) :
    p.resample s =
      let (low, s) := p.spec.low.sample s
      let (high, s) := p.spec.high.sample s
      let (duration, s) := p.spec.duration.sample s
      ({ p with low, high, duration }, s) := rfl

/-- The run with the ends and the length that are drawn `k` times from here on. -/
def cycle (p : Playhead α) : Nat → Draw (Playhead α)
  | 0 => pure p
  | k + 1 => do
    let q ← p.cycle k
    q.resample

theorem cycle_succ (p : Playhead α) (k : Nat) (s : Source) :
    p.cycle (k + 1) s = (p.cycle k s).1.resample (p.cycle k s).2 := rfl

theorem cycle_spec (p : Playhead α) (k : Nat) (s : Source) : (p.cycle k s).1.spec = p.spec := by
  induction k with
  | zero => rfl
  | succ k ih =>
    rw [cycle_succ, resample_eq]
    exact ih

theorem exists_duration_eq (p : Playhead α) (k : Nat) (s : Source) :
    ∃ s', (p.cycle (k + 1) s).1.duration = (p.spec.duration.sample s').1 := by
  rw [cycle_succ, resample_eq, cycle_spec]
  exact ⟨_, rfl⟩

end Draws

/-! ## Time -/

def span (p : Playhead Rat) (s : Source) (k : Nat) : Rat :=
  ∑ i ∈ range k, (p.cycle i s).1.cycleLength

theorem span_zero (p : Playhead Rat) (s : Source) : p.span s 0 = 0 := rfl

theorem span_succ (p : Playhead Rat) (s : Source) (k : Nat) :
    p.span s (k + 1) = p.span s k + (p.cycle k s).1.cycleLength :=
  sum_range_succ _ k

/-- Another cycle follows the `k`-th once that one has passed. -/
structure Continues (p : Playhead Rat) (s : Source) (k : Nat) : Prop where
  roams : p.spec.motion ≠ .goto
  long : 0 < (p.cycle k s).1.duration
  more : p.spec.forever = true ∨ p.completed + k + 1 < p.spec.repeats

/-- The number that `k` cycles add to the completed ones. -/
def counted (p : Playhead Rat) (k : Nat) : Nat := if p.spec.forever then 0 else k

/-- The run `p` with the source `s` has come, a time `t` after the start of its cycle, to its `k`-th
cycle from there, as `q` with the source `u`. -/
structure Reached (p : Playhead Rat) (s : Source) (t : Rat) (k : Nat) (q : Playhead Rat)
    (u : Source) : Prop where
  spec : q.spec = p.spec
  low : q.low = (p.cycle k s).1.low
  high : q.high = (p.cycle k s).1.high
  duration : q.duration = (p.cycle k s).1.duration
  source : u = (p.cycle k s).2
  begun : p.span s k ≤ t
  continues : ∀ i < k, p.Continues s i

/-- It is on in that cycle. -/
structure Under (p : Playhead Rat) (s : Source) (t : Rat) (k : Nat) (q : Playhead Rat)
    (u : Source) : Prop extends Reached p s t k q u where
  active : q.active = true
  time : q.time = t - p.span s k
  completed : q.completed = p.completed + p.counted k
  returning : p.spec.motion ≠ .gobetween → q.returning = p.returning

/-- That cycle has passed and none follows: it is cut short as the only one of a `goto` or because
it has no length, or it is done as the last of a counted run. -/
structure Over (p : Playhead Rat) (s : Source) (t : Rat) (k : Nat) (q : Playhead Rat)
    (u : Source) : Prop extends Reached p s t k q u where
  active : q.active = false
  passed : p.span s (k + 1) ≤ t
  cut : p.spec.motion = .goto ∨ q.duration ≤ 0 → q.completed = p.completed + p.counted k
  done : p.spec.motion ≠ .goto ∧ 0 < q.duration →
    p.spec.forever = false ∧ q.completed = p.completed + k + 1 ∧
      q.completed = max (p.completed + 1) p.spec.repeats

/-- A time `t` after the start of its cycle, the run stands in the `k`-th cycle from there. -/
def Stands (p : Playhead Rat) (s : Source) (t : Rat) (k : Nat) (q : Playhead Rat)
    (u : Source) : Prop :=
  Under p s t k q u ∧ t < p.span s (k + 1) ∨ Over p s t k q u

variable {p q r : Playhead Rat} {s u v : Source} {t : Rat} {k : Nat}

theorem cycleLength_congr (hspec : p.spec = q.spec) (h : p.duration = q.duration) :
    p.cycleLength = q.cycleLength := by
  unfold cycleLength
  rw [hspec, h]

theorem Reached.cycleLength (h : Reached p s t k q u) :
    q.cycleLength = (p.cycle k s).1.cycleLength :=
  cycleLength_congr (h.spec.trans (p.cycle_spec k s).symm) h.duration

theorem duration_le_cycleLength (h : 0 ≤ p.duration) : p.duration ≤ p.cycleLength := by
  unfold Playhead.cycleLength
  split
  · norm_num
    linarith
  · exact le_refl _

theorem Continues.cycleLength_pos (h : p.Continues s k) : 0 < (p.cycle k s).1.cycleLength :=
  h.long.trans_le (duration_le_cycleLength h.long.le)

theorem Reached.span_mono (h : Reached p s t k q u) {i : Nat} (hi : i ≤ k) :
    p.span s i ≤ p.span s k :=
  sum_le_sum_of_subset_of_nonneg (range_subset_range.mpr hi)
    fun j hj _ => (h.continues j (mem_range.mp hj)).cycleLength_pos.le

theorem Reached.span_succ_le (h : Reached p s t k q u) {i : Nat} (hi : i < k) :
    p.span s (i + 1) ≤ t :=
  (h.span_mono hi).trans h.begun

/-! ## One turn -/

theorem under_self (ha : p.active = true) (ht : 0 ≤ p.time) : Under p s p.time 0 p s where
  spec := rfl
  low := rfl
  high := rfl
  duration := rfl
  source := rfl
  begun := ht
  continues := nofun
  active := ha
  time := by rw [span_zero, sub_zero]
  completed := by
    unfold counted
    split <;> rfl
  returning _ := rfl

theorem Under.later (h : Under p s t k q u) {d : Rat} (hd : 0 ≤ d) :
    Under p s (t + d) k { q with time := q.time + d } u :=
  { h with
    begun := h.begun.trans (le_add_of_nonneg_right hd)
    time := by
      show q.time + d = t + d - p.span s k
      rw [h.time]
      ring }

theorem Over.later (h : Over p s t k q u) {d : Rat} (hd : 0 ≤ d) : Over p s (t + d) k q u :=
  { h with
    begun := h.begun.trans (le_add_of_nonneg_right hd)
    passed := h.passed.trans (le_add_of_nonneg_right hd) }

theorem Under.cycleLength_le_time (h : Under p s t k q u) :
    q.cycleLength ≤ q.time ↔ p.span s (k + 1) ≤ t := by
  rw [h.time, h.cycleLength, span_succ]
  constructor <;> intro h' <;> linarith

theorem Under.next (h : Under p s t k q u) (hc : p.Continues s k) (ht : p.span s (k + 1) ≤ t)
    (hr : r.spec = q.spec ∧ r.active = q.active ∧ r.returning = q.returning)
    (htime : r.time = q.time - q.cycleLength)
    (hcompleted : r.completed = q.completed + p.counted 1) :
    Under p s t (k + 1) (r.resample u).1 (r.resample u).2 := by
  have hcycle : p.cycle (k + 1) s = (p.cycle k s).1.resample u := by rw [cycle_succ, h.source]
  have hspec : (p.cycle k s).1.spec = r.spec :=
    (p.cycle_spec k s).trans (h.spec.symm.trans hr.1.symm)
  rw [resample_eq, hspec] at hcycle
  refine
    { spec := hr.1.trans h.spec, low := ?_, high := ?_, duration := ?_, source := ?_,
      begun := ht, continues := ?_, active := hr.2.1.trans h.active, time := ?_, completed := ?_,
      returning := fun hm => hr.2.2.trans (h.returning hm) }
  · rw [hcycle]; rfl
  · rw [hcycle]; rfl
  · rw [hcycle]; rfl
  · rw [hcycle]; rfl
  · intro i hi
    rcases Nat.lt_succ_iff_lt_or_eq.mp hi with hi | rfl
    · exact h.continues i hi
    · exact hc
  · show r.time = t - p.span s (k + 1)
    rw [htime, h.time, h.cycleLength, span_succ]
    ring
  · show r.completed = p.completed + p.counted (k + 1)
    rw [hcompleted, h.completed]
    unfold counted
    split <;> omega

theorem Under.ended (h : Under p s t k q u) (ht : p.span s (k + 1) ≤ t)
    (hr : r.spec = q.spec ∧ r.low = q.low ∧ r.high = q.high ∧ r.duration = q.duration)
    (ha : r.active = false)
    (hcut : p.spec.motion = .goto ∨ r.duration ≤ 0 → r.completed = p.completed + p.counted k)
    (hdone : p.spec.motion ≠ .goto ∧ 0 < r.duration →
      p.spec.forever = false ∧ r.completed = p.completed + k + 1 ∧
        r.completed = max (p.completed + 1) p.spec.repeats) :
    Over p s t k r u where
  spec := hr.1.trans h.spec
  low := hr.2.1.trans h.low
  high := hr.2.2.1.trans h.high
  duration := hr.2.2.2.trans h.duration
  source := h.source
  begun := h.begun
  continues := h.continues
  active := ha
  passed := ht
  cut := hcut
  done := hdone

/-- A turn finds the time within the cycle, finds that the cycle is the last, or draws the next. -/
theorem Under.turn (h : Under p s t k q u) :
    q.turn u = (.within q, u) ∧ t < p.span s (k + 1) ∨
    (∃ r, q.turn u = (.over r, u) ∧ Over p s t k r u) ∨
    ∃ r v, q.turn u = (.passed r, v) ∧ Under p s t (k + 1) r v := by
  unfold Playhead.turn
  split
  case isFalse hlen => exact .inl ⟨rfl, not_le.mp fun ht => hlen (h.cycleLength_le_time.mpr ht)⟩
  case isTrue hlen =>
  have ht := h.cycleLength_le_time.mp hlen
  have hcounted : q.spec.forever = false → q.completed = p.completed + k := by
    intro hf
    rw [h.completed, counted, if_neg (by rw [← h.spec, hf]; exact Bool.false_ne_true)]
  right
  split
  case isTrue hlast =>
    rw [h.spec] at hlast
    exact .inl ⟨q.ended, rfl, h.ended ht ⟨rfl, rfl, rfl, rfl⟩ rfl (fun _ => h.completed)
      fun hdone => absurd hlast (not_or.mpr ⟨hdone.1, not_le.mpr hdone.2⟩)⟩
  case isFalse hlast =>
  rw [not_or, not_le, h.spec] at hlast
  obtain ⟨hgoto, hlong⟩ := hlast
  have hlong' : 0 < (p.cycle k s).1.duration := h.duration ▸ hlong
  dsimp only
  split
  case isTrue hforever =>
    refine .inr ⟨_, _, rfl, h.next ⟨hgoto, hlong', .inl (h.spec ▸ hforever)⟩ ht ⟨rfl, rfl, rfl⟩
      rfl ?_⟩
    rw [counted, if_pos (h.spec ▸ hforever)]
    rfl
  case isFalse hforever =>
  have hfalse : p.spec.forever = false := by rw [← h.spec]; exact Bool.eq_false_iff.mpr hforever
  have hk : q.completed = p.completed + k := hcounted (h.spec ▸ hfalse)
  split
  case isTrue hrepeats =>
    refine .inl ⟨_, rfl, h.ended ht ⟨rfl, rfl, rfl, rfl⟩ rfl
      (fun hcut => absurd hcut (not_or.mpr ⟨hgoto, not_le.mpr hlong⟩))
      fun _ => ⟨hfalse, congrArg (· + 1) hk, ?_⟩⟩
    show q.completed + 1 = max (p.completed + 1) p.spec.repeats
    rw [h.spec] at hrepeats
    -- The cycle before this one was not the last.
    have hbefore : k = 0 ∨ p.completed + k < p.spec.repeats := by
      rcases Nat.eq_zero_or_pos k with hk | hk
      · exact .inl hk
      · refine .inr ?_
        have := (h.continues (k - 1) (by omega)).more.resolve_left (by rw [hfalse]; simp)
        omega
    omega
  case isFalse hrepeats =>
    rw [not_le, h.spec, hk] at hrepeats
    refine .inr ⟨_, _, rfl, h.next ⟨hgoto, hlong', .inr hrepeats⟩ ht ⟨rfl, rfl, rfl⟩ rfl ?_⟩
    rw [counted, if_neg (by rw [hfalse]; exact Bool.false_ne_true)]

/-! ## Turns until the time lies within a cycle -/

/-- The turns come to an end within a number of them, and more of them change nothing. -/
def Settles (p : Playhead Rat) (s : Source) (turns : Nat) : Prop :=
  ∀ n ≥ turns, settle n p s = settle turns p s ∧ ∀ q, (settle n p s).1 ≠ .passed q

theorem settle_of_le {n m : Nat} (hle : n ≤ m) (h : ∀ q, (settle n p s).1 ≠ .passed q) :
    settle m p s = settle n p s := by
  induction n generalizing m p s with
  | zero => exact absurd rfl (h p)
  | succ n ih =>
    obtain ⟨m, rfl⟩ : ∃ i, m = i + 1 := ⟨m - 1, by omega⟩
    unfold settle at h ⊢
    generalize p.turn s = x at h ⊢
    obtain ⟨q | q | q, u⟩ := x
    · rfl
    · rfl
    · exact ih (Nat.le_of_succ_le_succ hle) h

theorem settleFate_ne_exhausted {n : Nat} (h : ∀ q, (settle n p s).1 ≠ .passed q) :
    settleFate n p s ≠ .error .exhausted := by
  induction n generalizing p s with
  | zero => exact absurd rfl (h p)
  | succ n ih =>
    unfold settle at h
    unfold settleFate
    generalize p.turn s = x at h ⊢
    obtain ⟨q | q | q, u⟩ := x
    · nofun
    · nofun
    · obtain hdrawn | hdrawn := p.spec.fate_eq
      · rw [hdrawn]
        exact ih h
      · rw [hdrawn]
        nofun

/-- Turns come to a place in a cycle or to the end of the run, or each of them passes a cycle. -/
theorem Under.settle (h : Under p s t k q u) (n : Nat) :
    (∃ r v i, Playhead.settle n q u = (.within r, v) ∧ Under p s t i r v ∧
      t < p.span s (i + 1)) ∨
    (∃ r v i, Playhead.settle n q u = (.over r, v) ∧ Over p s t i r v) ∨
    ∃ r v, Playhead.settle n q u = (.passed r, v) ∧ Under p s t (k + n) r v := by
  induction n generalizing k q u with
  | zero => exact .inr (.inr ⟨q, u, rfl, h⟩)
  | succ n ih =>
    unfold Playhead.settle
    obtain ⟨hturn, ht⟩ | ⟨r, hturn, hover⟩ | ⟨r, v, hturn, hnext⟩ := h.turn
    · rw [hturn]
      exact .inl ⟨q, u, k, rfl, h, ht⟩
    · rw [hturn]
      exact .inr (.inl ⟨r, u, k, rfl, hover⟩)
    · rw [hturn, show k + (n + 1) = k + 1 + n by omega]
      exact ih hnext

/-! ### How many turns there can be -/

/-- Passed cycles after the one that a run was found in take at least as many least lengths. -/
theorem Reached.mul_leastPositive_le (h : Reached p s t k q u) {i n : Nat} (hi : 0 < i)
    (hk : i + n = k) : n * leastPositive p.spec.duration ≤ p.span s k - p.span s i := by
  induction n generalizing i with
  | zero => rw [← hk]; simp
  | succ n ih =>
    have hlast := ih (i := i + 1) (Nat.succ_pos i) (by omega)
    have hci := h.continues i (by omega)
    obtain ⟨j, rfl⟩ : ∃ j, i = j + 1 := ⟨i - 1, by omega⟩
    have hle : leastPositive p.spec.duration ≤ (p.cycle (j + 1) s).1.cycleLength := by
      refine le_trans ?_ (duration_le_cycleLength hci.long.le)
      obtain ⟨s', hs'⟩ := exists_duration_eq p j s
      have hpos := hci.long
      rw [hs'] at hpos ⊢
      exact (leastPositive_le hpos).2
    rw [span_succ] at hlast
    push_cast
    linarith

theorem Under.lt_turnBound (h : Under p s t k q u) {n : Nat} (hn : Under p s t (k + n) r v) :
    n < q.turnBound := by
  unfold turnBound
  rw [h.spec]
  split
  case isTrue hforever =>
    by_cases hsmall : n < 16
    · omega
    -- Only the first cycle passed may be shorter than the least positive length.
    have hpos : 0 < leastPositive p.spec.duration := by
      obtain ⟨s', hs'⟩ := exists_duration_eq p k s
      exact (leastPositive_le (hs' ▸ (hn.continues (k + 1) (by omega)).long)).1
    have hrest := hn.toReached.mul_leastPositive_le (i := k + 1) (n := n - 1) (Nat.succ_pos k)
      (by omega)
    have hfirst : p.span s k ≤ p.span s (k + 1) := by
      rw [span_succ]
      exact le_add_of_nonneg_right (hn.continues k (by omega)).cycleLength_pos.le
    have hle : ((n - 1 : Nat) : Rat) ≤ q.time / leastPositive p.spec.duration := by
      rw [le_div_iff₀ hpos, h.time]
      linarith [hn.begun]
    have hlt := hle.trans_lt (Fraction.lt_floor_add_one _)
    have : n - 1 < Scalar.floor (q.time / leastPositive p.spec.duration) + 1 := by
      exact_mod_cast hlt
    omega
  case isFalse hforever =>
    rw [h.completed, counted, if_neg hforever]
    rcases Nat.eq_zero_or_pos n with rfl | hn0
    · omega
    · have := (hn.continues (k + n - 1) (by omega)).more.resolve_left hforever
      omega

end Playhead

end Soundscape
