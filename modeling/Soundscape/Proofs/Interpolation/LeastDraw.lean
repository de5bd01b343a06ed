import Soundscape.Interpolation.Playhead
import Soundscape.Proofs.Number.Fraction

/-!
# The least positive draw

The numbers drawn from a range of fractions lie in equal steps between its ends, whichever end is
the larger.  So none of those above zero is below the first step there, which bounds the number of
cycles that fit into a time.
-/

namespace Soundscape

namespace Playhead

variable {s : Source}

theorem leastStepped_le {low step x : Rat} (hstep : 0 ≤ step) (n : Nat) (hx : x = n * step + low)
    (h : 0 < x) : 0 < leastStepped low step ∧ leastStepped low step ≤ x := by
  have hn : (0 : Rat) ≤ n := Nat.cast_nonneg n
  unfold leastStepped
  split
  case isTrue hlow =>
    exact ⟨hlow, by rw [hx]; exact le_add_of_nonneg_left (mul_nonneg hn hstep)⟩
  case isFalse hlow =>
    have hpos : 0 < step := by
      refine hstep.lt_of_ne fun h0 => hlow ?_
      rwa [hx, ← h0, mul_zero, zero_add] at h
    have hfloor : ((-low / step).floor : Rat) ≤ -low / step := Int.floor_le (-low / step)
    have hlt : -low / step < ((-low / step).floor : Rat) + 1 := Int.lt_floor_add_one (-low / step)
    have hn' : (-low / step).floor + 1 ≤ (n : Int) := by
      have : -low / step < n := by
        rw [div_lt_iff₀ hpos]
        linarith
      have : ((-low / step).floor : Rat) < ((n : Int) : Rat) := by
        exact_mod_cast hfloor.trans_lt this
      exact_mod_cast this
    have hn'' : ((-low / step).floor : Rat) + 1 ≤ n := by exact_mod_cast hn'
    have hof : Rat.ofInt ((-low / step).floor + 1) = ((-low / step).floor : Rat) + 1 := by
      show (((-low / step).floor + 1 : Int) : Rat) = _
      push_cast
      rfl
    rw [hof]
    constructor
    · rw [div_lt_iff₀ hpos] at hlt
      linarith
    · rw [hx]
      linarith [mul_le_mul_of_nonneg_right hn'' hstep]

/-- The fraction that a word gives is a number of equal steps, of which one more may be one. -/
theorem exists_fraction_eq (w : UInt64) :
    ∃ n < Double.binadeStart, (Scalar.fraction w : Rat) = n / (Double.binadeStart : Rat) := by
  refine ⟨(w >>> 12).toNat, ?_, Rat.mkRat_eq_div _ _⟩
  have hshift : (w >>> 12).toNat = w.toNat / 2 ^ 12 := by
    rw [UInt64.toNat_shiftRight, Nat.shiftRight_eq_div_pow]
    rfl
  have hw : w.toNat < 2 ^ 64 := w.toNat_lt
  rw [hshift, Double.binadeStart]
  omega

def drawStep (low high : Rat) : Rat := spreadFractions low high * mkRat 1 Double.binadeStart

theorem drawStep_eq (low high : Rat) :
    drawStep low high = (high - low) / (Double.binadeStart - 1 : Nat) := by
  unfold drawStep spreadFractions
  rw [Rat.mkRat_eq_div, Double.binadeStart]
  norm_num
  ring

theorem exists_sample_eq (low high : Rat) (s : Source) :
    ∃ n m : Nat, ((Quantity.range low high).sample s).1 = n * drawStep low high + low ∧
      ((Quantity.range low high).sample s).1 = m * -drawStep low high + high := by
  have hsteps : ((Double.binadeStart - 1 : Nat) : Rat) * drawStep low high = high - low := by
    rw [drawStep_eq, Double.binadeStart]
    norm_num
    ring
  -- The lower end itself, or as many steps from there as the word says.
  obtain ⟨n, hn, heq⟩ : ∃ n ≤ Double.binadeStart - 1,
      ((Quantity.range low high).sample s).1 = n * drawStep low high + low := by
    rw [show (Quantity.range low high).sample =
      if (Quantity.range low high).draws then Draw.uniform low high else pure low from rfl]
    split
    · obtain ⟨n, hn, hw⟩ := exists_fraction_eq s.next.1
      refine ⟨n, Nat.le_sub_one_of_lt hn, ?_⟩
      show Scalar.fraction s.next.1 * spreadFractions low high + low = _
      rw [hw, drawStep, Rat.mkRat_eq_div]
      ring
    · exact ⟨0, Nat.zero_le _, by rw [Nat.cast_zero, zero_mul, zero_add]; rfl⟩
  refine ⟨n, Double.binadeStart - 1 - n, heq, ?_⟩
  rw [heq, Nat.cast_sub hn]
  linarith

theorem leastPositive_le {q : Quantity Rat} (h : 0 < (q.sample s).1) :
    0 < leastPositive q ∧ leastPositive q ≤ (q.sample s).1 := by
  cases q with
  | unset => exact absurd h (lt_irrefl _)
  | fixed v => exact ⟨h, le_rfl⟩
  | range low high =>
    obtain ⟨n, m, hn, hm⟩ := exists_sample_eq low high s
    have heq : leastPositive (.range low high) = if drawStep low high < 0 then
        leastStepped high (-drawStep low high) else leastStepped low (drawStep low high) := rfl
    rw [heq]
    by_cases hstep : drawStep low high < 0
    · rw [if_pos hstep]
      exact leastStepped_le (neg_nonneg.mpr hstep.le) m hm h
    · rw [if_neg hstep]
      exact leastStepped_le (not_lt.mp hstep) n hn h

end Playhead

end Soundscape
