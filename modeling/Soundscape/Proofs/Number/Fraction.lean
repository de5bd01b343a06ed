import Mathlib.Algebra.Order.Field.Rat
import Mathlib.Data.Rat.Floor
import Mathlib.Tactic.Linarith
import Mathlib.Tactic.NormNum
import Soundscape.Playback.Player

/-!
# Exact fractions

On exact fractions the operations on times are those of the ordered field, so a time that is cut in
two is the sum of its parts.
-/

namespace Soundscape

namespace Fraction

theorem larger_eq (a b : Rat) : Scalar.larger a b = max a b := by
  unfold Scalar.larger
  by_cases h : a ≤ b
  · rw [if_pos h, max_eq_right h]
  · have hba : b ≤ a := (not_le.mp h).le
    rw [if_neg h, if_pos (le_refl a), max_eq_left hba]

theorem smaller_eq (a b : Rat) : Scalar.smaller a b = min a b := by
  unfold Scalar.smaller
  by_cases h : a ≤ b
  · rw [if_pos h, min_eq_left h]
  · have hba : b ≤ a := (not_le.mp h).le
    rw [if_neg h, if_pos (le_refl b), min_eq_right hba]

theorem larger_of_nonneg {a : Rat} (h : 0 ≤ a) : Scalar.larger a 0 = a := by
  rw [larger_eq, max_eq_left h]

theorem larger_nonneg (a : Rat) : 0 ≤ Scalar.larger a 0 := by
  rw [larger_eq]
  exact le_max_right a 0

theorem smaller_nonneg {a b : Rat} (ha : 0 ≤ a) (hb : 0 ≤ b) : 0 ≤ Scalar.smaller a b := by
  rw [smaller_eq]
  exact le_min ha hb

theorem clamp_eq (x d : Rat) : Scalar.clamp x 0 d = min (max x 0) d := by
  have hmax : (if x < 0 then 0 else x) = max x 0 := by
    split
    · next h => rw [max_eq_right h.le]
    · next h => rw [max_eq_left (not_lt.mp h)]
  unfold Scalar.clamp
  dsimp only
  rw [hmax]
  split
  · next h => rw [min_eq_right h.le]
  · next h => rw [min_eq_left (not_lt.mp h)]

theorem clamp_nonneg (x : Rat) {d : Rat} (hd : 0 ≤ d) : 0 ≤ Scalar.clamp x 0 d := by
  rw [clamp_eq]
  exact le_min (le_max_right x 0) hd

theorem clamp_le (x d : Rat) : Scalar.clamp x 0 d ≤ d := by
  rw [clamp_eq]
  exact min_le_right _ d

theorem clamp_pos {r d : Rat} (hr : 0 < r) (h : Scalar.clamp r 0 d < d) :
    0 < Scalar.clamp r 0 d := by
  rw [clamp_eq, max_eq_left hr.le] at h ⊢
  obtain h | h := min_lt_iff.mp h
  · rwa [min_eq_left h.le]
  · exact absurd h (lt_irrefl d)

theorem clamp_add {r d : Rat} (e : Rat) (hd : 0 ≤ d) (hr : d ≤ r ∨ d = 0) :
    Scalar.clamp r 0 (d + e) = d + Scalar.clamp (r - d) 0 e := by
  obtain hr | rfl := hr
  · rw [clamp_eq, clamp_eq, max_eq_left (hd.trans hr), max_eq_left (sub_nonneg.mpr hr),
      ← min_add_add_left, add_sub_cancel]
  · rw [zero_add, zero_add, sub_zero]

theorem tolerance_eq : (tolerance : Rat) = 1 / 1000000000 := by
  unfold tolerance
  norm_num

theorem tolerance_pos : 0 < (tolerance : Rat) := by
  rw [tolerance_eq]
  norm_num

theorem shortestCycle_eq : (Player.shortestCycle : Rat) = 1 / 100 := by
  unfold Player.shortestCycle
  norm_num

theorem lt_floor_add_one (x : Rat) : x < (Scalar.floor x : Rat) + 1 := by
  have h : x < (⌊x⌋ : Rat) + 1 := Int.lt_floor_add_one x
  have hle : (⌊x⌋ : Rat) ≤ (Scalar.floor x : Rat) := by
    show (⌊x⌋ : Rat) ≤ ((⌊x⌋.toNat : Nat) : Rat)
    exact_mod_cast Int.self_le_toNat ⌊x⌋
  linarith

end Fraction

end Soundscape
