import Mathlib.Algebra.Order.Ring.Abs
import Mathlib.Data.Set.Monotone
import Mathlib.Order.Monotone.Union
import Soundscape.Proofs.Ease.Reflection

/-!
# Curves that climb

The powers of the share, in all directions, climb from zero to one without a step back
(`climbs_of_steady`); the bounce does come back but stays between the two (`bouncing_mem`).  A curve
that is slow at both ends is its own image about the middle of the unit square, so it climbs if its
first half does.
-/

namespace Soundscape

namespace Ease

open Set

section Arithmetic

variable {α : Type} [ExactScalar α]

/-- From zero at zero to one at one, and higher all the time. -/
structure Climbs (curve : α → α) : Prop where
  start : curve 0 = 0
  finish : curve 1 = 1
  strictMonoOn : StrictMonoOn curve (Icc 0 1)

theorem Climbs.monotoneOn {curve : α → α} (h : Climbs curve) : MonotoneOn curve (Icc 0 1) :=
  h.strictMonoOn.monotoneOn

theorem Climbs.mem {curve : α → α} (h : Climbs curve) {t : α} (ht : t ∈ Icc (0 : α) 1) :
    curve t ∈ Icc (0 : α) 1 := by
  have hlow := h.monotoneOn (left_mem_Icc.mpr zero_le_one) ht ht.1
  have hhigh := h.monotoneOn ht (right_mem_Icc.mpr zero_le_one) ht.2
  rw [h.start] at hlow
  rw [h.finish] at hhigh
  exact ⟨hlow, hhigh⟩

theorem Climbs.lt_one {curve : α → α} (h : Climbs curve) {t : α} (hzero : 0 ≤ t) (hone : t < 1) :
    curve t < 1 := by
  have hlt := h.strictMonoOn ⟨hzero, hone.le⟩ (right_mem_Icc.mpr zero_le_one) hone
  rwa [h.finish] at hlt

theorem climbs_self : Climbs fun t : α => t := ⟨rfl, rfl, strictMonoOn_id⟩

theorem strictMonoOn_pow_succ (n : Nat) : StrictMonoOn (fun t : α => t ^ (n + 1)) (Ici 0) :=
  pow_left_strictMonoOn₀ n.succ_ne_zero

theorem climbs_pow_succ (n : Nat) : Climbs fun t : α => t ^ (n + 1) where
  start := zero_pow n.succ_ne_zero
  finish := one_pow _
  strictMonoOn := (strictMonoOn_pow_succ n).mono Icc_subset_Ici_self

theorem strictMonoOn_image {curve : α → α} {a b : α} (h : StrictMonoOn curve (Icc a b)) :
    StrictMonoOn (fun t => 1 - curve (1 - t)) (Icc (1 - b) (1 - a)) := by
  intro t ht u hu htu
  refine sub_lt_sub_left (h ⟨?_, ?_⟩ ⟨?_, ?_⟩ ?_) 1 <;> linarith [ht.1, ht.2, hu.1, hu.2]

theorem Climbs.image {curve : α → α} (h : Climbs curve) : Climbs fun t => 1 - curve (1 - t) where
  start := by rw [sub_zero, h.finish, sub_self]
  finish := by rw [sub_self, h.start, sub_zero]
  strictMonoOn := by simpa using strictMonoOn_image h.strictMonoOn

theorem climbs_of_half {curve : α → α} (himage : ∀ t, curve t + curve (1 - t) = 1)
    (hstart : curve 0 = 0) (hfirst : StrictMonoOn curve (Icc 0 (1 / 2))) : Climbs curve where
  start := hstart
  finish := by simpa [hstart] using himage 0
  strictMonoOn := by
    have hsecond : StrictMonoOn curve (Icc (1 / 2) 1) := by
      have hmiddle : (1 - 1 / 2 : α) = 1 / 2 := sub_half 1
      have h := strictMonoOn_image hfirst
      rw [hmiddle, sub_zero] at h
      exact h.congr fun t _ => (eq_sub_of_add_eq (himage t)).symm
    have hle : (0 : α) ≤ 1 / 2 ∧ (1 / 2 : α) ≤ 1 := by norm_num
    rw [← Icc_union_Icc_eq_Icc hle.1 hle.2]
    exact hfirst.union hsecond (isGreatest_Icc hle.1) (isLeast_Icc hle.2)

theorem climbs_powered (n : Nat) (way : Way) :
    Climbs fun t : α => powered (fun u => u ^ (n + 1)) (2 ^ n) t way := by
  cases way with
  | slowStart => exact climbs_pow_succ n
  | slowEnd =>
    simp only [powered_slowEnd]
    exact (climbs_pow_succ n).image
  | slowEnds =>
    -- at the middle both halves have the same value
    have hhalf : ∀ t ≤ (1 / 2 : α),
        powered (fun u => u ^ (n + 1)) (2 ^ n) t .slowEnds = 2 ^ n * t ^ (n + 1) := by
      intro t ht
      rw [powered_slowEnds]
      rcases ht.lt_or_eq with ht | rfl
      · rw [if_pos ht]
      · have hone : (2 * (1 - 1 / 2) : α) = 1 := by norm_num
        have hpow : (2 ^ n * (1 / 2) ^ (n + 1) : α) = 1 / 2 := by
          rw [pow_succ, ← mul_assoc, ← mul_pow]
          norm_num
        rw [if_neg (lt_irrefl _), hone, one_pow, hpow, sub_half]
    refine climbs_of_half (pointSymmetric_powered n).slowEnds ?_ ?_
    · rw [hhalf 0 (by norm_num), zero_pow n.succ_ne_zero, mul_zero]
    · intro t ht u hu htu
      show powered _ _ t .slowEnds < powered _ _ u .slowEnds
      rw [hhalf t ht.2, hhalf u hu.2]
      exact mul_lt_mul_of_pos_left (strictMonoOn_pow_succ n ht.1 hu.1 htu) (by positivity)

/-! ## The bounce -/

theorem parabola_mem {t low : α} (center reach : α) (hleft : center - reach ≤ t)
    (hright : t ≤ center + reach) (hlow : 0 ≤ low) (htop : 121 / 16 * reach ^ 2 + low = 1) :
    121 / 16 * (t - center) ^ 2 + low ∈ Icc (0 : α) 1 := by
  have hsquare : (t - center) ^ 2 ≤ reach ^ 2 := sq_le_sq' (by linarith) (by linarith)
  exact ⟨by positivity, by linarith⟩

theorem bounceOut_mem {t : α} (ht : t ∈ Icc (0 : α) 1) : bounceOut t ∈ Icc (0 : α) 1 := by
  obtain ⟨hzero, hone⟩ := ht
  rw [bounceOut_eq]
  split_ifs
  · have h := parabola_mem (t := t) 0 (4 / 11) (by linarith) (by linarith) le_rfl (by norm_num)
    rwa [sub_zero, add_zero] at h
  · exact parabola_mem _ (2 / 11) (by linarith) (by linarith) (by norm_num) (by norm_num)
  · exact parabola_mem _ (1 / 11) (by linarith) (by linarith) (by norm_num) (by norm_num)
  · exact parabola_mem _ (1 / 22) (by linarith) (by linarith) (by norm_num) (by norm_num)

theorem bouncing_mem (way : Way) {t : α} (ht : t ∈ Icc (0 : α) 1) :
    bouncing t way ∈ Icc (0 : α) 1 := by
  obtain ⟨hzero, hone⟩ := ht
  cases way with
  | slowStart =>
    rw [bouncing_slowStart]
    have h := bounceOut_mem (t := 1 - t) ⟨by linarith, by linarith⟩
    exact ⟨by linarith [h.2], by linarith [h.1]⟩
  | slowEnd => exact bounceOut_mem ⟨hzero, hone⟩
  | slowEnds =>
    rw [bouncing_slowEnds]
    split_ifs with hhalf
    · have h := bounceOut_mem (t := 1 - 2 * t) ⟨by linarith, by linarith⟩
      exact ⟨by linarith [h.2], by linarith [h.1]⟩
    · have h := bounceOut_mem (t := 2 * t - 1) ⟨by linarith, by linarith⟩
      exact ⟨by linarith [h.1], by linarith [h.2]⟩

end Arithmetic

/-- The curves that never run back: the share itself and its powers in all directions. -/
def steady : List Ease := linear :: powers.flatMap fun shape => ways.map fun way => shaped way shape

theorem climbs_of_steady {α : Type} [ExactScalar α] [RealFunctions α] {e : Ease}
    (h : e ∈ steady) : Climbs fun t : α => e.apply t := by
  rw [steady, List.mem_cons] at h
  rcases h with rfl | h
  · exact climbs_self
  · obtain ⟨shape, hshape, h⟩ := List.mem_flatMap.mp h
    obtain ⟨way, -, rfl⟩ := List.mem_map.mp h
    obtain ⟨n, hn⟩ := exists_power (α := α) hshape
    have happly : (fun t : α => (shaped way shape).apply t) =
        fun t => powered (fun u => u ^ (n + 1)) (2 ^ n) t way :=
      funext fun t => congrFun (congrFun hn t) way
    rw [happly]
    exact climbs_powered n way

end Ease

end Soundscape
