import Soundscape.Number.Shortest
import Soundscape.Proofs.Number.Nearest

/-!
# The numbers that round to a double

A double owns an interval of numbers (`Shortest.Interval`): half of its last place to each side, and
the ends if its significand is even; below the start of a binade it is only a quarter.  Rounding
takes every number of the interval to the double (`Doubles.Owns.roundWithAccuracy`), so a product
or a quotient that lies in it comes out as the double (`Doubles.Owns.mul`, `Doubles.Owns.div`).
-/

namespace Soundscape

/-- A number of quarters lies in the interval. -/
structure Shortest.Interval.Covers (i : Interval) (x : Rat) : Prop where
  low : i.low ≤ x
  high : x ≤ i.high
  ends : i.closed = false → i.low ≠ x ∧ x ≠ i.high

namespace Doubles

open Float.Model (Format UnpackedFloat totalExponent)
open Float.Model.UnpackedFloat (Sign Accuracy ExtendedMantissa accuracyOfFraction
  roundWithAccuracy divCore)

variable {m n k r : Nat} {e q : Int} {x : Rat}

/-! ### Places cut off -/

/-- A number without its binary places: the round bit is the first of them, and the sticky bit tells
whether any other is set. -/
def Cuts (x : Rat) (c : ExtendedMantissa) : Prop :=
  ∃ rest, 0 ≤ rest ∧ rest < 1 ∧ 2 * x = 2 * c.mantissa + c.roundBit.toNat + rest ∧
    (c.stickyBit = true ↔ rest ≠ 0)

theorem cuts_fraction (n : Nat) {d : Nat} (hd : 0 < d) : Cuts (n / d)
    (.ofMantissaAndAccuracy (n / d) (accuracyOfFraction (n % d) d)) := by
  have hd' : (0 : Rat) < d := Nat.cast_pos.mpr hd
  have hx : 2 * ((n : Rat) / d) = 2 * (n / d : Nat) + 2 * (n % d : Nat) / d := by
    have hn : (n : Rat) = d * (n / d : Nat) + (n % d : Nat) := by
      exact_mod_cast (Nat.div_add_mod n d).symm
    field_simp
    rw [hn]
  have hlt : n % d < d := Nat.mod_lt n hd
  rw [Cuts, hx]
  generalize n % d = a at hlt
  unfold accuracyOfFraction
  split
  · next ha =>
    refine ⟨0, le_rfl, one_pos, ?_, iff_of_false Bool.false_ne_true (not_not_intro rfl)⟩
    simp [ExtendedMantissa.ofMantissaAndAccuracy, ha]
  · next ha =>
    have ha' : (0 : Rat) < a := Nat.cast_pos.mpr (Nat.pos_of_ne_zero ha)
    rcases ho : compare (2 * a) d with _ | _ | _
    · have hlt : (2 * a : Rat) < d := by exact_mod_cast compare_lt_iff_lt.mp ho
      refine ⟨2 * a / d, by positivity, (div_lt_one hd').mpr hlt, ?_,
        iff_of_true rfl (by positivity)⟩
      simp [ExtendedMantissa.ofMantissaAndAccuracy]
    · have heq : (2 * a : Rat) = d := by exact_mod_cast compare_eq_iff_eq.mp ho
      refine ⟨0, le_rfl, one_pos, ?_, iff_of_false Bool.false_ne_true (not_not_intro rfl)⟩
      simp [ExtendedMantissa.ofMantissaAndAccuracy, heq, hd'.ne']
    · have hgt : (d : Rat) < 2 * a := by exact_mod_cast compare_gt_iff_gt.mp ho
      have hone : 1 < 2 * a / (d : Rat) := (one_lt_div hd').mpr hgt
      have htwo : 2 * a / (d : Rat) < 2 := by
        rw [div_lt_iff₀ hd']
        exact_mod_cast Nat.mul_lt_mul_of_pos_left hlt two_pos
      refine ⟨2 * a / d - 1, by linarith, by linarith, ?_, iff_of_true rfl (by linarith)⟩
      simp [ExtendedMantissa.ofMantissaAndAccuracy]

theorem Cuts.shiftRightOne {c : ExtendedMantissa} (h : Cuts x c) :
    Cuts (x / 2) c.shiftRightOne := by
  obtain ⟨q, b, t⟩ := c
  obtain ⟨rest, hnonneg, hlt, hsum, hsticky⟩ := h
  have hlast : (q % 2 != 0).toNat = q % 2 := by
    obtain hq | hq := Nat.mod_two_eq_zero_or_one q <;> rw [hq] <;> rfl
  have hq : (q : Rat) = 2 * (q / 2 : Nat) + (q % 2 : Nat) := by
    exact_mod_cast (Nat.div_add_mod q 2).symm
  dsimp only at hsum hsticky
  -- the round bit joins the places after it, and the last place becomes the round bit
  refine ⟨(b.toNat + rest) / 2, by positivity, ?_, ?_, ?_⟩
  · have hb : (b.toNat : Rat) ≤ 1 := by exact_mod_cast b.toNat_le
    linarith
  · dsimp only [ExtendedMantissa.shiftRightOne]
    rw [hlast]
    linarith
  · dsimp only [ExtendedMantissa.shiftRightOne]
    cases b with
    | false => simpa using hsticky
    | true =>
      have hpos : (0 : Rat) < 1 + rest := by linarith
      simp [hpos.ne']

theorem Cuts.shiftRight {c : ExtendedMantissa} (h : Cuts x c) (k : Nat) :
    Cuts (x / 2 ^ k) (c >>> k) := by
  induction k with
  | zero =>
    rw [pow_zero, div_one]
    exact h
  | succ k ih =>
    rw [pow_succ, ← div_div]
    exact ih.shiftRightOne

theorem Cuts.floor {c : ExtendedMantissa} (h : Cuts x c) : c.mantissa ≤ x ∧ x < c.mantissa + 1 := by
  obtain ⟨rest, hnonneg, hlt, hsum, -⟩ := h
  have hb : (c.roundBit.toNat : Rat) ≤ 1 := by exact_mod_cast c.roundBit.toNat_le
  have hb' : (0 : Rat) ≤ c.roundBit.toNat := Nat.cast_nonneg _
  constructor <;> linarith

/-- The natural number nearest to a number, the even one of two. -/
structure Near (x : Rat) (r : Nat) : Prop where
  lower : 2 * r ≤ 2 * x + 1
  upper : 2 * x ≤ 2 * r + 1
  tie : 2 * x = 2 * r + 1 ∨ 2 * r = 2 * x + 1 → Even r

theorem Near.unique (h : Near x r) (h' : Near x n) : r = n := by
  wlog hle : r ≤ n generalizing r n
  · exact (this h' h (not_le.mp hle).le).symm
  by_contra hne
  have hnext : (r : Rat) + 1 ≤ n := by exact_mod_cast Nat.lt_of_le_of_ne hle hne
  have hx : 2 * x = 2 * r + 1 := by linarith [h.upper, h'.lower]
  have hn : (n : Rat) = r + 1 := by linarith [h.upper, h'.lower]
  obtain rfl : n = r + 1 := by exact_mod_cast hn
  have heven := h'.tie (.inr (by rw [hx, hn]; ring))
  exact (Nat.even_add_one.mp heven) (h.tie (.inl hx))

theorem Cuts.near {c : ExtendedMantissa} (h : Cuts x c) : Near x c.roundedMantissa := by
  obtain ⟨q, b, t⟩ := c
  obtain ⟨rest, hnonneg, hlt, hsum, hsticky⟩ := h
  dsimp only at hsum hsticky
  cases b with
  | false =>
    have hr : ExtendedMantissa.roundedMantissa ⟨q, false, t⟩ = q := by cases t <;> rfl
    rw [hr]
    rw [Bool.toNat_false, Nat.cast_zero] at hsum
    exact ⟨by linarith, by linarith, fun h => by exfalso; cases h <;> linarith⟩
  | true =>
    rw [Bool.toNat_true, Nat.cast_one] at hsum
    cases t with
    | false =>
      have hrest : rest = 0 := not_not.mp (mt hsticky.mpr Bool.false_ne_true)
      have hr : ExtendedMantissa.roundedMantissa ⟨q, true, false⟩ = q + q % 2 := rfl
      have hle : ((q % 2 : Nat) : Rat) ≤ 1 := by
        exact_mod_cast Nat.le_of_lt_succ (Nat.mod_lt q two_pos)
      have hnat : (0 : Rat) ≤ (q % 2 : Nat) := Nat.cast_nonneg _
      rw [hr]
      refine ⟨by push_cast; linarith, by push_cast; linarith, fun _ => ?_⟩
      rw [Nat.even_iff]
      omega
    | true =>
      have hr : ExtendedMantissa.roundedMantissa ⟨q, true, true⟩ = q + 1 := rfl
      have hpos : 0 < rest := lt_of_le_of_ne hnonneg (hsticky.mp rfl).symm
      rw [hr]
      refine ⟨by push_cast; linarith, by push_cast; linarith, fun h => ?_⟩
      exfalso
      push_cast at h
      cases h <;> linarith

/-! ### The interval of a double -/

/-- The number lies in the interval of the double. -/
def Owns (m : Nat) (q : Int) (v : Rat) : Prop := (Shortest.Interval.of m q).Covers (v / 2 ^ (q - 2))

theorem low_le (hm : 0 < m) : (4 * m - 2 : Rat) ≤ (Shortest.Interval.of m q).low := by
  have hle : 4 * m - 2 ≤ (Shortest.Interval.of m q).low := by
    unfold Shortest.Interval.of
    dsimp only
    split <;> omega
  have hcast : ((4 * m - 2 : Nat) : Rat) ≤ (Shortest.Interval.of m q).low := by exact_mod_cast hle
  rw [Nat.cast_sub (by omega)] at hcast
  exact_mod_cast hcast

theorem low_eq_of_odd (hm : Odd m) : ((Shortest.Interval.of m q).low : Rat) = 4 * m - 2 := by
  have hne : ¬ (m = Double.binadeStart ∧ Double.leastExponent < q) := by
    rintro ⟨rfl, -⟩
    exact absurd hm (by decide)
  obtain ⟨n, rfl⟩ := hm
  unfold Shortest.Interval.of
  dsimp only
  rw [if_neg hne, Nat.cast_sub (by omega)]
  push_cast
  rfl

theorem low_eq_of_binadeStart (hq : -1074 < q) :
    ((Shortest.Interval.of (2 ^ 52) q).low : Rat) = 4 * 2 ^ 52 - 1 := by
  have hstart : (2 ^ 52 : Nat) = Double.binadeStart := by decide
  unfold Shortest.Interval.of
  dsimp only
  rw [if_pos ⟨hstart, hq⟩, Nat.cast_sub (by decide)]
  norm_num

theorem high_eq : ((Shortest.Interval.of m q).high : Rat) = 4 * m + 2 := by
  show (((4 * m + 2 : Nat)) : Rat) = 4 * m + 2
  push_cast
  rfl

variable {y : Rat} {t : Int}

theorem quarters_eq (y : Rat) (t q : Int) : y * 2 ^ t / 2 ^ (q - 2) = y * 2 ^ (t - q + 2) := by
  rw [mul_div_assoc, ← zpow_sub₀ two_ne_zero]
  congr 2
  omega

theorem Owns.quarters (hv : Owns m q (y * 2 ^ t)) (hm : 0 < m) :
    (4 * m - 2 : Rat) ≤ y * 2 ^ (t - q + 2) ∧ y * 2 ^ (t - q + 2) ≤ 4 * m + 2 := by
  rw [Owns, quarters_eq] at hv
  exact ⟨(low_le hm).trans hv.low, hv.high.trans_eq high_eq⟩

theorem Owns.near (hv : Owns m q (y * 2 ^ q)) (hm : 0 < m) : Near y m := by
  have hfour : (2 : Rat) ^ (q - q + 2) = 4 := by
    rw [sub_self, zero_add]
    norm_num
  obtain ⟨hlow, hhigh⟩ := hv.quarters hm
  rw [hfour] at hlow hhigh
  refine ⟨by linarith, by linarith, fun htie => ?_⟩
  by_contra hodd
  rw [Nat.not_even_iff_odd] at hodd
  have hopen : (Shortest.Interval.of m q).closed = false := by
    obtain ⟨n, rfl⟩ := hodd
    simp [Shortest.Interval.of]
  rw [Owns, quarters_eq, hfour] at hv
  obtain ⟨hleft, hright⟩ := hv.ends hopen
  rw [low_eq_of_odd hodd] at hleft
  rw [high_eq] at hright
  obtain htie | htie := htie
  · exact hright (by linarith)
  · exact hleft (by linarith)

theorem Owns.place_le (hv : Owns m q (y * 2 ^ t)) (h : Canonical m q) (hy : 2 ^ 52 ≤ y) :
    t ≤ q := by
  by_contra hlt
  have hlarge : (2 : Rat) ^ 3 ≤ 2 ^ (t - q + 2) := by
    rw [← zpow_natCast]
    exact zpow_le_zpow_right₀ one_le_two (by push_cast; omega)
  have hle : (2 : Rat) ^ 52 * 2 ^ 3 ≤ y * 2 ^ (t - q + 2) :=
    mul_le_mul hy hlarge (by positivity) (by linarith)
  have hbelow : (m : Rat) + 1 ≤ 2 ^ 53 := by exact_mod_cast h.below
  have hhigh := (hv.quarters h.pos).2
  linarith

/-- Only just under the start of a binade is it below, and then the number is rounded up. -/
theorem Owns.near_binadeStart (hv : Owns m q (y * 2 ^ t)) (h : Canonical m q) (hy : y < 2 ^ 53)
    (hlt : t < q) (ht : -1074 ≤ t) : t = q - 1 ∧ m = 2 ^ 52 ∧ Near y (2 ^ 53) := by
  have hnormal : 2 ^ 52 ≤ m := h.normal.resolve_right (by omega)
  have hnormal' : (2 ^ 52 : Rat) ≤ m := by exact_mod_cast hnormal
  obtain ⟨hlow, -⟩ := hv.quarters h.pos
  obtain hnext | hfar := (Int.le_sub_one_of_lt hlt).eq_or_lt
  · have htwo : (2 : Rat) ^ (t - q + 2) = 2 := by
      rw [hnext, sub_sub_cancel_left]
      norm_num
    rw [htwo] at hlow
    have hm : m = 2 ^ 52 := by
      have hlt : (m : Rat) < (2 ^ 52 + 1 : Nat) := by
        push_cast
        linarith
      exact le_antisymm (Nat.lt_succ_iff.mp (by exact_mod_cast hlt)) hnormal
    subst hm
    rw [Owns, quarters_eq, htwo] at hv
    have hquarter := (low_eq_of_binadeStart (by omega)).symm.le.trans hv.low
    refine ⟨hnext, rfl, ?_, ?_, fun _ => by decide⟩
    · push_cast
      linarith
    · push_cast
      linarith
  · have hpos : 0 < y := by
      refine (mul_pos_iff_of_pos_right (by positivity)).mp (lt_of_lt_of_le ?_ hlow)
      linarith
    have hsmall : (2 : Rat) ^ (t - q + 2) ≤ 1 := zpow_le_one_of_nonpos₀ one_le_two (by omega)
    have hle : y * 2 ^ (t - q + 2) ≤ y := mul_le_of_le_one_right hpos.le hsmall
    linarith

theorem Cuts.place {a : Accuracy} (h : Cuts x (.ofMantissaAndAccuracy n a))
    (he : e ≤ -1074 ∨ 52 ≤ n.log2) (hk : max (n.log2 + e - 52) (-1074) = e + k) :
    x / 2 ^ k < 2 ^ 53 ∧ (e + k = -1074 ∨ 2 ^ 52 ≤ x / 2 ^ k) := by
  obtain ⟨hle, hlt⟩ := h.floor
  rw [mantissa_ofMantissaAndAccuracy] at hle hlt
  constructor
  · have hbelow : n + 1 ≤ 2 ^ 53 * 2 ^ k := by
      refine (Nat.succ_le_of_lt Nat.lt_log2_self).trans ?_
      rw [← pow_add]
      exact Nat.pow_le_pow_right two_pos (by omega)
    rw [div_lt_iff₀ (by positivity)]
    exact hlt.trans_le (by exact_mod_cast hbelow)
  · by_cases hleast : e + k = -1074
    · exact .inl hleast
    · have hlog : n.log2 = 52 + k := by omega
      have hz : n ≠ 0 := by
        rintro rfl
        rw [Nat.log2_zero] at hlog
        omega
      have hfull : 2 ^ 52 * 2 ^ k ≤ n := by
        rw [← pow_add, ← hlog]
        exact Nat.log2_self_le hz
      refine .inr ?_
      rw [le_div_iff₀ (by positivity)]
      exact le_trans (by exact_mod_cast hfull) hle

/-- Rounding takes a number of the interval to the double. -/
theorem Owns.roundWithAccuracy {a : Accuracy} (hv : Owns m q (x * 2 ^ e)) (h : Canonical m q)
    (s : Sign) (hx : Cuts x (.ofMantissaAndAccuracy n a)) (he : e ≤ -1074 ∨ 52 ≤ n.log2) :
    roundWithAccuracy .binary64 s n e a = .finite s m q h.pos := by
  obtain ⟨k, hk⟩ : ∃ k : Nat, max (n.log2 + e - 52) (-1074) = e + k :=
    ⟨(max (n.log2 + e - 52) (-1074) - e).toNat, by omega⟩
  obtain ⟨hy, hfull⟩ := hx.place he hk
  have hr := (hx.shiftRight k).near
  have hv : Owns m q (x / 2 ^ k * 2 ^ (e + k)) := by
    rwa [zpow_add₀ two_ne_zero, zpow_natCast, mul_comm (2 ^ e), ← mul_assoc,
      div_mul_cancel₀ _ (by positivity)]
  unfold Float.Model.UnpackedFloat.roundWithAccuracy
  rw [shift_eq hk]
  dsimp only
  generalize (ExtendedMantissa.ofMantissaAndAccuracy n a >>> k).roundedMantissa = r at hr
  obtain hlt | hle := lt_or_ge (e + k) q
  · obtain ⟨ht, rfl, hm⟩ := hv.near_binadeStart h hy hlt (by omega)
    obtain rfl := hr.unique hm
    rw [shift_of_le le_rfl (by decide) (by omega), ht, sub_add_cancel]
    rfl
  · have ht : e + k = q := by
      obtain hleast | hfull := hfull
      · have := h.least
        omega
      · exact le_antisymm (hv.place_le h hfull) hle
    rw [ht] at hv
    obtain rfl := hr.unique (hv.near h.pos)
    rw [shift_of_lt h.below (by omega), ht]
    exact dif_neg h.pos.ne'

theorem owns_self (hm : 0 < m) (q : Int) : Owns m q (m * 2 ^ q) := by
  have hfour : (m * 2 ^ q / 2 ^ (q - 2) : Rat) = (4 * m : Nat) := by
    rw [mul_div_assoc, ← zpow_sub₀ two_ne_zero, sub_sub_cancel]
    push_cast
    ring
  have hlow : (Shortest.Interval.of m q).low < 4 * m := by
    unfold Shortest.Interval.of
    dsimp only
    split <;> omega
  have hhigh : 4 * m < (Shortest.Interval.of m q).high := Nat.lt_add_of_pos_right two_pos
  rw [Owns, hfour]
  exact ⟨by exact_mod_cast hlow.le, by exact_mod_cast hhigh.le,
    fun _ => ⟨by exact_mod_cast hlow.ne, by exact_mod_cast hhigh.ne⟩⟩

/-! ### Products and quotients -/

theorem cuts_exact (n : Nat) : Cuts n (.ofMantissaAndAccuracy n .exact) :=
  ⟨0, le_rfl, one_pos, by simp [ExtendedMantissa.ofMantissaAndAccuracy],
    iff_of_false Bool.false_ne_true (not_not_intro rfl)⟩

variable {a b : Nat} {f : Int}

/-- A product in the interval comes out as the double. -/
theorem Owns.mul (hv : Owns m q (a * 2 ^ e * (b * 2 ^ f))) (h : Canonical m q) (s t : Sign)
    (ha : 0 < a) (hb : 0 < b) (hlong : 2 ^ 52 ≤ a * b) :
    UnpackedFloat.mul .binary64 (.finite s a e ha) (.finite t b f hb) =
      .finite (s * t) m q h.pos := by
  have hlog : 52 ≤ (a * b).log2 := (Nat.le_log2 (Nat.mul_pos ha hb).ne').mpr hlong
  have hproduct : Owns m q ((a * b : Nat) * 2 ^ (e + f)) := by
    rw [zpow_add₀ two_ne_zero, Nat.cast_mul, mul_mul_mul_comm]
    exact hv
  exact hproduct.roundWithAccuracy h (s * t) (cuts_exact (a * b)) (.inr hlog)

/-- A quotient in the interval comes out as the double. -/
theorem Owns.div (hv : Owns m q (a * 2 ^ e / (b * 2 ^ f))) (h : Canonical m q) (s t : Sign)
    (ha : 0 < a) (hb : 0 < b) :
    UnpackedFloat.div .binary64 (.finite s a e ha) (.finite t b f hb) =
      .finite (s / t) m q h.pos := by
  have htarget : Format.binary64.targetExponent (totalExponent a e - totalExponent b f) =
      max (a.log2 + e - (b.log2 + f) - 53) (-1074) := by
    have hbits : Format.binary64.mantissaBits = 53 := rfl
    have hleast : Format.binary64.minExponent = -1074 := rfl
    unfold Format.targetExponent totalExponent
    rw [hbits, hleast]
    omega
  unfold UnpackedFloat.div divCore
  dsimp only
  rw [htarget, Nat.shiftLeft_eq]
  -- `j` places are filled up, so that the quotient keeps all the places of a double
  obtain ⟨g, hg⟩ : ∃ g, min (e - f) (max (a.log2 + e - (b.log2 + f) - 53) (-1074)) = g := ⟨_, rfl⟩
  obtain ⟨j, hj⟩ : ∃ j, (e - f - g).toNat = j := ⟨_, rfl⟩
  rw [hg, hj]
  have hquotient : Owns m q ((a * 2 ^ j : Nat) / b * 2 ^ g) := by
    have hsplit : e = f + (j + g) := by omega
    rw [hsplit, zpow_add₀ two_ne_zero, zpow_add₀ two_ne_zero, zpow_natCast] at hv
    push_cast
    convert hv using 1
    field_simp
  refine hquotient.roundWithAccuracy h (s / t) (cuts_fraction (a * 2 ^ j) hb) ?_
  by_cases hleast : g ≤ -1074
  · exact .inl hleast
  · have hlong : 2 ^ 52 * b ≤ a * 2 ^ j :=
      calc 2 ^ 52 * b ≤ 2 ^ 52 * 2 ^ (b.log2 + 1) := Nat.mul_le_mul_left _ Nat.lt_log2_self.le
        _ = 2 ^ (53 + b.log2) := by ring
        _ ≤ 2 ^ (a.log2 + j) := Nat.pow_le_pow_right two_pos (by omega)
        _ = 2 ^ a.log2 * 2 ^ j := pow_add ..
        _ ≤ a * 2 ^ j := Nat.mul_le_mul_right _ (Nat.log2_self_le ha.ne')
    have hfull : 2 ^ 52 ≤ a * 2 ^ j / b := (Nat.le_div_iff_mul_le hb).mpr hlong
    exact .inr ((Nat.le_log2 (by omega)).mpr hfull)

end Doubles

end Soundscape
