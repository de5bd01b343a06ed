import Soundscape.Number.Numeral
import Soundscape.Proofs.Number.Decoded
import Soundscape.Proofs.Number.Owned

/-!
# Decimals that round to a double

A decimal that lies in the interval of a double is read as the double, be it through the powers of
ten that are doubles themselves or through one rounded product or quotient
(`Doubles.Owns.unpack_ofScientific`).  The bounds that cut reading short, at numbers that are
infinite or zero anyway, do not touch it (`Doubles.Owns.toFloat`).
-/

namespace Soundscape

namespace Doubles

open Float.Model (Format UnpackedFloat)
open Float.Model.UnpackedFloat (Sign)

variable {m c n : Nat} {q e : Int} {x y : Float} {v w : Rat}

/-! ### Exact doubles -/

/-- The positive double is the number, and its significand has all its places. -/
def Full (x : Float) (v : Rat) : Prop :=
  ∃ (a : Nat) (e : Int) (ha : 0 < a), x.toModel.unpack = .finite .positive a e ha ∧ 2 ^ 52 ≤ a ∧
    a * 2 ^ e = v

theorem Full.mul (hx : Full x v) (hy : Full y w) (hv : Owns m q (v * w)) (h : Canonical m q) :
    (x * y).toModel.unpack = .finite .positive m q h.pos := by
  obtain ⟨a, e, ha, hx, hfull, rfl⟩ := hx
  obtain ⟨b, f, hb, hy, -, rfl⟩ := hy
  have hproduct : (x * y).toModel.unpack =
      (Float.Model.pack (.mul .binary64 x.toModel.unpack y.toModel.unpack)).unpack := rfl
  have hlong : 2 ^ 52 ≤ a * b := hfull.trans (Nat.le_mul_of_pos_right a hb)
  rw [hproduct, hx, hy, hv.mul h .positive .positive ha hb hlong]
  exact unpack_pack .positive h h.pos

theorem Full.div (hx : Full x v) (hy : Full y w) (hv : Owns m q (v / w)) (h : Canonical m q) :
    (x / y).toModel.unpack = .finite .positive m q h.pos := by
  obtain ⟨a, e, ha, hx, -, rfl⟩ := hx
  obtain ⟨b, f, hb, hy, -, rfl⟩ := hy
  have hquotient : (x / y).toModel.unpack =
      (Float.Model.pack (.div .binary64 x.toModel.unpack y.toModel.unpack)).unpack := rfl
  rw [hquotient, hx, hy, hv.div h .positive .positive ha hb]
  exact unpack_pack .positive h h.pos

theorem full_toFloat (hc : 0 < c) (hlt : c < 2 ^ 53) : Full c.toUInt64.toFloat c := by
  obtain ⟨j, hj⟩ : ∃ j, 52 - c.log2 = j := ⟨_, rfl⟩
  have hlog : c.log2 ≤ 52 := Nat.le_of_lt_succ ((Nat.log2_lt hc.ne').mpr hlt)
  have hpos : 0 < c * 2 ^ j := Nat.mul_pos hc (Nat.two_pow_pos j)
  have hshifted : (c * 2 ^ j).log2 = 52 := by
    rw [log2_mul_pow hc]
    omega
  obtain ⟨hfull, hbelow⟩ := (Nat.log2_eq_iff hpos.ne').mp hshifted
  have hcanonical : Canonical (c * 2 ^ j) (0 - j) :=
    ⟨hpos, hbelow, by omega, by omega, .inl hfull⟩
  have hround : UnpackedFloat.ofUInt64 .binary64 c.toUInt64 =
      .finite .positive (c * 2 ^ j) (0 - j) hpos := by
    have hc64 : c.toUInt64.toNat = c := Nat.mod_eq_of_lt (hlt.trans (by decide))
    unfold UnpackedFloat.ofUInt64 UnpackedFloat.ofNat UnpackedFloat.ofInt UnpackedFloat.normalize
    rw [hc64, compare_gt_iff_gt.mpr (Int.natCast_pos.mpr hc)]
    dsimp only
    rw [Int.toNat_natCast, round_eq .positive c 0 (j := j) (by omega)]
    exact (owns_self hpos _).roundWithAccuracy hcanonical .positive (cuts_exact _)
      (.inr hshifted.symm.le)
  have hunpack : c.toUInt64.toFloat.toModel.unpack =
      (Float.Model.pack (UnpackedFloat.ofUInt64 .binary64 c.toUInt64)).unpack := rfl
  refine ⟨c * 2 ^ j, 0 - j, hpos, ?_, hfull, ?_⟩
  · rw [hunpack, hround]
    exact unpack_pack .positive hcanonical hpos
  · rw [zero_sub, zpow_neg, zpow_natCast, Nat.cast_mul, Nat.cast_pow]
    exact mul_inv_cancel_right₀ (by positivity) _

theorem full_powerOfTen (n : Fin 23) :
    Full Float.exactlyRepresentablePowersOfTen[n] (10 ^ (n : Nat)) := by
  have htable : ∃ (a : Nat) (e : Int) (ha : 0 < a),
      (Float.exactlyRepresentablePowersOfTen[n]).toModel.unpack = .finite .positive a e ha ∧
        2 ^ 52 ≤ a ∧ -52 ≤ e ∧ a * 2 ^ (e + 52).toNat = 10 ^ (n : Nat) * 2 ^ 52 := by
    fin_cases n <;> exact ⟨_, _, by decide, rfl, by decide, by decide, by decide⟩
  obtain ⟨a, e, ha, hunpack, hfull, he, heq⟩ := htable
  obtain ⟨j, rfl⟩ : ∃ j : Nat, e = j - 52 := ⟨(e + 52).toNat, by omega⟩
  rw [sub_add_cancel, Int.toNat_natCast] at heq
  have hcast : (a * 2 ^ j : Rat) = 10 ^ (n : Nat) * 2 ^ 52 := by exact_mod_cast heq
  refine ⟨a, j - 52, ha, hunpack, hfull, ?_⟩
  rw [zpow_sub₀ two_ne_zero, zpow_natCast, ← mul_div_assoc, hcast]
  exact mul_div_cancel_right₀ _ (by positivity)

/-! ### Decimals -/

/-- A natural number times a power of ten that lies in the interval of a double is rounded to the
double. -/
theorem Owns.ofScientific (hv : Owns m q (c * 10 ^ e)) (h : Canonical m q) (hc : 0 < c)
    (hle : -2 ^ 11 ≤ e) (hge : e ≤ 2 ^ 11) :
    UnpackedFloat.ofScientific .binary64 c e = .finite .positive m q h.pos := by
  unfold UnpackedFloat.ofScientific
  rw [dif_neg hc.ne', if_neg (not_lt.mpr hge), if_neg (by push_cast; omega)]
  split
  · next hnonneg =>
    have hten : ((10 ^ e.toNat : Nat) : Rat) = 10 ^ e := by
      rw [Nat.cast_pow, ← zpow_natCast, Int.toNat_of_nonneg hnonneg]
      rfl
    have hproduct : Owns m q ((c <<< 53 : Nat) * 2 ^ (-53 : Int) *
        ((10 ^ e.toNat : Nat) * 2 ^ (0 : Int))) := by
      rw [hten, Nat.shiftLeft_eq, Nat.cast_mul, Nat.cast_pow, zpow_neg, zpow_zero, mul_one]
      convert hv using 2
      exact mul_inv_cancel_right₀ (by norm_num) _
    refine hproduct.mul h .positive .positive _ _ ?_
    rw [Nat.shiftLeft_eq]
    calc 2 ^ 52 ≤ 1 * 2 ^ 53 * 1 := by decide
      _ ≤ c * 2 ^ 53 * 10 ^ e.toNat :=
        Nat.mul_le_mul (Nat.mul_le_mul_right _ hc) (Nat.one_le_pow _ _ (by decide))
  · next hneg =>
    have hten : ((10 ^ (-e).toNat : Nat) : Rat) = (10 ^ e)⁻¹ := by
      rw [Nat.cast_pow, ← zpow_natCast, Int.toNat_of_nonneg (by omega), zpow_neg]
      rfl
    have hquotient : Owns m q (c * 2 ^ (0 : Int) / ((10 ^ (-e).toNat : Nat) * 2 ^ (0 : Int))) := by
      rw [hten, zpow_zero, mul_one, mul_one, div_inv_eq_mul]
      exact hv
    exact hquotient.div h .positive .positive _ _

theorem Owns.unpack_ofScientific (hv : Owns m q (c * 10 ^ e)) (h : Canonical m q) (hc : 0 < c)
    (hle : -2 ^ 11 ≤ e) (hge : e ≤ 2 ^ 11) :
    (Float.ofScientific c (decide (e < 0)) e.natAbs).toModel.unpack =
      .finite .positive m q h.pos := by
  unfold Float.ofScientific
  split
  · next hsmall =>
    have hten := full_powerOfTen ⟨e.natAbs, by omega⟩
    have hnat := full_toFloat hc hsmall.1
    obtain ⟨n, rfl | rfl⟩ := e.eq_nat_or_neg
    · rw [decide_eq_false (by omega)]
      rw [zpow_natCast] at hv
      exact hnat.mul hten hv h
    · obtain rfl | hpos := Nat.eq_zero_or_pos n
      · rw [Nat.cast_zero, neg_zero, zpow_zero, ← pow_zero 10] at hv
        exact hnat.mul hten hv h
      · rw [decide_eq_true (by omega)]
        rw [zpow_neg, zpow_natCast, ← div_eq_mul_inv] at hv
        refine hnat.div hten ?_ h
        show Owns m q (c / 10 ^ (-(n : Int)).natAbs)
        rwa [Int.natAbs_neg, Int.natAbs_natCast]
  · have hslow : (Float.ofModel (Float.Model.ofScientific c e)).toModel.unpack =
        (Float.Model.pack (UnpackedFloat.ofScientific .binary64 c e)).unpack := rfl
    have hexponent :
        (if decide (e < 0) then Int.negOfNat e.natAbs else Int.ofNat e.natAbs) = e := by
      by_cases hneg : e < 0
      · rw [if_pos (decide_eq_true hneg), Int.negOfNat_eq, Int.ofNat_eq_natCast]
        omega
      · rw [if_neg (by simpa using hneg), Int.ofNat_eq_natCast]
        omega
    dsimp only
    rw [hexponent, hslow, hv.ofScientific h hc hle hge]
    exact unpack_pack .positive h h.pos

/-! ### Sizes of decimals -/

theorem pow_le_pow_of_rate {x y s t a b : Nat} (hs : s ≠ 0) (hy : 0 < y) (hrate : x ^ s ≤ y ^ t)
    (h : t * a ≤ s * b) : x ^ a ≤ y ^ b := by
  refine (Nat.pow_le_pow_iff_left hs).mp ?_
  calc (x ^ a) ^ s = (x ^ s) ^ a := by rw [← pow_mul, ← pow_mul, mul_comm]
    _ ≤ (y ^ t) ^ a := Nat.pow_le_pow_left hrate a
    _ = y ^ (t * a) := (pow_mul ..).symm
    _ ≤ y ^ (s * b) := Nat.pow_le_pow_right hy h
    _ = (y ^ b) ^ s := by rw [← pow_mul, mul_comm]

theorem ten_pow_le {a b : Nat} (h : 10 * a ≤ 3 * b) : 10 ^ a ≤ 2 ^ b :=
  pow_le_pow_of_rate (by decide) two_pos (by decide) h

theorem two_pow_le {a b : Nat} (h : 28 * a ≤ 93 * b) : 2 ^ a ≤ 10 ^ b :=
  pow_le_pow_of_rate (by decide) (by decide) (by decide) h

theorem Owns.bounds {n : Nat} (hv : Owns m q (c * 10 ^ (-n : Int))) (h : Canonical m q) :
    c < 2 ^ 1024 * 10 ^ n ∧ 10 ^ n ≤ c * 2 ^ 1075 := by
  have hplace : (0 : Rat) < 2 ^ (q - 2) := by positivity
  have hten : (0 : Rat) < 10 ^ n := by positivity
  have hlow := (low_le h.pos).trans hv.low
  have hhigh := hv.high.trans_eq high_eq
  rw [zpow_neg, zpow_natCast, ← div_eq_mul_inv] at hlow hhigh
  rw [le_div_iff₀ hplace] at hlow
  rw [div_le_iff₀ hplace] at hhigh
  have hone : (1 : Rat) ≤ m := by exact_mod_cast h.pos
  have hbelow : (m : Rat) + 1 ≤ 2 ^ 53 := by exact_mod_cast h.below
  constructor
  · have hmost : (2 : Rat) ^ (q - 2) ≤ 2 ^ (969 : Int) :=
      zpow_le_zpow_right₀ one_le_two (by linarith [h.most])
    have hlt : (c : Rat) / 10 ^ n < 2 ^ 1024 :=
      calc (c : Rat) / 10 ^ n ≤ (4 * m + 2) * 2 ^ (q - 2) := hhigh
        _ < 2 ^ 55 * 2 ^ (q - 2) := mul_lt_mul_of_pos_right (by linarith) hplace
        _ ≤ 2 ^ 55 * 2 ^ (969 : Int) := mul_le_mul_of_nonneg_left hmost (by positivity)
        _ = 2 ^ 1024 := by rw [← zpow_natCast 2 55, ← zpow_add₀ two_ne_zero]; rfl
    rw [div_lt_iff₀ hten] at hlt
    exact_mod_cast hlt
  · have hleast : (2 : Rat) ^ (-1076 : Int) ≤ 2 ^ (q - 2) :=
      zpow_le_zpow_right₀ one_le_two (by linarith [h.least])
    have hle : (2 ^ 1075 : Rat)⁻¹ ≤ c / 10 ^ n :=
      calc (2 ^ 1075 : Rat)⁻¹ = 2 * 2 ^ (-1076 : Int) := by
            rw [← zpow_natCast, ← zpow_neg, ← zpow_one_add₀ two_ne_zero]; rfl
        _ ≤ 2 * 2 ^ (q - 2) := mul_le_mul_of_nonneg_left hleast two_pos.le
        _ ≤ (4 * m - 2) * 2 ^ (q - 2) := mul_le_mul_of_nonneg_right (by linarith) hplace.le
        _ ≤ c / 10 ^ n := hlow
    rw [inv_le_iff_one_le_mul₀ (by positivity), div_mul_eq_mul_div, one_le_div hten] at hle
    exact_mod_cast hle

theorem log2_bounds {n : Nat} (hc : 0 < c) (hhigh : c < 2 ^ 1024 * 10 ^ n)
    (hlow : 10 ^ n ≤ c * 2 ^ 1075) (hn : n ≤ 400) :
    let size : Int := c.log2 * 30103 / 100000
    size - n ≤ 310 ∧ -330 ≤ size - n := by
  have hupper : c.log2 < 1024 + (10 * n + 2) / 3 := by
    refine (Nat.log2_lt hc.ne').mpr (hhigh.trans_le ?_)
    rw [pow_add]
    exact Nat.mul_le_mul_left _ (ten_pow_le (by omega))
  have hlower : 93 * n / 28 < c.log2 + 1 + 1075 := by
    refine (Nat.pow_lt_pow_iff_right one_lt_two).mp ?_
    calc 2 ^ (93 * n / 28) ≤ 10 ^ n := two_pow_le (by omega)
      _ ≤ c * 2 ^ 1075 := hlow
      _ < 2 ^ (c.log2 + 1) * 2 ^ 1075 :=
        Nat.mul_lt_mul_of_pos_right Nat.lt_log2_self (by positivity)
      _ = 2 ^ (c.log2 + 1 + 1075) := (pow_add ..).symm
  intro size
  omega

theorem unpack_neg {s : Sign} {hm : 0 < m} (hx : x.toModel.unpack = .finite s m q hm)
    (h : Canonical m q) : (-x).toModel.unpack = .finite (-s) m q hm := by
  have hneg : (-x).toModel.unpack = (Float.Model.pack x.toModel.unpack.neg).unpack := rfl
  rw [hneg, hx]
  exact unpack_pack (-s) h hm

/-- A decimal without a positive exponent that lies in the interval of a double is read as the
double. -/
theorem Owns.toFloat {n : Nat} (hv : Owns m q (c * 10 ^ (-n : Int))) (h : Canonical m q)
    (hn : n ≤ 400) (s : Sign) :
    (Numeral.decimal (isMinus s) c (-n)).toFloat.toModel.unpack = .finite s m q h.pos := by
  obtain ⟨hhigh, hlow⟩ := hv.bounds h
  have hten : 0 < 10 ^ n := by positivity
  have hc : 0 < c := Nat.pos_of_mul_pos_right (hten.trans_le hlow)
  obtain ⟨hsmall, hlarge⟩ := log2_bounds hc hhigh hlow hn
  have hfinite : ¬ 310 < (c.log2 * 30103 / 100000 : Int) + -n := by omega
  have hfelt : ¬ (c.log2 * 30103 / 100000 : Int) + -n < -330 := by omega
  have hround := hv.unpack_ofScientific h hc (by omega) (by omega)
  have hsign : (if (-n : Int) < 0 then Float.ofScientific c true (-n : Int).natAbs
      else Float.ofScientific c false (-n : Int).natAbs) =
      Float.ofScientific c (decide ((-n : Int) < 0)) (-n : Int).natAbs := by
    split
    · next hneg => rw [decide_eq_true hneg]
    · next hneg => rw [decide_eq_false hneg]
  unfold Numeral.toFloat
  dsimp only
  rw [if_neg hc.ne', if_neg hfinite, if_neg hfelt, hsign]
  cases s with
  | negative => exact unpack_neg hround h
  | positive => exact hround

theorem unpack_toFloat_zero (s : Sign) (e : Int) :
    (Numeral.decimal (isMinus s) 0 e).toFloat.toModel.unpack = .zero s := by
  unfold Numeral.toFloat
  dsimp only
  rw [if_pos rfl]
  cases s <;> rfl

end Doubles

end Soundscape
