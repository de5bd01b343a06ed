import Soundscape.Proofs.Number.Difference

/-!
# The exponent of a rounded double

A finite double has one significand and one exponent (`Doubles.Canonical`), and a number is packed
into a finite double just if its exponent is not too large (`Doubles.isFinite_pack_finite`).
Rounding a significand that is a bit too long makes the exponent one larger, and so it may do to one
that just fits (`Doubles.round_exponent`).
-/

namespace Soundscape

namespace Doubles

open Float.Model (Format UnpackedFloat totalExponent)
open Float.Model.UnpackedFloat (Sign Accuracy ExtendedMantissa unpackExponent unpackMantissa
  unpackExponent_packComponents shiftToTargetExponent shiftToExponent roundWithAccuracy)

/-- The significand and the exponent of a finite double other than zero. -/
structure Canonical (m : Nat) (e : Int) : Prop where
  pos : 0 < m
  below : m < 2 ^ 53
  least : -1074 ≤ e
  most : e ≤ 971
  normal : 2 ^ 52 ≤ m ∨ e = -1074

theorem Canonical.log2_le {m : Nat} {e : Int} (h : Canonical m e) : m.log2 ≤ 52 :=
  Nat.le_of_lt_succ ((Nat.log2_lt h.pos.ne').mpr h.below)

theorem toNat_one_append (y : BitVec 52) : (1#1 ++ y).toNat = 2 ^ 52 + y.toNat := by
  rw [BitVec.toNat_append]
  exact (Nat.shiftLeft_add_eq_or_of_lt y.isLt 1).symm

theorem canonical_unpack {b : BitVec Format.binary64.numBits} {s : Sign} {m : Nat} {e : Int}
    {hm : 0 < m} (h : UnpackedFloat.unpack .binary64 b = .finite s m e hm) : Canonical m e := by
  have hbias : (Format.binary64.exponentBias : Int) = 1023 := rfl
  have hy : (unpackMantissa b).toNat < 2 ^ 52 := (unpackMantissa b).isLt
  have hx : (unpackExponent b).toNat < 2 ^ 11 := (unpackExponent b).isLt
  unfold UnpackedFloat.unpack at h
  dsimp only at h
  rw [hbias] at h
  split at h
  · split at h <;> cases h
  · next hlast =>
    have hlast : (unpackExponent b).toNat ≠ 2 ^ 11 - 1 := fun hc =>
      hlast (BitVec.eq_of_toNat_eq hc)
    split at h
    · next hfirst =>
      split at h
      · cases h
      · cases h
        rw [hfirst]
        exact ⟨hm, by omega, by decide, by decide, .inr rfl⟩
    · next hfirst =>
      have hfirst : (unpackExponent b).toNat ≠ 0 := fun hc => hfirst (BitVec.eq_of_toNat_eq hc)
      have hlong := toNat_one_append (unpackMantissa b)
      cases h
      rw [hlong]
      exact ⟨by omega, by omega, by push_cast; omega, by push_cast; omega, .inl (by omega)⟩

theorem isFinite_pack_finite (s : Sign) {m : Nat} (e : Int) (hm : 0 < m) :
    (Float.Model.pack (.finite s m e hm)).isFinite = decide (e ≤ 971) := by
  have hbias : (Format.binary64.exponentBias : Int) = 1023 := rfl
  have hx : (Float.Model.pack (.finite s m e hm)).isFinite = (UnpackedFloat.unpack .binary64
      (UnpackedFloat.pack .binary64 (.finite s m e hm))).isFinite := rfl
  rw [hx, isFinite_unpack, decide_eq_decide]
  unfold UnpackedFloat.pack
  dsimp only
  rw [hbias]
  split
  · next hlarge =>
    have he : ¬ e ≤ 971 := by push_cast at hlarge; omega
    rw [UnpackedFloat.packedInfinity, unpackExponent_packComponents]
    exact iff_of_false (not_not_intro rfl) he
  · next hlarge =>
    have he : e ≤ 971 := by push_cast at hlarge; omega
    refine iff_of_true ?_ he
    split <;> rw [unpackExponent_packComponents]
    · intro hc
      have hn := congrArg BitVec.toNat hc
      rw [BitVec.toNat_ofNat, Nat.mod_eq_of_lt (by omega)] at hn
      have hlast : (-BitVec.ofNat Format.binary64.exponentBits 1).toNat = 2047 := rfl
      rw [hlast] at hn
      omega
    · decide

/-! ### Rounding -/

theorem mantissa_ofMantissaAndAccuracy (m : Nat) (a : Accuracy) :
    (ExtendedMantissa.ofMantissaAndAccuracy m a).mantissa = m := by
  cases a with
  | exact => rfl
  | inexact o => cases o <;> rfl

theorem roundedMantissa_le (x : ExtendedMantissa) :
    x.mantissa ≤ x.roundedMantissa ∧ x.roundedMantissa ≤ x.mantissa + 1 := by
  obtain ⟨m, r, s⟩ := x
  cases r <;> cases s <;>
    simp only [ExtendedMantissa.roundedMantissa, ExtendedMantissa.accuracy,
      Accuracy.roundToNearestEven]
  all_goals omega

theorem targetExponent_eq (m : Nat) (e : Int) :
    Format.binary64.targetExponent (totalExponent m e) = max (m.log2 + e - 52) (-1074) := by
  have hmantissa : Format.binary64.mantissaBits = 53 := rfl
  have hleast : Format.binary64.minExponent = -1074 := rfl
  unfold Format.targetExponent totalExponent
  rw [hmantissa, hleast]
  omega

theorem shift_of_lt {m : Nat} {e : Int} (hm : m < 2 ^ 53) (he : -1074 ≤ e) (a : Accuracy) :
    shiftToTargetExponent .binary64 m e a = (ExtendedMantissa.ofMantissaAndAccuracy m a, e) := by
  have hlog : m.log2 ≤ 52 := by
    obtain rfl | hz := eq_or_ne m 0
    · decide
    · exact Nat.lt_succ_iff.mp ((Nat.log2_lt hz).mpr hm)
  have hshift : (Format.binary64.targetExponent (totalExponent m e) - e).toNat = 0 := by
    rw [targetExponent_eq]
    omega
  unfold shiftToTargetExponent shiftToExponent
  dsimp only
  rw [hshift]
  exact Prod.ext rfl (add_zero e)

theorem shift_of_le {m : Nat} {e : Int} (hle : 2 ^ 53 ≤ m) (hlt : m < 2 ^ 54) (he : -1074 ≤ e)
    (a : Accuracy) : shiftToTargetExponent .binary64 m e a =
      ((ExtendedMantissa.ofMantissaAndAccuracy m a).shiftRightOne, e + 1) := by
  have hlog : m.log2 = 53 := (Nat.log2_eq_iff (by omega)).mpr ⟨hle, hlt⟩
  have hshift : (Format.binary64.targetExponent (totalExponent m e) - e).toNat = 1 := by
    rw [targetExponent_eq, hlog]
    omega
  unfold shiftToTargetExponent shiftToExponent
  dsimp only
  rw [hshift]
  rfl

/-- Rounding keeps the exponent of a significand with room above it, and adds one to that of a
significand that is one place too long. -/
theorem round_exponent (s : Sign) {m : Nat} {e : Int} (hpos : 0 < m) (hm : m + 2 < 2 ^ 54)
    (he : -1074 ≤ e) (a : Accuracy) :
    ∃ (n : Nat) (f : Int) (hn : 0 < n), roundWithAccuracy .binary64 s m e a = .finite s n f hn ∧
      f ≤ e + 1 ∧ (m + 1 < 2 ^ 53 → f = e) ∧ (2 ^ 53 ≤ m → f = e + 1) := by
  unfold roundWithAccuracy
  obtain hlt | hle := Nat.lt_or_ge m (2 ^ 53)
  · rw [shift_of_lt hlt he]
    dsimp only
    have hr := roundedMantissa_le (ExtendedMantissa.ofMantissaAndAccuracy m a)
    rw [mantissa_ofMantissaAndAccuracy] at hr
    generalize (ExtendedMantissa.ofMantissaAndAccuracy m a).roundedMantissa = r at hr
    obtain hfits | hlong := Nat.lt_or_ge r (2 ^ 53)
    · rw [shift_of_lt hfits he]
      have hz : r ≠ 0 := by omega
      exact ⟨r, e, by omega, dif_neg hz, by omega, fun _ => rfl, by omega⟩
    · rw [shift_of_le hlong (by omega) he]
      have hz : r / 2 ≠ 0 := by omega
      exact ⟨r / 2, e + 1, by omega, dif_neg hz, le_rfl, by omega, by omega⟩
  · rw [shift_of_le hle (by omega) he]
    dsimp only
    have hr := roundedMantissa_le (ExtendedMantissa.ofMantissaAndAccuracy m a).shiftRightOne
    have hhalf : (ExtendedMantissa.ofMantissaAndAccuracy m a).shiftRightOne.mantissa = m / 2 := by
      rw [ExtendedMantissa.shiftRightOne, mantissa_ofMantissaAndAccuracy]
    rw [hhalf] at hr
    generalize (ExtendedMantissa.ofMantissaAndAccuracy m a).shiftRightOne.roundedMantissa = r at hr
    rw [shift_of_lt (by omega) (by omega)]
    have hz : r ≠ 0 := by omega
    exact ⟨r, e + 1, by omega, dif_neg hz, le_rfl, by omega, fun _ => rfl⟩

end Doubles

end Soundscape
