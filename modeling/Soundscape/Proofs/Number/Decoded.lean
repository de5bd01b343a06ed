import Soundscape.Number.Binary64
import Soundscape.Proofs.Number.Size

/-!
# Decoded doubles

The program decodes a double for itself to write it (`Double.ofFloat`), and finds the sign, the
significand and the exponent that the operations on doubles work with (`Doubles.ofFloat_eq`).
These tell a finite double, its sign included when it is zero (`Doubles.eq_of_unpack`).
-/

namespace Soundscape

namespace Doubles

open Float.Model (Format UnpackedFloat)
open Float.Model.UnpackedFloat (Sign unpackSign unpackExponent unpackMantissa)

def isMinus : Sign → Bool
  | .negative => true
  | .positive => false

def decoded : UnpackedFloat → Double
  | .notANumber => .nan
  | .infinity s => .infinite (isMinus s)
  | .zero s => .finite (isMinus s) 0 Double.leastExponent
  | .finite s m e _ => .finite (isMinus s) m e

theorem toNat_unpackMantissa (b : BitVec Format.binary64.numBits) :
    (unpackMantissa b).toNat = b.toNat % 2 ^ 52 := by
  unfold unpackMantissa
  rw [BitVec.toNat_cast, BitVec.extractLsb_toNat, Nat.shiftRight_zero]
  rfl

theorem isMinus_unpackSign (b : BitVec Format.binary64.numBits) :
    isMinus (.ofBitVec (unpackSign b)) = decide (2 ^ 63 ≤ b.toNat) := by
  have hsign := toNat_unpackSign b
  have hlt : b.toNat < 2 ^ 64 := b.isLt
  unfold Sign.ofBitVec
  split
  · next hzero =>
    rw [hzero] at hsign
    have hnone : (0#1).toNat = 0 := rfl
    exact (decide_eq_false (by omega)).symm
  · next hone =>
    have hne : (unpackSign b).toNat ≠ 0 := fun hc => hone (BitVec.eq_of_toNat_eq hc)
    exact (decide_eq_true (by omega)).symm

theorem ofBits_toNat (b : BitVec Format.binary64.numBits) :
    Double.ofBits b.toNat = decoded (UnpackedFloat.unpack .binary64 b) := by
  have hbias : (Format.binary64.exponentBias : Int) = 1023 := rfl
  have hsign : decide (0x8000000000000000 ≤ b.toNat) = _ := (isMinus_unpackSign b).symm
  have hexponent : b.toNat / Double.binadeStart % 2048 = (unpackExponent b).toNat :=
    (toNat_unpackExponent b).symm
  have hmantissa : b.toNat % Double.binadeStart = (unpackMantissa b).toNat :=
    (toNat_unpackMantissa b).symm
  unfold Double.ofBits
  dsimp only
  rw [hsign, hexponent, hmantissa]
  unfold UnpackedFloat.unpack
  dsimp only
  rw [hbias]
  by_cases hlast : (unpackExponent b).toNat = 2047
  · have hlast' : unpackExponent b = -BitVec.ofNat Format.binary64.exponentBits 1 :=
      BitVec.eq_of_toNat_eq hlast
    rw [if_pos hlast, if_pos hlast']
    by_cases hzero : (unpackMantissa b).toNat = 0
    · rw [if_pos hzero, if_pos (BitVec.eq_of_toNat_eq hzero)]
      rfl
    · rw [if_neg hzero, if_neg (fun hc => hzero (congrArg BitVec.toNat hc))]
      rfl
  · rw [if_neg hlast, if_neg (fun hc => hlast (congrArg BitVec.toNat hc))]
    by_cases hfirst : (unpackExponent b).toNat = 0
    · rw [if_pos hfirst, if_pos (BitVec.eq_of_toNat_eq hfirst)]
      by_cases hzero : (unpackMantissa b).toNat = 0
      · rw [dif_pos (BitVec.eq_of_toNat_eq hzero), hzero]
        rfl
      · rw [dif_neg (fun hc => hzero (congrArg BitVec.toNat hc)), hfirst]
        rfl
    · rw [if_neg hfirst, if_neg (fun hc => hfirst (congrArg BitVec.toNat hc))]
      change _ = Double.finite _ (1#1 ++ unpackMantissa b).toNat ((unpackExponent b).toNat - 1075)
      rw [toNat_one_append]
      rfl

/-- The decoded form of a double, from the unpacked one. -/
theorem ofFloat_eq (x : Float) : Double.ofFloat x = decoded x.toModel.unpack :=
  ofBits_toNat x.toModel.toBits.toBitVec

theorem toNat_of_ofBits {n m : Nat} {s : Bool} {e : Int} (hn : n < 2 ^ 64)
    (h : Double.ofBits n = .finite s m e) : n = (if s then 2 ^ 63 else 0) +
      if m < 2 ^ 52 then m else (e + 1075).toNat * 2 ^ 52 + (m - 2 ^ 52) := by
  have hstart : Double.binadeStart = 2 ^ 52 := rfl
  have hsign : (if decide (0x8000000000000000 ≤ n) then 2 ^ 63 else 0) = n / 2 ^ 63 * 2 ^ 63 := by
    split
    · next hlarge =>
      have hlarge := of_decide_eq_true hlarge
      omega
    · next hsmall =>
      have hsmall := of_decide_eq_false (Bool.not_eq_true _ ▸ hsmall)
      omega
  unfold Double.ofBits at h
  dsimp only at h
  rw [hstart] at h
  split at h
  · split at h <;> cases h
  · split at h
    · cases h
      rw [hsign, if_pos (Nat.mod_lt _ (by decide))]
      omega
    · cases h
      rw [hsign, if_neg (by omega)]
      omega

/-- A finite double is told by its sign, its significand and its exponent. -/
theorem eq_of_unpack {x y : Float} (h : x.toModel.unpack = y.toModel.unpack)
    (hfin : x.isFinite) : x = y := by
  have hfin : x.toModel.unpack.isFinite := hfin
  obtain ⟨s, m, e, hx⟩ : ∃ s m e, Double.ofFloat x = .finite s m e := by
    rw [ofFloat_eq]
    cases hu : x.toModel.unpack with
    | notANumber => rw [hu] at hfin; cases hfin
    | infinity s => rw [hu] at hfin; cases hfin
    | zero s => exact ⟨_, _, _, rfl⟩
    | finite s m e hm => exact ⟨_, _, _, rfl⟩
  have hy : Double.ofFloat y = .finite s m e := by rw [← hx, ofFloat_eq, ofFloat_eq, h]
  have hbits : x.toBits.toNat = y.toBits.toNat :=
    (toNat_of_ofBits x.toBits.toNat_lt hx).trans (toNat_of_ofBits y.toBits.toNat_lt hy).symm
  obtain ⟨⟨a, _⟩⟩ := x
  obtain ⟨⟨b, _⟩⟩ := y
  obtain rfl : a = b := UInt64.toNat.inj hbits
  rfl

end Doubles

end Soundscape
