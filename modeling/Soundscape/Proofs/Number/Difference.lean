import Mathlib
import Soundscape.Proofs.Number.Comparison

/-!
# Doubles a finite distance apart

A distance of two doubles is finite only between finite doubles (`Doubles.isFinite_of_sub`), and it
does not matter which of the two is taken from the other (`Doubles.isFinite_sub_swap`): the results
differ in their signs alone, and whether a double is finite is told by its exponent.
-/

namespace Soundscape

namespace Doubles

open Float.Model (Format UnpackedFloat)
open Float.Model.UnpackedFloat (Sign unpackExponent unpackExponent_packComponents)

theorem isFinite_unpack (b : BitVec Format.binary64.numBits) :
    (UnpackedFloat.unpack .binary64 b).isFinite =
      decide (unpackExponent b ≠ -BitVec.ofNat Format.binary64.exponentBits 1) := by
  unfold UnpackedFloat.unpack
  dsimp only
  by_cases h : unpackExponent b = -BitVec.ofNat Format.binary64.exponentBits 1
  · rw [if_pos h, decide_eq_false (not_not_intro h)]
    split <;> rfl
  · rw [if_neg h, decide_eq_true h]
    split
    · split <;> rfl
    · rfl

theorem exponent_pack_neg (u : UnpackedFloat) :
    unpackExponent (UnpackedFloat.pack .binary64 u.neg) =
      unpackExponent (UnpackedFloat.pack .binary64 u) := by
  cases u with
  | notANumber => rfl
  | infinity s => cases s <;> rfl
  | zero s => cases s <;> rfl
  | finite s m e hm =>
    unfold UnpackedFloat.neg UnpackedFloat.pack
    dsimp only
    split
    · simp only [UnpackedFloat.packedInfinity, unpackExponent_packComponents]
    · split <;> simp only [unpackExponent_packComponents]

theorem isFinite_pack_neg (u : UnpackedFloat) :
    (Float.Model.pack u.neg).isFinite = (Float.Model.pack u).isFinite := by
  have h (v : UnpackedFloat) : (Float.Model.pack v).isFinite =
      (UnpackedFloat.unpack .binary64 (UnpackedFloat.pack .binary64 v)).isFinite := rfl
  rw [h, h, isFinite_unpack, isFinite_unpack, exponent_pack_neg]

theorem round_neg (s : Sign) (m : Nat) (e : Int) :
    UnpackedFloat.round .binary64 (-s) m e = (UnpackedFloat.round .binary64 s m e).neg := by
  unfold UnpackedFloat.round UnpackedFloat.roundWithAccuracy
  dsimp only
  split <;> rfl

theorem normalize_neg (m e : Int) :
    UnpackedFloat.normalize .binary64 (-m) e .positive =
        (UnpackedFloat.normalize .binary64 m e .positive).neg ∨
      UnpackedFloat.normalize .binary64 (-m) e .positive =
        UnpackedFloat.normalize .binary64 m e .positive := by
  unfold UnpackedFloat.normalize
  rcases lt_trichotomy m 0 with hm | rfl | hm
  · rw [compare_lt_iff_lt.mpr hm, compare_gt_iff_gt.mpr (Int.neg_pos_of_neg hm)]
    exact .inl (round_neg .negative _ e)
  · exact .inr rfl
  · rw [compare_gt_iff_gt.mpr hm, compare_lt_iff_lt.mpr (Int.neg_neg_of_pos hm), Int.neg_neg]
    exact .inl (round_neg .positive _ e)

theorem isFinite_pack_normalize_neg (m e : Int) :
    (Float.Model.pack (UnpackedFloat.normalize .binary64 (-m) e .positive)).isFinite =
      (Float.Model.pack (UnpackedFloat.normalize .binary64 m e .positive)).isFinite := by
  obtain h | h := normalize_neg m e <;> rw [h]
  exact isFinite_pack_neg _

theorem not_isFinite_pack {u : UnpackedFloat} (h : u.isFinite = false) :
    (Float.Model.pack u).isFinite = false := by
  cases u with
  | notANumber => rfl
  | infinity s => cases s <;> rfl
  | zero s => cases h
  | finite s m e hm => cases h

theorem not_isFinite_sub {a b : UnpackedFloat} (h : a.isFinite = false ∨ b.isFinite = false) :
    (UnpackedFloat.sub .binary64 a b).isFinite = false := by
  cases a with
  | notANumber => cases b <;> rfl
  | infinity s =>
    cases b with
    | infinity t => cases s <;> cases t <;> rfl
    | _ => rfl
  | _ =>
    cases b with
    | notANumber => rfl
    | infinity t => rfl
    | _ => simp [UnpackedFloat.isFinite] at h

theorem isFinite_of_pack_sub {a b : UnpackedFloat}
    (h : (Float.Model.pack (UnpackedFloat.sub .binary64 a b)).isFinite) :
    a.isFinite ∧ b.isFinite := by
  by_contra hn
  rw [not_and_or, Bool.not_eq_true, Bool.not_eq_true] at hn
  rw [not_isFinite_pack (not_isFinite_sub hn)] at h
  cases h

theorem isFinite_pack_sub_swap {a b : UnpackedFloat}
    (h : (Float.Model.pack (UnpackedFloat.sub .binary64 a b)).isFinite) :
    (Float.Model.pack (UnpackedFloat.sub .binary64 b a)).isFinite := by
  obtain ⟨ha, hb⟩ := isFinite_of_pack_sub h
  cases a with
  | notANumber => cases ha
  | infinity s => cases ha
  | zero s =>
    cases b with
    | notANumber => cases hb
    | infinity t => cases hb
    | zero t => cases s <;> cases t <;> rfl
    | finite t n f hn => exact (isFinite_pack_neg (.finite t n f hn)).symm.trans h
  | finite s m e hm =>
    cases b with
    | notANumber => cases hb
    | infinity t => cases hb
    | zero t => exact (isFinite_pack_neg (.finite s m e hm)).trans h
    | finite t n f hn =>
      unfold UnpackedFloat.sub at h ⊢
      dsimp only at h ⊢
      rw [min_comm f e, ← Int.neg_sub (s.apply _), isFinite_pack_normalize_neg]
      exact h

theorem isFinite_of_sub {a b : Float} (h : (b - a).isFinite) : a.isFinite ∧ b.isFinite :=
  (isFinite_of_pack_sub (a := b.toModel.unpack) (b := a.toModel.unpack) h).symm

theorem isFinite_sub_swap {a b : Float} (h : (b - a).isFinite) : (a - b).isFinite :=
  isFinite_pack_sub_swap (a := b.toModel.unpack) (b := a.toModel.unpack) h

end Doubles

end Soundscape
