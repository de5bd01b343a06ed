import Soundscape.Proofs.Number.Rounding

/-!
# The width of an interval of doubles

Fractions are spread over an interval by its width over the largest fraction, which is a little less
than one.  For two doubles in order the width has no negative sign, and over the largest fraction it
is finite unless it is one of the two largest doubles (`Doubles.div_width`).  The factor that the
spread ends with is finite just then, too (`Doubles.isFinite_spread`).
-/

namespace Soundscape

namespace Doubles

open Float.Model (Format UnpackedFloat totalExponent)
open Float.Model.UnpackedFloat (Sign unpackSign unpackExponent divCore accuracyOfFraction
  roundWithAccuracy)

/-- The largest width over which fractions can be spread, two places below the largest double. -/
def widest : Float := Float.ofBits 0x7feffffffffffffd

theorem largestFraction_eq : largestFraction = Float.ofBits 0x3feffffffffffffe := by
  decide +kernel

/-! ### Dividing by the largest fraction -/

theorem unpack_largestFraction :
    largestFraction.toModel.unpack = .finite .positive (2 ^ 53 - 2) (-53) (by decide) := by
  rw [largestFraction_eq]
  rfl

theorem unpack_widest : widest.toModel.unpack = .finite .positive (2 ^ 53 - 3) 971 (by decide) :=
  rfl

variable {m : Nat} {e : Int}

theorem Canonical.divCore (h : Canonical m e) :
    divCore .binary64 m e (2 ^ 53 - 2) (-53) = (m * 2 ^ 53 / (2 ^ 53 - 2), e,
      accuracyOfFraction (m * 2 ^ 53 % (2 ^ 53 - 2)) (2 ^ 53 - 2)) := by
  have hlog := h.log2_le
  have hnormal : m.log2 = 52 ∨ e = -1074 := h.normal.imp_left fun hle =>
    (Nat.log2_eq_iff h.pos.ne').mpr ⟨hle, h.below⟩
  have htotal : totalExponent m e - totalExponent (2 ^ 53 - 2) (-53) = totalExponent m e := by
    have hone : totalExponent (2 ^ 53 - 2) (-53) = 0 := by decide +kernel
    rw [hone, sub_zero]
  have htarget : min (e - -53) (max ((m.log2 : Int) + e - 52) (-1074)) = e := by
    have := h.least
    omega
  have hshift : (e - -53 - e).toNat = 53 := by omega
  unfold Float.Model.UnpackedFloat.divCore
  dsimp only
  rw [htotal, targetExponent_eq, htarget, hshift, Nat.shiftLeft_eq]

/-- A finite double over the largest fraction: it grows by two units at most, and only the largest
ones grow too large. -/
theorem Canonical.div_largestFraction (h : Canonical m e) (s : Sign) (hm : 0 < m) :
    ∃ (n : Nat) (f : Int) (hn : 0 < n),
      UnpackedFloat.div .binary64 (.finite s m e hm)
        (.finite .positive (2 ^ 53 - 2) (-53) (by decide)) = .finite (s / .positive) n f hn ∧
      (f ≤ 971 ↔ e < 971 ∨ m ≤ 2 ^ 53 - 3) := by
  have hle := h.most
  have hpos := h.pos
  have hlt := h.below
  -- the quotient is `m` or one more, and two more only for the two largest significands, which then
  -- have a place too many
  obtain ⟨n, f, hn, hround, hup, hsame, hnext⟩ :=
    round_exponent (s / .positive) (m := m * 2 ^ 53 / (2 ^ 53 - 2)) (by omega) (by omega) h.least
      (accuracyOfFraction (m * 2 ^ 53 % (2 ^ 53 - 2)) (2 ^ 53 - 2))
  refine ⟨n, f, hn, ?_, by omega⟩
  unfold UnpackedFloat.div
  dsimp only
  rw [h.divCore]
  exact hround

/-! ### The sign of a width -/

def isNegative : UnpackedFloat → Bool
  | .infinity .negative | .zero .negative | .finite .negative .. => true
  | _ => false

theorem unpackSign_pack {u : UnpackedFloat} (h : isNegative u = false) :
    unpackSign (UnpackedFloat.pack .binary64 u) = 0#1 := by
  cases u with
  | notANumber => exact UnpackedFloat.unpackSign_packComponents ..
  | infinity s =>
    cases s with
    | negative => cases h
    | positive => exact UnpackedFloat.unpackSign_packComponents ..
  | zero s =>
    cases s with
    | negative => cases h
    | positive => exact UnpackedFloat.unpackSign_packComponents ..
  | finite s m e hm =>
    cases s with
    | negative => cases h
    | positive =>
      unfold UnpackedFloat.pack
      dsimp only
      split
      · exact UnpackedFloat.unpackSign_packComponents ..
      · split <;> exact UnpackedFloat.unpackSign_packComponents ..

theorem isNegative_unpack {b : BitVec Format.binary64.numBits} (h : unpackSign b = 0#1) :
    isNegative (UnpackedFloat.unpack .binary64 b) = false := by
  have hs : Sign.ofBitVec (unpackSign b) = .positive := by
    rw [h]
    rfl
  unfold UnpackedFloat.unpack
  dsimp only
  rw [hs]
  split
  · split <;> rfl
  · split
    · split <;> rfl
    · rfl

theorem isNegative_normalize {m : Int} (hm : 0 ≤ m) (e : Int) :
    isNegative (UnpackedFloat.normalize .binary64 m e .positive) = false := by
  unfold UnpackedFloat.normalize
  obtain rfl | hpos := hm.eq_or_lt
  · rfl
  · rw [compare_gt_iff_gt.mpr hpos]
    dsimp only
    unfold UnpackedFloat.round roundWithAccuracy
    dsimp only
    split <;> rfl

theorem Canonical.aligned_le {n : Nat} {f : Int} (ha : Canonical m e) (hb : Canonical n f)
    (h : (compare e f).then (compare m n) = .lt) :
    m <<< (e - min e f).toNat ≤ n <<< (f - min e f).toNat := by
  rw [Nat.shiftLeft_eq, Nat.shiftLeft_eq]
  rcases lt_trichotomy e f with hlt | rfl | hgt
  · obtain ⟨k, hk⟩ : ∃ k, (f - min e f).toNat = k + 1 := ⟨(f - e).toNat - 1, by omega⟩
    have hzero : (e - min e f).toNat = 0 := by omega
    have hn : 2 ^ 52 ≤ n := hb.normal.resolve_right (by have := ha.least; omega)
    have hone : 1 ≤ 2 ^ k := Nat.one_le_two_pow
    rw [hk, hzero, pow_zero, mul_one, pow_succ]
    calc m ≤ 2 ^ 53 := ha.below.le
      _ = 2 ^ 52 * (1 * 2) := rfl
      _ ≤ n * (2 ^ k * 2) := Nat.mul_le_mul hn (Nat.mul_le_mul_right 2 hone)
  · rw [compare_eq_iff_eq.mpr rfl] at h
    exact Nat.mul_le_mul_right _ (compare_lt_iff_lt.mp h).le
  · rw [compare_gt_iff_gt.mpr hgt] at h
    cases h

theorem isNegative_sub {a b : UnpackedFloat}
    (ha : ∀ {s m e hm}, a = .finite s m e hm → Canonical m e)
    (hb : ∀ {s m e hm}, b = .finite s m e hm → Canonical m e)
    (h : a.compare b = some .lt) : isNegative (UnpackedFloat.sub .binary64 b a) = false := by
  rcases a with (_ | _) | _ | s | ⟨s, m, e, hm⟩ <;>
    rcases b with (_ | _) | _ | t | ⟨t, n, f, hn⟩
  case finite.finite =>
    have hm := ha rfl
    have hn := hb rfl
    refine isNegative_normalize ?_ _
    cases s <;> cases t
    · have hback : (compare f e).then (compare n m) = .lt := by
        rw [← swap_then_compare]
        exact Option.some.inj h
      exact sub_nonneg.mpr (neg_le_neg (Int.ofNat_le.mpr (hn.aligned_le hm hback)))
    · exact sub_nonneg.mpr
        ((Int.neg_nonpos_of_nonneg (Int.natCast_nonneg _)).trans (Int.natCast_nonneg _))
    · cases h
    · have hle := hm.aligned_le hn (Option.some.inj h)
      rw [min_comm] at hle
      exact sub_nonneg.mpr (Int.ofNat_le.mpr hle)
  case zero.finite => cases t <;> first | rfl | cases h
  case finite.zero => cases s <;> first | rfl | cases h
  all_goals first
    | rfl
    | cases h

theorem unpackSign_width {low high : Float} (h : low < high) :
    unpackSign (UnpackedFloat.pack .binary64
      (UnpackedFloat.sub .binary64 high.toModel.unpack low.toModel.unpack)) = 0#1 :=
  unpackSign_pack (isNegative_sub (fun hu => canonical_unpack hu) (fun hu => canonical_unpack hu)
    ((lt_iff low high).mp h))

theorem div_width {low high : Float} (h : low < high) (hfin : (high - low).isFinite) :
    let q := UnpackedFloat.div .binary64 (high - low).toModel.unpack largestFraction.toModel.unpack
    isNegative q = false ∧ ((Float.Model.pack q).isFinite ↔ high - low ≤ widest) := by
  have hsign : isNegative (high - low).toModel.unpack = false :=
    isNegative_unpack (unpackSign_width h)
  have hfinite : (high - low).toModel.unpack.isFinite := hfin
  rw [unpack_largestFraction, le_iff, Float.Model.compare, unpack_widest]
  rcases hu : (high - low).toModel.unpack with s | _ | s | ⟨s, m, e, hm⟩ <;>
    rw [hu] at hsign hfinite
  · cases hfinite
  · cases hfinite
  · cases s with
    | negative => cases hsign
    | positive => exact ⟨rfl, iff_of_true rfl rfl⟩
  · cases s with
    | negative => cases hsign
    | positive =>
      have hc := canonical_unpack hu
      obtain ⟨n, f, hn, hq, hle⟩ := hc.div_largestFraction .positive hm
      rw [hq]
      refine ⟨rfl, ?_⟩
      rw [isFinite_pack_finite, decide_eq_true_iff, hle]
      change _ ↔ ((compare e 971).then (compare m (2 ^ 53 - 3))).isLE = true
      obtain hlt | rfl := hc.most.lt_or_eq
      · rw [compare_lt_iff_lt.mpr hlt]
        exact iff_of_true (.inl hlt) rfl
      · rw [compare_eq_iff_eq.mpr rfl, Ordering.eq_then, Nat.isLE_compare]
        exact or_iff_right (lt_irrefl _)

/-! ### The spread -/

theorem toNat_unpackExponent (b : BitVec Format.binary64.numBits) :
    (unpackExponent b).toNat = b.toNat / 2 ^ 52 % 2 ^ 11 := by
  unfold unpackExponent
  rw [BitVec.toNat_cast, BitVec.extractLsb_toNat, Nat.shiftRight_eq_div_pow]
  rfl

theorem toNat_unpackSign (b : BitVec Format.binary64.numBits) :
    (unpackSign b).toNat = b.toNat / 2 ^ 63 % 2 := by
  unfold unpackSign
  rw [BitVec.toNat_cast, BitVec.extractLsb_toNat, Nat.shiftRight_eq_div_pow, Nat.sub_self]
  rfl

theorem toNat_lt_of_isFinite {b : BitVec Format.binary64.numBits} (hs : unpackSign b = 0#1)
    (hfin : (UnpackedFloat.unpack .binary64 b).isFinite) : b.toNat < 2047 * 2 ^ 52 := by
  rw [isFinite_unpack, decide_eq_true_iff] at hfin
  have hb : b.toNat < 2 ^ 64 := b.isLt
  have hne : (unpackExponent b).toNat ≠ 2047 := fun hc => hfin (BitVec.eq_of_toNat_eq hc)
  have hzero : (unpackSign b).toNat = 0 := by rw [hs]; rfl
  rw [toNat_unpackExponent] at hne
  rw [toNat_unpackSign] at hzero
  omega

theorem isFinite_ofBits {k : Nat} (hk : k < 2047 * 2 ^ 52) :
    (Float.ofBits k.toUInt64).isFinite := by
  have hunpack : (UnpackedFloat.unpack .binary64 k.toUInt64.toBitVec).isFinite := by
    rw [isFinite_unpack, decide_eq_true_iff]
    intro hc
    have hbits : k.toUInt64.toBitVec.toNat = k :=
      Nat.mod_eq_of_lt (hk.trans (by decide))
    have hlast := congrArg BitVec.toNat hc
    rw [toNat_unpackExponent, hbits] at hlast
    have hmax : (-BitVec.ofNat Format.binary64.exponentBits 1).toNat = 2047 := rfl
    rw [hmax] at hlast
    omega
  have hpack : (Float.ofBits k.toUInt64).isFinite =
      (Float.Model.pack (UnpackedFloat.unpack .binary64 k.toUInt64.toBitVec)).isFinite := rfl
  rw [hpack]
  rcases hu : UnpackedFloat.unpack .binary64 k.toUInt64.toBitVec with s | _ | s | ⟨s, m, e, hm⟩ <;>
    rw [hu] at hunpack
  · cases hunpack
  · cases hunpack
  · cases s <;> rfl
  · rw [isFinite_pack_finite, decide_eq_true_iff]
    exact (canonical_unpack hu).most

theorem isFinite_firstFitting (fits : Float → Bool) {k : Nat} (hk : k < 2047 * 2 ^ 52) :
    (firstFitting fits k).isFinite := by
  induction k with
  | zero =>
    have hzero : (0.0 : Float).isFinite := by decide +kernel
    exact hzero
  | succ k ih =>
    unfold firstFitting
    dsimp only
    split
    · exact isFinite_ofBits hk
    · exact ih (Nat.lt_of_succ_lt hk)

/-- The spread is finite if the width over the largest fraction is. -/
theorem isFinite_spread {low high : Float} (h : low < high) (hfin : (high - low).isFinite) :
    (spreadDoubles low high).isFinite = ((high - low) / largestFraction).isFinite := by
  unfold spreadDoubles
  dsimp only
  split
  · next hscale =>
    rw [hscale]
    exact isFinite_firstFitting _
      (toNat_lt_of_isFinite (unpackSign_pack (div_width h hfin).1) hscale)
  · rfl

end Doubles

end Soundscape
