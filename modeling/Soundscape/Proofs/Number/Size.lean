import Soundscape.Proofs.Number.Nearest

/-!
# The size of a double

A finite double is so many times the least positive one: its `Doubles.size`.  What is taken from a
double may get lost in the rounding.  The difference is smaller than the double as long as the
double is below `2 ^ 53` times what is taken (`Doubles.Positive.size_sub_lt`), and it is as large as
the double from `2 ^ 55` times on (`Doubles.Positive.size_sub_eq`).
-/

namespace Soundscape

namespace Doubles

open Float.Model (Format UnpackedFloat)
open Float.Model.UnpackedFloat (Sign packComponents unpackMantissa_packComponents
  unpackExponent_packComponents unpackSign_packComponents)

variable {m n k r : Nat} {e f : Int}

/-! ### Packed numbers -/

theorem ofBitVec_toBitVec (s : Sign) : Sign.ofBitVec s.toBitVec = s := by cases s <;> rfl

theorem unpack_normal (s : Sign) (x : BitVec 11) (y : BitVec 52) (hm : 0 < m)
    (hx : x.toNat ≠ 0) (hlast : x.toNat ≠ 2047) (hy : m = 2 ^ 52 + y.toNat)
    (he : e = (x.toNat : Int) - 1075) :
    UnpackedFloat.unpack .binary64 (packComponents .binary64 s x y) = .finite s m e hm := by
  have hbias : (Format.binary64.exponentBias : Int) = 1023 := rfl
  have hlong := toNat_one_append y
  subst hy he
  unfold UnpackedFloat.unpack
  simp only [unpackMantissa_packComponents, unpackExponent_packComponents,
    unpackSign_packComponents, ofBitVec_toBitVec, hlong, hbias]
  rw [if_neg (fun hc => hlast (congrArg BitVec.toNat hc)),
    if_neg (fun hc => hx (congrArg BitVec.toNat hc))]
  rfl

theorem unpack_subnormal (s : Sign) (y : BitVec 52) (hm : 0 < m) (hy : m = y.toNat) :
    UnpackedFloat.unpack .binary64 (packComponents .binary64 s 0#11 y) =
      .finite s m (-1074) hm := by
  have hz : y ≠ 0#52 := fun hc => hm.ne' (hy.trans (congrArg BitVec.toNat hc))
  subst hy
  unfold UnpackedFloat.unpack
  simp only [unpackMantissa_packComponents, unpackExponent_packComponents,
    unpackSign_packComponents, ofBitVec_toBitVec]
  rw [if_neg (by decide), if_pos trivial, dif_neg hz]
  rfl

theorem unpack_pack (s : Sign) (h : Canonical m e) (hm : 0 < m) :
    (Float.Model.pack (.finite s m e hm)).unpack = .finite s m e hm := by
  have hbias : (Format.binary64.exponentBias : Int) = 1023 := rfl
  have hbits : Format.binary64.mantissaBits = 53 := rfl
  have hleast := h.least
  have hmost := h.most
  have hbelow := h.below
  change UnpackedFloat.unpack .binary64 (UnpackedFloat.pack .binary64 (.finite s m e hm)) = _
  unfold UnpackedFloat.pack
  dsimp only
  rw [hbias, hbits, if_neg (by push_cast; omega)]
  by_cases hfull : 2 ^ 52 ≤ m
  · have hlog : m.log2 = 52 := (Nat.log2_eq_iff hm.ne').mpr ⟨hfull, hbelow⟩
    have hexponent : (BitVec.ofNat 11 (e + 1023 + (52 : Nat)).toNat).toNat = (e + 1075).toNat := by
      rw [BitVec.toNat_ofNat, Nat.mod_eq_of_lt (by omega)]
      congr 1
      omega
    rw [if_pos (by rw [hlog])]
    refine unpack_normal s _ _ hm ?_ ?_ ?_ ?_
    · rw [hexponent]
      omega
    · rw [hexponent]
      omega
    · rw [BitVec.toNat_ofNat]
      omega
    · rw [hexponent]
      omega
  · have hlog : m.log2 < 52 := (Nat.log2_lt hm.ne').mpr (not_le.mp hfull)
    obtain rfl : e = -1074 := h.normal.resolve_left hfull
    rw [if_neg (by omega)]
    refine unpack_subnormal s _ hm ?_
    rw [BitVec.toNat_ofNat, Nat.mod_eq_of_lt (not_le.mp hfull)]

theorem unpack_pack_large (s : Sign) (hm : 0 < m) (h : 971 < e) :
    (Float.Model.pack (.finite s m e hm)).unpack = .infinity s := by
  have hbias : (Format.binary64.exponentBias : Int) = 1023 := rfl
  change UnpackedFloat.unpack .binary64 (UnpackedFloat.pack .binary64 (.finite s m e hm)) = _
  unfold UnpackedFloat.pack
  dsimp only
  rw [hbias, if_pos (by push_cast; omega)]
  cases s <;> rfl

/-! ### Sizes -/

/-- How many times the least positive double goes into a finite double. -/
def size (x : Float) : Nat :=
  match x.toModel.unpack with
  | .finite _ m e _ => units m e
  | _ => 0

/-- A finite double above zero. -/
structure Positive (x : Float) : Prop where
  isFinite : x.isFinite
  pos : 0.0 < x

/-- A finite double that is not below zero. -/
structure Nonneg (x : Float) : Prop where
  isFinite : x.isFinite
  nonneg : 0.0 ≤ x

variable {c t x : Float}

theorem unpack_zero : (0.0 : Float).toModel.unpack = .zero .positive := rfl

theorem size_of_unpack {s : Sign} {hm : 0 < m} (h : x.toModel.unpack = .finite s m e hm) :
    size x = units m e := by
  unfold size
  rw [h]

theorem positive_of_unpack {hm : 0 < m} (h : x.toModel.unpack = .finite .positive m e hm) :
    Positive x where
  isFinite := by
    change x.toModel.unpack.isFinite = true
    rw [h]
    rfl
  pos := by
    rw [lt_iff, Float.Model.compare, unpack_zero, h]
    rfl

theorem nonneg_of_unpack_zero {s : Sign} (h : x.toModel.unpack = .zero s) : Nonneg x where
  isFinite := by
    change x.toModel.unpack.isFinite = true
    rw [h]
    rfl
  nonneg := by
    rw [le_iff, Float.Model.compare, h]
    rfl

theorem Positive.nonneg (h : Positive x) : Nonneg x := by
  refine ⟨h.isFinite, ?_⟩
  have hlt := (lt_iff _ _).mp h.pos
  rw [le_iff, hlt]
  rfl

theorem Positive.unpack (h : Positive x) : ∃ (m : Nat) (e : Int) (hm : 0 < m),
    x.toModel.unpack = .finite .positive m e hm ∧ Canonical m e := by
  have hfin : x.toModel.unpack.isFinite := h.isFinite
  have hlt := (lt_iff _ _).mp h.pos
  rw [Float.Model.compare, unpack_zero] at hlt
  rcases hu : x.toModel.unpack with s | _ | s | ⟨s, m, e, hm⟩ <;> rw [hu] at hfin hlt
  · cases hfin
  · cases hfin
  · cases hlt
  · cases s with
    | negative => cases hlt
    | positive => exact ⟨m, e, hm, rfl, canonical_unpack hu⟩

theorem Positive.size_pos (h : Positive x) : 0 < size x := by
  obtain ⟨m, e, hm, hu, -⟩ := h.unpack
  rw [size_of_unpack hu]
  exact Nat.mul_pos hm (Nat.two_pow_pos _)

theorem Positive.of_le (hc : Positive c) (ht : t.isFinite) (h : c ≤ t) : Positive t := by
  obtain ⟨n, f, hn, hu, -⟩ := hc.unpack
  have hfin : t.toModel.unpack.isFinite := ht
  rw [le_iff, Float.Model.compare, hu] at h
  rcases hv : t.toModel.unpack with s | _ | s | ⟨s, m, e, hm⟩ <;> rw [hv] at h hfin
  · cases hfin
  · cases hfin
  · cases h
  · cases s with
    | negative => cases h
    | positive => exact positive_of_unpack hv

theorem Positive.size_le (hc : Positive c) (ht : t.isFinite) (h : c ≤ t) : size c ≤ size t := by
  obtain ⟨n, f, hn, hu, hcc⟩ := hc.unpack
  obtain ⟨m, e, hm, hv, htc⟩ := (hc.of_le ht h).unpack
  rw [size_of_unpack hu, size_of_unpack hv]
  rw [le_iff, Float.Model.compare, hu, hv] at h
  change ((compare f e).then (compare n m)).isLE = true at h
  rcases ho : (compare f e).then (compare n m) with _ | _ | _
  · exact hcc.units_le htc ho
  · rw [Ordering.then_eq_eq, compare_eq_iff_eq, compare_eq_iff_eq] at ho
    rw [ho.1, ho.2]
  · rw [ho] at h
    cases h

theorem Nonneg.positive (h : Nonneg x) (hx : 0 < size x) : Positive x := by
  have hle := h.nonneg
  rw [le_iff, Float.Model.compare, unpack_zero] at hle
  unfold size at hx
  rcases hu : x.toModel.unpack with s | _ | s | ⟨s, m, e, hm⟩ <;> rw [hu] at hx hle
  · cases hx
  · cases hx
  · cases hx
  · cases s with
    | negative => cases hle
    | positive => exact positive_of_unpack hu

theorem Positive.le_of_size_lt (hc : Positive c) (ht : Nonneg t) (h : size c < size t) : c ≤ t := by
  obtain ⟨n, f, hn, hu, hcc⟩ := hc.unpack
  obtain ⟨m, e, hm, hv, htc⟩ := (ht.positive (Nat.zero_lt_of_lt h)).unpack
  rw [size_of_unpack hu, size_of_unpack hv] at h
  rw [le_iff, Float.Model.compare, hu, hv]
  change ((compare f e).then (compare n m)).isLE = true
  rcases ho : (compare f e).then (compare n m) with _ | _ | _
  · rfl
  · rfl
  · have hback := swap_then_compare f e n m
    rw [ho] at hback
    exact absurd h (not_lt.mpr (htc.units_le hcc hback.symm))

theorem Positive.sub_nearest (hc : Positive c) (ht : t.isFinite) (h : c ≤ t) :
    ∃ v, Rounds (size t - size c) v ∧ (v ≤ size t → Nonneg (t - c) ∧ size (t - c) = v) := by
  have hle := hc.size_le ht h
  obtain ⟨n, f, hn, hu, hcc⟩ := hc.unpack
  obtain ⟨m, e, hm, hv, htc⟩ := (hc.of_le ht h).unpack
  rw [size_of_unpack hu, size_of_unpack hv] at hle ⊢
  obtain ⟨x, g, hsub, hg, hx⟩ := htc.sub_eq hcc hm hn hle
  have hdiff : (t - c).toModel.unpack =
      (Float.Model.pack (UnpackedFloat.normalize .binary64 x g .positive)).unpack := by
    rw [← hsub, ← hu, ← hv]
    rfl
  rw [← hx]
  obtain rfl | hpos := Nat.eq_zero_or_pos x
  · have hzero : (t - c).toModel.unpack = .zero .positive := by
      have hnormal : UnpackedFloat.normalize .binary64 0 g .positive = .zero .positive := rfl
      rw [hdiff, Nat.cast_zero, hnormal]
      rfl
    have hunits : units 0 g = 0 := Nat.zero_mul _
    rw [hunits]
    refine ⟨0, ⟨0, ⟨by decide, by decide⟩, rfl⟩, fun _ => ⟨nonneg_of_unpack_zero hzero, ?_⟩⟩
    unfold size
    rw [hzero]
  · have hround : UnpackedFloat.normalize .binary64 x g .positive =
        UnpackedFloat.round .binary64 .positive x g := by
      unfold UnpackedFloat.normalize
      rw [compare_gt_iff_gt.mpr (Int.natCast_pos.mpr hpos)]
      rfl
    obtain ⟨i, j, hi, hr, hfits, hrounds⟩ := round_nearest .positive hpos hg
    refine ⟨units i j, hrounds, fun hbound => ?_⟩
    rw [hround, hr, unpack_pack _ (hfits.canonical_of_le htc hbound)] at hdiff
    exact ⟨(positive_of_unpack hdiff).nonneg, size_of_unpack hdiff⟩

/-! ### What is lost in a difference -/

theorem Rounds.lt {a b v : Nat} (h : Rounds (a - b) v) (hb : 0 < b) (hle : b ≤ a)
    (hlt : a < 2 ^ 53 * b) : v < a := by
  obtain ⟨r, hnear, rfl⟩ := h
  have hlower := hnear.lower
  rw [mul_assoc] at hlower
  have hplace : 2 ^ dropped (a - b) < 2 * b := by
    unfold dropped
    obtain hsmall | hlarge := Nat.lt_or_ge (a - b).log2 53
    · rw [Nat.sub_eq_zero_of_le (Nat.le_of_lt_succ hsmall), pow_zero]
      omega
    · have hz : a - b ≠ 0 := fun hc => by
        rw [hc] at hlarge
        exact absurd hlarge (by decide)
      have hlog := Nat.log2_self_le hz
      rw [show (a - b).log2 = (a - b).log2 - 52 + 52 by omega, pow_add] at hlog
      omega
  omega

theorem Rounds.eq {a b v : Nat} (h : Rounds (a - b) v) (hb : 0 < b) (hle : 2 ^ 55 * b ≤ a)
    (hdvd : 2 ^ dropped (a - b) ∣ a) : v = a := by
  obtain ⟨r, hnear, rfl⟩ := h
  obtain ⟨q, hq⟩ := hdvd
  have hrq : r ≤ q := hnear.le (by rw [mul_comm, ← hq]; exact Nat.sub_le a b)
  have hupper := hnear.upper
  have hz : a - b ≠ 0 := by omega
  have hlog : 54 ≤ (a - b).log2 := (Nat.le_log2 hz).mpr (by omega)
  have hbelow : a - b < 2 ^ 53 * 2 ^ dropped (a - b) := by
    rw [← pow_add, show 53 + dropped (a - b) = (a - b).log2 + 1 by unfold dropped; omega]
    exact Nat.lt_log2_self
  generalize 2 ^ dropped (a - b) = p at hq hupper hbelow ⊢
  -- less than half of the last place kept is taken away
  have hplace : 2 * b < p := by omega
  have hqr : q < r + 1 := by
    refine Nat.lt_of_mul_lt_mul_left (a := p) ?_
    rw [← hq]
    linarith [Nat.sub_add_cancel (show b ≤ a by omega)]
  rw [hq, le_antisymm hrq (Nat.le_of_lt_succ hqr), mul_comm]

theorem Canonical.dvd_units (h : Canonical m e) {u : Nat} (hu : u ≤ units m e) :
    2 ^ dropped u ∣ units m e := by
  refine (Nat.pow_dvd_pow 2 ?_).mul_left m
  unfold dropped
  obtain rfl | hz := Nat.eq_zero_or_pos u
  · exact Nat.zero_le _
  · have hlog : u.log2 < 53 + (e + 1074).toNat := by
      refine (Nat.log2_lt hz.ne').mpr (hu.trans_lt ?_)
      rw [pow_add]
      exact Nat.mul_lt_mul_of_pos_right h.below (Nat.two_pow_pos _)
    omega

theorem Positive.size_sub_lt (hc : Positive c) (ht : t.isFinite) (h : c ≤ t)
    (hlt : size t < 2 ^ 53 * size c) : Nonneg (t - c) ∧ size (t - c) < size t := by
  obtain ⟨v, hrounds, hv⟩ := hc.sub_nearest ht h
  have hless := hrounds.lt hc.size_pos (hc.size_le ht h) hlt
  obtain ⟨hnonneg, heq⟩ := hv hless.le
  exact ⟨hnonneg, heq ▸ hless⟩

theorem Positive.size_sub_eq (hc : Positive c) (ht : Nonneg t) (hle : 2 ^ 55 * size c ≤ size t) :
    Nonneg (t - c) ∧ size (t - c) = size t := by
  have hpos := hc.size_pos
  have h : c ≤ t := hc.le_of_size_lt ht (by omega)
  obtain ⟨v, hrounds, hv⟩ := hc.sub_nearest ht.isFinite h
  have hdvd : 2 ^ dropped (size t - size c) ∣ size t := by
    obtain ⟨m, e, hm, hu, hcanonical⟩ := (hc.of_le ht.isFinite h).unpack
    rw [size_of_unpack hu]
    exact hcanonical.dvd_units (Nat.sub_le ..)
  have hsame := hrounds.eq hpos hle hdvd
  exact hsame ▸ hv hsame.le

/-! ### Twice a double -/

theorem unpack_two : (2.0 : Float).toModel.unpack =
    .finite .positive (2 ^ 52) (-51) (by decide) := by
  have htwo : (2.0 : Float) = Float.ofBits 0x4000000000000000 := by decide +kernel
  rw [htwo]
  rfl

theorem Canonical.mul_two (h : Canonical n f) (hn : 0 < n) : ∃ (i : Nat) (g : Int) (hi : 0 < i),
    UnpackedFloat.mul .binary64 (.finite .positive (2 ^ 52) (-51) (by decide))
      (.finite .positive n f hn) = .finite .positive i g hi ∧
    Fits i g ∧ units i g = 2 * units n f := by
  have htwice : 2 * units n f = units (n * 2 ^ 1) f := by
    unfold units
    ring
  have hlog : (2 ^ 52 * n).log2 = n.log2 + 52 := by rw [mul_comm, log2_mul_pow hn]
  have hone : 1 ≤ n := hn
  rw [htwice]
  obtain hshort | hfull := Nat.lt_or_ge n (2 ^ 52)
  · obtain rfl : f = -1074 := h.normal.resolve_left (not_le.mpr hshort)
    have hsmall : n.log2 < 52 := (Nat.log2_lt hn.ne').mpr hshort
    obtain ⟨r, i, g, hi, hround, hnear, hfits, hunits⟩ :=
      roundWithAccuracy_nearest .positive (m := 2 ^ 52 * n) (e := -51 + -1074) (k := 51)
        (by omega) (by omega)
    rw [show 2 ^ 52 * n = n * 2 ^ 1 * 2 ^ 51 by ring] at hnear
    obtain rfl := hnear.eq_of_mul
    exact ⟨i, g, hi, hround, hfits, hunits⟩
  · have hlarge : n.log2 = 52 := (Nat.log2_eq_iff hn.ne').mpr ⟨hfull, h.below⟩
    have hleast := h.least
    obtain ⟨r, i, g, hi, hround, hnear, hfits, hunits⟩ :=
      roundWithAccuracy_nearest .positive (m := 2 ^ 52 * n) (e := -51 + f) (k := 52)
        (by omega) (by omega)
    rw [mul_comm] at hnear
    obtain rfl := hnear.eq_of_mul
    refine ⟨i, g, hi, hround, hfits, ?_⟩
    rw [hunits, units_mul_pow _ hleast]
    congr 1
    omega

theorem Positive.unpack_two_mul (hc : Positive c) : ∃ (i : Nat) (g : Int) (hi : 0 < i),
    (2.0 * c).toModel.unpack = (Float.Model.pack (.finite .positive i g hi)).unpack ∧
    Fits i g ∧ units i g = 2 * size c := by
  obtain ⟨n, f, hn, hu, hcanonical⟩ := hc.unpack
  obtain ⟨i, g, hi, hmul, hfits, hunits⟩ := hcanonical.mul_two hn
  refine ⟨i, g, hi, ?_, hfits, ?_⟩
  · rw [← hmul, ← hu, ← unpack_two]
    rfl
  · rw [size_of_unpack hu, hunits]

theorem Positive.two_mul (hc : Positive c) (ht : t.isFinite) (h : 2.0 * c ≤ t) :
    Positive (2.0 * c) ∧ size (2.0 * c) = 2 * size c := by
  obtain ⟨i, g, hi, hproduct, hfits, hunits⟩ := hc.unpack_two_mul
  obtain hlarge | hmost := lt_or_ge 971 g
  · -- an infinity is not below a finite double
    have hfin : t.toModel.unpack.isFinite := ht
    rw [unpack_pack_large _ hi hlarge] at hproduct
    rw [le_iff, Float.Model.compare, hproduct] at h
    rcases hv : t.toModel.unpack with s | _ | s | ⟨s, m, e, hm⟩ <;> rw [hv] at h hfin
    · cases hfin
    · cases hfin
    · cases h
    · cases s <;> cases h
  · rw [unpack_pack _ (hfits.canonical hmost)] at hproduct
    exact ⟨positive_of_unpack hproduct, (size_of_unpack hproduct).trans hunits⟩

theorem Positive.two_mul_of_size_le (hc : Positive c) (ht : Positive t)
    (h : 2 * size c ≤ size t) : Positive (2.0 * c) ∧ size (2.0 * c) = 2 * size c := by
  obtain ⟨i, g, hi, hproduct, hfits, hunits⟩ := hc.unpack_two_mul
  obtain ⟨m, e, hm, hu, hcanonical⟩ := ht.unpack
  rw [size_of_unpack hu, ← hunits] at h
  rw [unpack_pack _ (hfits.canonical_of_le hcanonical h)] at hproduct
  exact ⟨positive_of_unpack hproduct, (size_of_unpack hproduct).trans hunits⟩

end Doubles

end Soundscape
