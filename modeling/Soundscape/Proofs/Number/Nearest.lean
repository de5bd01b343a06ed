import Soundscape.Proofs.Number.Width

/-!
# The nearest double

Rounding keeps the upper 53 places of a number, and is off by half of the last place kept at most.
The sticky bit and the round bit are all that it needs to know of the places shifted out
(`Doubles.Splits`).  With numbers counted in `Doubles.units`, how many times the least positive
double goes into them, it makes no difference how a number is written (`Doubles.round_nearest`).
-/

namespace Soundscape

namespace Doubles

open Float.Model (Format UnpackedFloat totalExponent)
open Float.Model.UnpackedFloat (Sign Accuracy ExtendedMantissa shiftToTargetExponent shiftToExponent
  roundWithAccuracy decreaseExponent)

variable {m n k r : Nat} {e f : Int}

/-! ### Places shifted out -/

/-- A significand and the `k` places shifted out of it: the round bit is the first of them, and the
sticky bit tells whether any other is set. -/
def Splits (m k : Nat) (x : ExtendedMantissa) : Prop :=
  ∃ rest < 2 ^ k, 2 * m = (2 * x.mantissa + x.roundBit.toNat) * 2 ^ k + rest ∧
    (x.stickyBit = true ↔ rest ≠ 0)

theorem splits_exact (m : Nat) : Splits m 0 (.ofMantissaAndAccuracy m .exact) :=
  ⟨0, Nat.one_pos, (mul_one (2 * m)).symm, iff_of_false Bool.false_ne_true (not_not_intro rfl)⟩

theorem Splits.shiftRightOne {x : ExtendedMantissa} (h : Splits m k x) :
    Splits m (k + 1) x.shiftRightOne := by
  obtain ⟨q, b, t⟩ := x
  obtain ⟨rest, hlt, hsum, hsticky⟩ := h
  have hlast : (q % 2 != 0).toNat = q % 2 := by
    obtain hq | hq := Nat.mod_two_eq_zero_or_one q <;> rw [hq] <;> rfl
  have hone : 0 < 2 ^ k := Nat.two_pow_pos k
  -- the round bit joins the places after it, and the last place becomes the round bit
  refine ⟨b.toNat * 2 ^ k + rest, ?_, ?_, ?_⟩
  · have hb : b.toNat * 2 ^ k ≤ 1 * 2 ^ k := Nat.mul_le_mul_right _ b.toNat_le
    rw [pow_succ]
    omega
  · dsimp only at hsum
    dsimp only [ExtendedMantissa.shiftRightOne]
    rw [hsum, hlast, Nat.div_add_mod, pow_succ]
    ring
  · dsimp only at hsticky
    dsimp only [ExtendedMantissa.shiftRightOne]
    cases b with
    | false => simpa using hsticky
    | true => simp

theorem splits_shiftRight (m k : Nat) :
    Splits m k (ExtendedMantissa.ofMantissaAndAccuracy m .exact >>> k) := by
  induction k with
  | zero => exact splits_exact m
  | succ k ih => exact ih.shiftRightOne

/-- A number is nearest to a significand without its last `k` places, alone or with another. -/
structure Nearest (m k r : Nat) : Prop where
  upper : 2 * m ≤ (2 * r + 1) * 2 ^ k
  lower : 2 * r * 2 ^ k ≤ 2 * m + 2 ^ k

theorem roundedMantissa_cases (q : Nat) (b t : Bool) :
    let r := ExtendedMantissa.roundedMantissa ⟨q, b, t⟩
    r = q ∧ b = false ∨ r = q ∧ b = true ∧ t = false ∨ r = q + 1 ∧ b = true := by
  cases b with
  | false => exact .inl ⟨by cases t <;> rfl, rfl⟩
  | true =>
    cases t with
    | false =>
      obtain hq | hq := Nat.mod_two_eq_zero_or_one q
      · exact .inr (.inl ⟨congrArg (q + ·) hq, rfl, rfl⟩)
      · exact .inr (.inr ⟨congrArg (q + ·) hq, rfl⟩)
    | true => exact .inr (.inr ⟨rfl, rfl⟩)

theorem Splits.nearest {x : ExtendedMantissa} (h : Splits m k x) :
    Nearest m k x.roundedMantissa := by
  obtain ⟨q, b, t⟩ := x
  obtain ⟨rest, hlt, hsum, hsticky⟩ := h
  dsimp only at hsum hsticky
  obtain ⟨hr, rfl⟩ | ⟨hr, rfl, rfl⟩ | ⟨hr, rfl⟩ := roundedMantissa_cases q b t
  · rw [Bool.toNat_false] at hsum
    constructor <;> rw [hr] <;> linarith
  · have hrest : rest = 0 := not_not.mp (mt hsticky.mpr Bool.false_ne_true)
    rw [Bool.toNat_true] at hsum
    constructor <;> rw [hr] <;> linarith
  · rw [Bool.toNat_true] at hsum
    constructor <;> rw [hr] <;> linarith

theorem Nearest.le (h : Nearest m k r) (hn : m ≤ n * 2 ^ k) : r ≤ n := by
  have hle : 2 * r * 2 ^ k ≤ (2 * n + 1) * 2 ^ k := by linarith [h.lower]
  have := Nat.le_of_mul_le_mul_right hle (Nat.two_pow_pos k)
  omega

theorem Nearest.ge (h : Nearest m k r) (hn : n * 2 ^ k ≤ m) : n ≤ r := by
  have hle : 2 * n * 2 ^ k ≤ (2 * r + 1) * 2 ^ k := by linarith [h.upper]
  have := Nat.le_of_mul_le_mul_right hle (Nat.two_pow_pos k)
  omega

theorem Nearest.eq_of_mul (h : Nearest (n * 2 ^ k) k r) : r = n :=
  le_antisymm (h.le le_rfl) (h.ge le_rfl)

theorem Nearest.mul_pow (h : Nearest m k r) (j : Nat) : Nearest (m * 2 ^ j) (k + j) r := by
  have hupper := Nat.mul_le_mul_right (2 ^ j) h.upper
  have hlower := Nat.mul_le_mul_right (2 ^ j) h.lower
  rw [add_mul] at hlower
  constructor <;> rw [pow_add, ← mul_assoc, ← mul_assoc]
  · exact hupper
  · exact hlower

/-! ### Rounding -/

/-- How many times the least positive double goes into a number. -/
def units (m : Nat) (e : Int) : Nat := m * 2 ^ (e + 1074).toNat

theorem units_mul_pow (m : Nat) {e : Int} (he : -1074 ≤ e) (j : Nat) :
    units (m * 2 ^ j) e = units m (e + j) := by
  unfold units
  rw [mul_assoc, ← pow_add]
  congr 2
  omega

theorem units_shiftLeft (m : Nat) {g : Int} (hg : -1074 ≤ g) (hle : g ≤ e) :
    units (m <<< (e - g).toNat) g = units m e := by
  rw [Nat.shiftLeft_eq, units_mul_pow _ hg]
  congr 1
  omega

theorem log2_mul_pow (hm : 0 < m) (j : Nat) : (m * 2 ^ j).log2 = m.log2 + j := by
  rw [Nat.log2_eq_iff (Nat.mul_pos hm (Nat.two_pow_pos j)).ne']
  constructor
  · rw [pow_add]
    exact Nat.mul_le_mul_right _ (Nat.log2_self_le hm.ne')
  · rw [Nat.add_right_comm, pow_add]
    exact Nat.mul_lt_mul_of_pos_right Nat.lt_log2_self (Nat.two_pow_pos j)

/-- The significand and the exponent of a number that is rounded, but may be too large. -/
structure Fits (m : Nat) (e : Int) : Prop where
  pos : 0 < m
  below : m < 2 ^ 53
  least : -1074 ≤ e
  normal : 2 ^ 52 ≤ m ∨ e = -1074

theorem Fits.canonical (h : Fits m e) (he : e ≤ 971) : Canonical m e :=
  ⟨h.pos, h.below, h.least, he, h.normal⟩

theorem Fits.canonical_of_le (h : Fits n f) (hm : Canonical m e) (hle : units n f ≤ units m e) :
    Canonical n f := by
  refine h.canonical (not_lt.mp fun hlarge => absurd hle (not_le.mpr ?_))
  have hn : 2 ^ 52 ≤ n := h.normal.resolve_right (by omega)
  have he := hm.most
  calc units m e < 2 ^ 53 * 2 ^ (e + 1074).toNat :=
        Nat.mul_lt_mul_of_pos_right hm.below (Nat.two_pow_pos _)
    _ = 2 ^ 52 * 2 ^ ((e + 1074).toNat + 1) := by ring
    _ ≤ 2 ^ 52 * 2 ^ (f + 1074).toNat :=
        Nat.mul_le_mul_left _ (Nat.pow_le_pow_right (by decide) (by omega))
    _ ≤ units n f := Nat.mul_le_mul_right _ hn

theorem shift_eq (hk : max (m.log2 + e - 52) (-1074) = e + k) (a : Accuracy) :
    shiftToTargetExponent .binary64 m e a =
      (ExtendedMantissa.ofMantissaAndAccuracy m a >>> k, e + k) := by
  have hshift : (Format.binary64.targetExponent (totalExponent m e) - e).toNat = k := by
    rw [targetExponent_eq, hk]
    omega
  unfold shiftToTargetExponent shiftToExponent
  dsimp only
  rw [hshift]

theorem roundWithAccuracy_nearest (s : Sign) (hk : max (m.log2 + e - 52) (-1074) = e + k)
    (hm : 2 ^ k ≤ m) : ∃ (r n : Nat) (f : Int) (hn : 0 < n),
      roundWithAccuracy .binary64 s m e .exact = .finite s n f hn ∧ Nearest m k r ∧
      Fits n f ∧ units n f = units r (e + k) := by
  have hr := (splits_shiftRight m k).nearest
  unfold roundWithAccuracy
  rw [shift_eq hk]
  dsimp only
  generalize (ExtendedMantissa.ofMantissaAndAccuracy m .exact >>> k).roundedMantissa = r at hr
  have hpos : 0 < r := hr.ge ((one_mul (2 ^ k)).le.trans hm)
  have hle : r ≤ 2 ^ 53 := by
    refine hr.le (Nat.lt_log2_self.le.trans ?_)
    rw [← pow_add]
    exact Nat.pow_le_pow_right (by decide) (by omega)
  have hnormal : 2 ^ 52 ≤ r ∨ e + k = -1074 := by
    by_cases hleast : e + k = -1074
    · exact .inr hleast
    · refine .inl (hr.ge (le_trans ?_ (Nat.log2_self_le ((Nat.two_pow_pos k).trans_le hm).ne')))
      rw [← pow_add]
      exact Nat.pow_le_pow_right (by decide) (by omega)
  obtain hlt | rfl := hle.lt_or_eq
  · rw [shift_of_lt hlt (by omega)]
    exact ⟨r, r, e + k, hpos, dif_neg hpos.ne', hr, ⟨hpos, hlt, by omega, hnormal⟩, rfl⟩
  · rw [shift_of_le le_rfl (by decide) (by omega)]
    refine ⟨2 ^ 53, 2 ^ 52, e + k + 1, by decide, rfl, hr,
      ⟨by decide, by decide, by omega, .inl le_rfl⟩, ?_⟩
    exact (units_mul_pow (2 ^ 52) (by omega) 1).symm

theorem round_eq (s : Sign) (m : Nat) (e : Int) {j : Nat}
    (hj : (e - max (m.log2 + e - 52) (-1074)).toNat = j) :
    UnpackedFloat.round .binary64 s m e =
      roundWithAccuracy .binary64 s (m * 2 ^ j) (e - j) .exact := by
  unfold UnpackedFloat.round decreaseExponent
  dsimp only
  rw [targetExponent_eq, hj, Nat.shiftLeft_eq]

/-- How many places rounding drops from a number of units. -/
def dropped (u : Nat) : Nat := u.log2 - 52

/-- A number of units and the one it is rounded to. -/
def Rounds (u v : Nat) : Prop := ∃ r, Nearest u (dropped u) r ∧ v = r * 2 ^ dropped u

theorem round_nearest (s : Sign) (hm : 0 < m) (he : -1074 ≤ e) :
    ∃ (n : Nat) (f : Int) (hn : 0 < n), UnpackedFloat.round .binary64 s m e = .finite s n f hn ∧
      Fits n f ∧ Rounds (units m e) (units n f) := by
  -- `j` places are filled up from below, and then `k` places are shifted out
  obtain ⟨j, hj⟩ : ∃ j, (e - max (m.log2 + e - 52) (-1074)).toNat = j := ⟨_, rfl⟩
  have hlog := log2_mul_pow hm j
  obtain ⟨i, hi⟩ : ∃ i : Nat, e - j = -1074 + i := ⟨(e - j + 1074).toNat, by omega⟩
  have hunits : units m e = m * 2 ^ j * 2 ^ i := by
    rw [mul_assoc, ← pow_add]
    unfold units
    congr 2
    omega
  obtain ⟨k, hk⟩ : ∃ k : Nat, max ((m * 2 ^ j).log2 + (e - j) - 52) (-1074) = e - j + k :=
    ⟨(max ((m * 2 ^ j).log2 + (e - j) - 52) (-1074) - (e - j)).toNat, by omega⟩
  have hplaces : dropped (units m e) = k + i := by
    rw [dropped, hunits, log2_mul_pow (Nat.mul_pos hm (Nat.two_pow_pos j))]
    omega
  have hroom : 2 ^ k ≤ m * 2 ^ j :=
    (Nat.pow_le_pow_right (by decide) (by omega)).trans
      (Nat.log2_self_le (Nat.mul_pos hm (Nat.two_pow_pos j)).ne')
  obtain ⟨r, n, f, hn, hround, hnear, hfits, hsize⟩ := roundWithAccuracy_nearest s hk hroom
  refine ⟨n, f, hn, (round_eq s m e hj).trans hround, hfits, r, ?_, ?_⟩
  · rw [hplaces, hunits]
    exact hnear.mul_pow i
  · rw [hsize, hplaces, units]
    congr 2
    omega

/-! ### Differences -/

theorem Canonical.units_le (ha : Canonical m e) (hb : Canonical n f)
    (h : (compare e f).then (compare m n) = .lt) : units m e ≤ units n f := by
  have hmin : -1074 ≤ min e f := le_min ha.least hb.least
  rw [← units_shiftLeft m hmin (min_le_left e f), ← units_shiftLeft n hmin (min_le_right e f)]
  exact Nat.mul_le_mul_right _ (ha.aligned_le hb h)

theorem Canonical.sub_eq (ha : Canonical m e) (hb : Canonical n f) (hm : 0 < m) (hn : 0 < n)
    (h : units n f ≤ units m e) : ∃ (x : Nat) (g : Int),
      UnpackedFloat.sub .binary64 (.finite .positive m e hm) (.finite .positive n f hn) =
        UnpackedFloat.normalize .binary64 x g .positive ∧
      -1074 ≤ g ∧ units x g = units m e - units n f := by
  have hmin : -1074 ≤ min e f := le_min ha.least hb.least
  have hm' := units_shiftLeft m hmin (min_le_left e f)
  have hn' := units_shiftLeft n hmin (min_le_right e f)
  obtain ⟨x, hx⟩ : ∃ x, m <<< (e - min e f).toNat = x := ⟨_, rfl⟩
  obtain ⟨y, hy⟩ : ∃ y, n <<< (f - min e f).toNat = y := ⟨_, rfl⟩
  rw [hx] at hm'
  rw [hy] at hn'
  rw [← hm', ← hn'] at h
  have hle : y ≤ x := Nat.le_of_mul_le_mul_right h (Nat.two_pow_pos _)
  refine ⟨x - y, min e f, ?_, hmin, ?_⟩
  · unfold UnpackedFloat.sub decreaseExponent
    dsimp only
    rw [hx, hy, Nat.cast_sub hle]
    rfl
  · rw [← hm', ← hn']
    exact Nat.sub_mul ..

end Doubles

end Soundscape
