import Soundscape.Proofs.Number.Scientific

/-!
# The shortest decimal of a double

The search for the shortest decimal goes from one power-of-ten grid to the next finer one, a limited
number of times.  That is enough (`Shortest.fine_of_canonical`): a grid as fine as the quarters of
the last place has a point in every interval.  So the shortest decimal lies in the interval of its
double (`Shortest.owns_shortest`).
-/

namespace Soundscape

def Decimal.toRat (d : Decimal) : Rat := d.digits * 10 ^ d.exponent

namespace Shortest

variable {i : Interval} {g : Grid} {tie : Tie} {c turns : Nat} {q j : Int}

theorem Interval.Covers.of_holds (h : i.holds g c) (hq : 0 < g.quarter) :
    i.Covers (c * (g.step / g.quarter)) := by
  have hq' : (0 : Rat) < g.quarter := by exact_mod_cast hq
  have hle : i.low * g.quarter ≤ c * g.step ∧ c * g.step ≤ i.high * g.quarter ∧
      (i.closed = false → i.low * g.quarter ≠ c * g.step ∧ c * g.step ≠ i.high * g.quarter) := by
    unfold holds at h
    cases hi : i.closed with
    | true =>
      rw [if_pos hi] at h
      simpa using h
    | false =>
      rw [if_neg (by simp [hi])] at h
      have h : i.low * g.quarter < c * g.step ∧ c * g.step < i.high * g.quarter := by simpa using h
      exact ⟨h.1.le, h.2.le, fun _ => ⟨h.1.ne, h.2.ne⟩⟩
  rw [← mul_div_assoc]
  refine ⟨?_, ?_, fun hi => ?_⟩
  · rw [le_div_iff₀ hq']
    exact_mod_cast hle.1
  · rw [div_le_iff₀ hq']
    exact_mod_cast hle.2.1
  · rw [Ne, Ne, eq_div_iff hq'.ne', div_eq_iff hq'.ne']
    exact_mod_cast hle.2.2 hi

theorem zpow_eq_div {x : Rat} (hx : x ≠ 0) (j : Int) :
    x ^ j = x ^ j.toNat / x ^ (-j).toNat := by
  rw [← zpow_natCast, ← zpow_natCast, ← zpow_sub₀ hx]
  congr 1
  omega

theorem Grid.ratio (q j : Int) :
    ((Grid.of q j).step / (Grid.of q j).quarter : Rat) = 10 ^ j / 2 ^ (q - 2) := by
  have hstep : (Grid.of q j).step = 10 ^ j.toNat * 2 ^ (2 - q).toNat := rfl
  have hquarter : (Grid.of q j).quarter = 10 ^ (-j).toNat * 2 ^ (q - 2).toNat := rfl
  have hneg : 2 - q = -(q - 2) := by omega
  rw [hstep, hquarter, zpow_eq_div (by norm_num) j, zpow_eq_div two_ne_zero (q - 2), hneg]
  push_cast
  field_simp

theorem Grid.quarter_pos (q j : Int) : 0 < (Grid.of q j).quarter :=
  Nat.mul_pos (Nat.pow_pos (by decide)) (Nat.pow_pos (by decide))

theorem Grid.step_pos (q j : Int) : 0 < (Grid.of q j).step :=
  Nat.mul_pos (Nat.pow_pos (by decide)) (Nat.pow_pos (by decide))

/-! ### The search -/

theorem choose_cases (tie : Tie) (c : Nat) : tie.choose c = c ∨ tie.choose c = c + 1 := by
  cases tie with
  | up => exact .inr rfl
  | toEven =>
    unfold Tie.choose
    dsimp only
    split
    · exact .inl rfl
    · exact .inr rfl

theorem holds_of_nearest? (h : i.nearest? g tie = some c) : i.holds g c := by
  unfold Interval.nearest? at h
  dsimp only at h
  split at h
  · cases h
  · next hfirst _ =>
    cases h
    exact hfirst
  · next _ hsecond =>
    cases h
    exact hsecond
  · next hfirst hsecond =>
    cases h
    split
    · exact hfirst
    · split
      · exact hsecond
      · obtain hc | hc := choose_cases tie (i.value * g.quarter / g.step) <;> rw [hc]
        · exact hfirst
        · exact hsecond

/-- An interval with its value well inside it. -/
structure Interval.Wide (i : Interval) : Prop where
  below : i.low < i.value
  above : i.value + 1 < i.high

theorem isSome_nearest? (hi : i.Wide) (hg : 0 < g.step) (hfine : g.step ≤ g.quarter) (tie : Tie) :
    (i.nearest? g tie).isSome := by
  have habove : i.value * g.quarter < (i.value * g.quarter / g.step + 1) * g.step :=
    Nat.lt_div_mul_add hg |>.trans_eq (Nat.succ_mul ..).symm
  have hbelow : i.value * g.quarter / g.step * g.step ≤ i.value * g.quarter := Nat.div_mul_le_self ..
  have hlow : i.low * g.quarter ≤ i.value * g.quarter := Nat.mul_le_mul_right _ hi.below.le
  have hhigh : i.value * g.quarter + g.quarter < i.high * g.quarter := by
    rw [← Nat.succ_mul]
    exact Nat.mul_lt_mul_of_pos_right hi.above (hg.trans_le hfine)
  have hsecond : i.holds g (i.value * g.quarter / g.step + 1) := by
    rw [Nat.succ_mul] at habove
    unfold Interval.holds
    rw [Nat.succ_mul]
    split <;> simp only [Bool.and_eq_true, decide_eq_true_eq] <;> omega
  unfold Interval.nearest?
  dsimp only
  rw [hsecond]
  split <;> simp_all

/-- The search ends at a point of the interval, if it gets as far as a grid that is fine enough. -/
theorem search_holds (hi : i.Wide) (turns : Nat) {j : Int}
    (hfine : (Grid.of q (j - turns)).step ≤ (Grid.of q (j - turns)).quarter) (tie : Tie) :
    let d := search tie i q (turns + 1) j
    i.holds (Grid.of q d.exponent) d.digits ∧ j - turns ≤ d.exponent := by
  induction turns generalizing j with
  | zero =>
    rw [Nat.cast_zero, sub_zero] at hfine ⊢
    obtain ⟨c, hc⟩ :=
      Option.isSome_iff_exists.mp (isSome_nearest? hi (Grid.step_pos q j) hfine tie)
    unfold search
    rw [hc]
    exact ⟨holds_of_nearest? hc, le_rfl⟩
  | succ turns ih =>
    unfold search
    cases hc : i.nearest? (Grid.of q j) tie with
    | some c => exact ⟨holds_of_nearest? hc, sub_le_self j (Int.natCast_nonneg _)⟩
    | none =>
      have hnext : j - (turns + 1 : Nat) = j - 1 - turns := by push_cast; ring
      rw [hnext] at hfine ⊢
      exact ih hfine

/-! ### The grids of a double -/

variable {m : Nat}

theorem wide_of (hm : 0 < m) (q : Int) : (Interval.of m q).Wide where
  below := by
    show 4 * m - _ < 4 * m
    split <;> omega
  above := Nat.lt_succ_self _

open Doubles (Canonical Owns ten_pow_le two_pow_le)

/-- The search gets as far as a grid that is fine enough. -/
theorem fine_of_canonical (h : Canonical m q) :
    (Grid.of q (coarse m q - 39)).step ≤ (Grid.of q (coarse m q - 39)).quarter := by
  have hlog := h.log2_le
  have hleast := h.least
  have hmost := h.most
  obtain ⟨j, hj⟩ : ∃ j, coarse m q - 39 = j := ⟨_, rfl⟩
  rw [hj]
  unfold coarse at hj
  show 10 ^ j.toNat * 2 ^ (2 - q).toNat ≤ 10 ^ (-j).toNat * 2 ^ (q - 2).toNat
  obtain hq | hq := le_or_gt 2 q
  · have hzero : (2 - q).toNat = 0 := by omega
    rw [hzero, pow_zero, mul_one]
    exact (ten_pow_le (by omega)).trans (Nat.le_mul_of_pos_left _ (by positivity))
  · have hzero : j.toNat = 0 := by omega
    rw [hzero, pow_zero, one_mul]
    exact (two_pow_le (by omega)).trans (Nat.le_mul_of_pos_right _ (by positivity))

/-- The shortest decimal lies in the interval of its double. -/
theorem owns_shortest (h : Canonical m q) (tie : Tie) :
    Owns m q (Decimal.shortest tie m q).toRat ∧ -400 ≤ (Decimal.shortest tie m q).exponent := by
  obtain ⟨hholds, hexponent⟩ := search_holds (wide_of h.pos q) 39 (fine_of_canonical h) tie
  have hcovers := Interval.Covers.of_holds hholds (Grid.quarter_pos _ _)
  rw [Grid.ratio, ← mul_div_assoc] at hcovers
  have hleast := h.least
  refine ⟨hcovers, le_trans ?_ hexponent⟩
  unfold coarse
  omega

end Shortest

end Soundscape
