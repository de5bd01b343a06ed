import Mathlib.Tactic.Linarith
import Mathlib.Tactic.Ring
import Soundscape.Ease
import Soundscape.Proofs.Number.Exact

/-!
# Reflected curves

A shape that is slow at the end is the one that is slow at the start, turned about the middle of the
unit square, and the one that is slow at both ends is its own image (`PointSymmetric`); a return
curve reads the same backwards.  The two sides of such an equation take different branches of the
formulas, which meet at the middle of the interval.  All of this holds at every number, also outside
of the unit interval (`apply_reflected`).
-/

namespace Soundscape

namespace Ease

open RealFunctions

section Arithmetic

variable {α : Type} [ExactScalar α]

/-! ## Formulas without decimals -/

theorem square_eq : (square : α → α) = fun t => t ^ (1 + 1) := by
  funext t
  rw [square]
  ring

theorem cube_eq : (cube : α → α) = fun t => t ^ (2 + 1) := by
  funext t
  rw [cube]
  ring

theorem fourth_eq : (fourth : α → α) = fun t => t ^ (3 + 1) := by
  funext t
  rw [fourth, square, square]
  ring

theorem fifth_eq : (fifth : α → α) = fun t => t ^ (4 + 1) := by
  funext t
  rw [fifth, fourth, square, square]
  ring

theorem powered_slowEnd (p : α → α) (k t : α) : powered p k t .slowEnd = 1 - p (1 - t) := by
  simp only [powered, ExactScalar.decimal_eq]
  norm_num

theorem powered_slowEnds (p : α → α) (k t : α) :
    powered p k t .slowEnds = if t < 1 / 2 then k * p t else 1 - p (2 * (1 - t)) / 2 := by
  have hshare : -(2 * t) + 2 = 2 * (1 - t) := by ring
  simp only [powered, ExactScalar.decimal_eq]
  norm_num [hshare]

theorem overshooting_slowEnds (t : α) :
    overshooting t .slowEnds =
      if t < 1 / 2 then
        (2 * t) ^ 2 * ((halfOvershoot + 1) * (2 * t) - halfOvershoot) / 2
      else
        ((2 * t - 2) ^ 2 * ((halfOvershoot + 1) * (2 * t - 2) + halfOvershoot) + 2) / 2 := by
  simp only [overshooting, ExactScalar.decimal_eq, square]
  norm_num
  ring_nf

theorem bounceOut_eq (t : α) :
    bounceOut t =
      if t < 4 / 11 then 121 / 16 * t ^ 2
      else if t < 8 / 11 then 121 / 16 * (t - 6 / 11) ^ 2 + 3 / 4
      else if t < 10 / 11 then 121 / 16 * (t - 9 / 11) ^ 2 + 15 / 16
      else 121 / 16 * (t - 21 / 22) ^ 2 + 63 / 64 := by
  simp only [bounceOut, ExactScalar.decimal_eq]
  norm_num
  simp only [mul_assoc, ← sq]

theorem bounceOut_zero : bounceOut (0 : α) = 0 := by
  rw [bounceOut_eq, if_pos (by norm_num)]
  norm_num

theorem bouncing_slowStart (t : α) : bouncing t .slowStart = 1 - bounceOut (1 - t) := by
  simp only [bouncing, ExactScalar.decimal_eq]
  norm_num

theorem bouncing_slowEnds (t : α) :
    bouncing t .slowEnds =
      if t < 1 / 2 then (1 - bounceOut (1 - 2 * t)) / 2 else (1 + bounceOut (2 * t - 1)) / 2 := by
  simp only [bouncing, ExactScalar.decimal_eq]
  norm_num

theorem outAndBack_eq (f : α → α) (t : α) :
    outAndBack f t = if t ≤ 1 / 2 then f (2 * t) else f (2 * (1 - t)) := by
  simp only [outAndBack, ExactScalar.decimal_eq]
  norm_num

/-! ## Images about the middle -/

/-- Slow at the end is slow at the start, and slow at both ends is itself, turned about the middle
of the unit square. -/
structure PointSymmetric (curve : α → Way → α) : Prop where
  slowEnd (t : α) : curve t .slowEnd = 1 - curve (1 - t) .slowStart
  slowEnds (t : α) : curve t .slowEnds + curve (1 - t) .slowEnds = 1

/-- A curve of two halves, of which the second is the image of the first, is its own image; at the
middle it is the second half that counts. -/
theorem halves_add {curve first second : α → α}
    (hcurve : ∀ t, curve t = if t < 1 / 2 then first t else second t)
    (himage : ∀ t, second (1 - t) = 1 - first t) (hmiddle : second (1 / 2) = 1 / 2) (t : α) :
    curve t + curve (1 - t) = 1 := by
  have hsum : ∀ u < (1 / 2 : α), curve u + curve (1 - u) = 1 := by
    intro u hu
    rw [hcurve, hcurve, if_pos hu, if_neg (by linarith), himage, add_sub_cancel]
  rcases lt_trichotomy t (1 / 2) with h | rfl | h
  · exact hsum t h
  · rw [hcurve, hcurve, sub_half, if_neg (lt_irrefl _), hmiddle, add_halves]
  · have hother := hsum (1 - t) (by linarith)
    rwa [sub_sub_cancel, add_comm] at hother

theorem pointSymmetric_powered (n : Nat) :
    PointSymmetric (powered (fun u : α => u ^ (n + 1)) (2 ^ n)) where
  slowEnd := powered_slowEnd _ _
  slowEnds := by
    refine halves_add (powered_slowEnds _ _) (fun t => ?_) ?_
    · rw [sub_sub_cancel]
      ring
    · norm_num

theorem pointSymmetric_overshooting : PointSymmetric (overshooting (α := α)) where
  slowEnd t := by
    simp only [overshooting, ExactScalar.decimal_eq, cube, square]
    norm_num
    ring
  slowEnds := by
    refine halves_add overshooting_slowEnds (fun t => ?_) ?_
    · ring
    · ring

theorem pointSymmetric_bouncing : PointSymmetric (bouncing (α := α)) where
  slowEnd t := by
    rw [bouncing_slowStart, sub_sub_cancel, sub_sub_cancel]
    rfl
  slowEnds := by
    refine halves_add bouncing_slowEnds (fun t => ?_) ?_
    · rw [show 2 * (1 - t) - 1 = 1 - 2 * t by ring]
      ring
    · rw [show (2 * (1 / 2) - 1 : α) = 0 by ring, bounceOut_zero, add_zero]

theorem outAndBack_one_sub (f : α → α) (t : α) : outAndBack f (1 - t) = outAndBack f t := by
  rw [outAndBack_eq, outAndBack_eq, sub_sub_cancel]
  rcases lt_trichotomy t (1 / 2) with h | rfl | h
  · rw [if_neg (by linarith), if_pos h.le]
  · rw [sub_half]
  · rw [if_pos (by linarith), if_neg (not_le.mpr h)]

end Arithmetic

section Shapes

variable {α : Type} [ExactScalar α] [RealFunctions α]

/-! ## The quarter circle -/

theorem circular_slowStart (t : α) : circular t .slowStart = 1 - root (1 - t ^ 2) := by
  simp only [circular, square, ExactScalar.decimal_eq, ← sq]
  norm_num

theorem circular_slowEnd (t : α) : circular t .slowEnd = root (1 - (1 - t) ^ 2) := by
  have hsquare : (t - 1) * (t - 1) = (1 - t) ^ 2 := by ring
  simp only [circular, square, ExactScalar.decimal_eq]
  norm_num [hsquare]

theorem circular_slowEnds (t : α) :
    circular t .slowEnds =
      if t < 1 / 2 then (1 - root (1 - (2 * t) ^ 2)) / 2
      else (root (1 - (2 * (1 - t)) ^ 2) + 1) / 2 := by
  have hshare : -(2 * t) + 2 = 2 * (1 - t) := by ring
  simp only [circular, square, ExactScalar.decimal_eq, ← sq]
  norm_num [hshare]

theorem root_zero (hroot : sqrt (0 : α) = 0) : root (0 : α) = 0 := by
  rw [root, ExactScalar.larger_self, hroot]

/-- The two halves of the arc meet at the middle only if zero is its own root. -/
theorem pointSymmetric_circular (hroot : sqrt (0 : α) = 0) :
    PointSymmetric (circular (α := α)) where
  slowEnd t := by rw [circular_slowEnd, circular_slowStart, sub_sub_cancel]
  slowEnds := by
    refine halves_add circular_slowEnds (fun t => ?_) ?_
    · rw [sub_sub_cancel]
      ring
    · rw [show (1 - (2 * (1 - 1 / 2)) ^ 2 : α) = 0 by ring, root_zero hroot, zero_add]

/-! ## Shapes -/

/-- The shapes that start as a power of the share. -/
def powers : List Shape := [.quad, .cubic, .quart, .quint]

/-- The shapes whose directions are images of each other. -/
def reflected : List Shape := powers ++ [.circ, .back, .bounce]

theorem exists_power {shape : Shape} (h : shape ∈ powers) :
    ∃ n : Nat, (fun (t : α) way => (shaped way shape).apply t) =
      powered (fun u => u ^ (n + 1)) (2 ^ n) := by
  have hfactors : (2.0 : α) = 2 ^ 1 ∧ (4.0 : α) = 2 ^ 2 ∧ (8.0 : α) = 2 ^ 3 ∧
      (16.0 : α) = 2 ^ 4 := by
    simp only [ExactScalar.decimal_eq]
    norm_num
  obtain ⟨htwo, hfour, height, hsixteen⟩ := hfactors
  simp only [powers, List.mem_cons, List.not_mem_nil, or_false] at h
  rcases h with rfl | rfl | rfl | rfl
  · exact ⟨1, by rw [← square_eq, ← htwo]; rfl⟩
  · exact ⟨2, by rw [← cube_eq, ← hfour]; rfl⟩
  · exact ⟨3, by rw [← fourth_eq, ← height]; rfl⟩
  · exact ⟨4, by rw [← fifth_eq, ← hsixteen]; rfl⟩

theorem pointSymmetric_apply (hroot : sqrt (0 : α) = 0) {shape : Shape} (h : shape ∈ reflected) :
    PointSymmetric fun (t : α) way => (shaped way shape).apply t := by
  rw [reflected, List.mem_append] at h
  rcases h with h | h
  · obtain ⟨n, hn⟩ := exists_power (α := α) h
    rw [hn]
    exact pointSymmetric_powered n
  · simp only [List.mem_cons, List.not_mem_nil, or_false] at h
    rcases h with rfl | rfl | rfl
    · exact pointSymmetric_circular hroot
    · exact pointSymmetric_overshooting
    · exact pointSymmetric_bouncing

/-- At every number, a shape that is slow at the end is the image of the one that is slow at the
start, the one that is slow at both ends is its own image, and a return curve reads the same
backwards, whatever its way out. -/
theorem apply_reflected (hroot : sqrt (0 : α) = 0) (t : α) :
    (∀ shape ∈ reflected,
      (shaped .slowEnd shape).apply t = 1 - (shaped .slowStart shape).apply (1 - t) ∧
      (shaped .slowEnds shape).apply t + (shaped .slowEnds shape).apply (1 - t) = 1) ∧
    ∀ f : α → α, outAndBack f t = outAndBack f (1 - t) := by
  refine ⟨fun shape h => ?_, fun f => (outAndBack_one_sub f t).symm⟩
  have hsymmetric := pointSymmetric_apply hroot h
  exact ⟨hsymmetric.slowEnd t, hsymmetric.slowEnds t⟩

end Shapes

/-- The square root of a fraction that is a square of one. -/
def squareRoot (x : Rat) : Rat := mkRat x.num.toNat.sqrt x.den.sqrt

/-- Two points of the quarter circle, with the sides three, four and five. -/
theorem apply_reflected_quarterCircle :
    let _ : RealFunctions Rat := ⟨squareRoot, id, fun _ => 1, fun x => x + 1, 22 / 7⟩
    sqrt (0 : Rat) = 0 ∧
    (shaped .slowEnd .circ).apply (2 / 5 : Rat) =
      1 - (shaped .slowStart .circ).apply (1 - 2 / 5 : Rat) ∧
    (shaped .slowEnds .circ).apply (3 / 10 : Rat) +
      (shaped .slowEnds .circ).apply (1 - 3 / 10 : Rat) = 1 ∧
    ((shaped .slowEnd .circ).apply (2 / 5 : Rat), (shaped .slowEnds .circ).apply (3 / 10 : Rat)) =
      (4 / 5, 1 / 10) := by
  intro _
  have hroot : sqrt (0 : Rat) = 0 := by decide +kernel
  let _ := Fraction.exact
  have hend := ((apply_reflected hroot (2 / 5)).1 .circ (by decide)).1
  have hends := ((apply_reflected hroot (3 / 10)).1 .circ (by decide)).2
  exact ⟨hroot, hend, hends, by decide +kernel⟩

end Ease

end Soundscape
