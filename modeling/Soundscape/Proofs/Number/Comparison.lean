import Mathlib.Algebra.Order.Field.Rat
import Soundscape.Number.Scalar

/-!
# Comparing numbers

Doubles are not in a linear order, since what is no number compares with nothing, and two zeros are
the same.  What reading and drawing need holds all the same, of doubles and of exact fractions:
`Scalar.Ordered`.
-/

namespace Soundscape

/-- Strictly below is below and not above, and numbers a finite distance apart can be compared. -/
class Scalar.Ordered (α : Type) [Scalar α] : Prop where
  lt_iff (a b : α) : a < b ↔ a ≤ b ∧ ¬ b ≤ a
  le_or_le {a b : α} : isFinite (b - a) → a ≤ b ∨ b ≤ a

instance : Scalar.Ordered Rat where
  lt_iff _ _ := lt_iff_le_not_ge
  le_or_le {a b} _ := le_total a b

/-! ## Doubles -/

namespace Doubles

open Float.Model (UnpackedFloat)

theorem swap_then_compare (e f : Int) (m n : Nat) :
    ((compare e f).then (compare m n)).swap = (compare f e).then (compare n m) := by
  rw [Ordering.swap_then, Std.OrientedOrd.eq_swap (a := f), Std.OrientedOrd.eq_swap (a := n)]

theorem compare_swap (a b : UnpackedFloat) : b.compare a = (a.compare b).map Ordering.swap := by
  cases a with
  | notANumber => cases b <;> rfl
  | infinity s =>
    cases b with
    | infinity t => cases s <;> cases t <;> rfl
    | _ => cases s <;> rfl
  | zero s =>
    cases b with
    | infinity t => cases t <;> rfl
    | finite t n f hn => cases t <;> rfl
    | _ => rfl
  | finite s m e hm =>
    cases b with
    | notANumber => rfl
    | infinity t => cases t <;> rfl
    | zero t => cases s <;> rfl
    | finite t n f hn =>
      cases s <;> cases t
      · exact congrArg (fun o => some o.swap) (swap_then_compare e f m n).symm
      · rfl
      · rfl
      · exact congrArg some (swap_then_compare e f m n).symm

theorem le_iff (a b : Float) : a ≤ b ↔ (a.toModel.compare b.toModel).any (·.isLE) := by
  show a.le b = true ↔ _
  unfold Float.le
  rw [decide_eq_true_iff]
  rfl

theorem lt_iff (a b : Float) : a < b ↔ a.toModel.compare b.toModel = some .lt := by
  show a.lt b = true ↔ _
  unfold Float.lt
  rw [decide_eq_true_iff]
  exact beq_iff_eq

theorem isNumber_of_isFinite_sub {a b : Float} (h : (b - a).isFinite) :
    a.toModel.unpack ≠ .notANumber ∧ b.toModel.unpack ≠ .notANumber := by
  have hnan : (Float.Model.pack .notANumber).isFinite = false := by decide
  have hsub : (b - a).isFinite = (Float.Model.pack
      (UnpackedFloat.sub .binary64 b.toModel.unpack a.toModel.unpack)).isFinite := rfl
  rw [hsub] at h
  refine ⟨fun ha => ?_, fun hb => ?_⟩
  · have hx : UnpackedFloat.sub .binary64 b.toModel.unpack .notANumber = .notANumber := by
      cases b.toModel.unpack <;> rfl
    rw [ha, hx, hnan] at h
    cases h
  · have hx : UnpackedFloat.sub .binary64 .notANumber a.toModel.unpack = .notANumber := rfl
    rw [hb, hx, hnan] at h
    cases h

theorem isSome_compare {a b : UnpackedFloat} (ha : a ≠ .notANumber) (hb : b ≠ .notANumber) :
    (a.compare b).isSome := by
  cases b with
  | notANumber => exact absurd rfl hb
  | infinity t =>
    cases a with
    | notANumber => exact absurd rfl ha
    | infinity s => rfl
    | _ => cases t <;> rfl
  | zero t =>
    cases a with
    | notANumber => exact absurd rfl ha
    | zero s => rfl
    | infinity s => cases s <;> rfl
    | finite s m e hm => cases s <;> rfl
  | finite t n f hn =>
    cases a with
    | notANumber => exact absurd rfl ha
    | infinity s => cases s <;> rfl
    | zero s => cases t <;> rfl
    | finite s m e hm => cases s <;> cases t <;> rfl

end Doubles

instance : Scalar.Ordered Float where
  lt_iff a b := by
    rw [Doubles.lt_iff, Doubles.le_iff, Doubles.le_iff, Float.Model.compare, Float.Model.compare,
      Doubles.compare_swap a.toModel.unpack]
    cases a.toModel.unpack.compare b.toModel.unpack with
    | none => simp
    | some o => cases o <;> simp
  le_or_le {a b} h := by
    obtain ⟨ha, hb⟩ := Doubles.isNumber_of_isFinite_sub h
    obtain ⟨o, ho⟩ := Option.isSome_iff_exists.mp (Doubles.isSome_compare ha hb)
    rw [Doubles.le_iff, Doubles.le_iff, Float.Model.compare, Float.Model.compare,
      Doubles.compare_swap a.toModel.unpack, ho]
    cases o <;> simp

end Soundscape
