import Soundscape.Proofs.Player.Alone
import Soundscape.Proofs.Player.Turns
import Soundscape.Proofs.Voice.Split

/-!
# Where a step of time is cut

A step may be cut in two at any moment.  Until the cut the whole step and its first part fire
together (`Progress.exists_last`), so they come to the same state with only waiting ahead of the
cut.
-/

namespace Soundscape

namespace Player.Progress

section Trail

variable {α β : Type} [Scalar α] [Easing α] [AudioBackend α β]

/-- The states in which the turns of a step begin, in order. -/
def trail (fallback : α) : Nat → Progress α β → List (Progress α β)
  | 0, _ => []
  | turns + 1, x => x :: match x.turn fallback with
    | (true, y) => trail fallback turns y
    | (false, _) => []

def more (d : α) (x : Progress α β) : Progress α β := { x with budget := x.budget + d }

end Trail

variable {β : Type} [AudioBackend Rat β] [Easing Rat] {fallback e : Rat} {x y : Progress Rat β}
  {n m : Nat}

/-- As long as the player fires before the cut, it makes no difference how much time comes after
it. -/
theorem turn_more (h : x.turn fallback = (true, y)) (hx : 0 ≤ x.budget) (he : 0 ≤ e)
    (hc : ∀ r ∈ x.player.wait?, ¬ Nearly (r - x.budget)) :
    (x.more e).turn fallback = (true, y.more e) := by
  obtain ⟨-, ht⟩ | ⟨r, hw, hr, ht⟩ := x.turn_cases fallback
  · rw [ht] at h
    cases h
  · rw [ht] at h
    cases h
    have hle : r ≤ x.budget := by
      refine (not_nearly (hc r hw)).resolve_right fun hlt => hr hlt
    have hclamp : Scalar.clamp r 0 (x.budget + e) = Scalar.clamp r 0 x.budget := by
      rw [Fraction.clamp_eq, Fraction.clamp_eq, min_eq_left (max_le hle hx),
        min_eq_left (max_le (by linarith) (by linarith))]
    have hdue : ¬ x.budget + e + tolerance < r :=
      not_lt.mpr (by linarith [Fraction.tolerance_pos])
    have hb : (x.more e).budget = x.budget + e := rfl
    have hrest := sub_nonneg.mpr (Fraction.clamp_le r x.budget)
    have hbudget : Scalar.larger (x.budget + e - Scalar.clamp r 0 x.budget) 0 =
        Scalar.larger (x.budget - Scalar.clamp r 0 x.budget) 0 + e := by
      rw [Fraction.larger_of_nonneg hrest, Fraction.larger_of_nonneg (by linarith)]
      ring
    have hspend : (x.more e).spend = fun dt => (x.spend dt).more e := rfl
    rw [turn_of_due (x := x.more e) hw hdue, hb, hclamp, fired_eq, fired_eq, hspend, hb, hbudget]
    rfl

/-- The last turn of a step begins in a state in which no firing lies ahead of its end, and with
more time after the cut the step comes to that state as well. -/
theorem exists_last {I : Progress Rat β → Prop} (hI : ∀ x, I x → I (x.turn fallback).2)
    (hs : Stops fallback n x) (hx : 0 ≤ x.budget) (hi : I x)
    (hc : ∀ y ∈ trail fallback n x, ∀ r ∈ y.player.wait?, ¬ Nearly (r - y.budget)) :
    ∃ z ∈ trail fallback n x, x.run fallback n = z.finished ∧ 0 ≤ z.budget ∧ I z ∧
      (∀ r ∈ z.player.wait?, z.budget + tolerance < r) ∧
      ∀ e ≥ 0, ∀ m, Stops fallback m (x.more e) → ∃ m', Stops fallback m' (z.more e) ∧
        (x.more e).run fallback m = (z.more e).run fallback m' ∧
        ∀ y ∈ trail fallback m' (z.more e), y ∈ trail fallback m (x.more e) := by
  induction n generalizing x with
  | zero => exact hs.elim
  | succ n ih =>
    have hhead : x ∈ trail fallback (n + 1) x := List.mem_cons_self
    obtain ⟨hlast, ht⟩ | ⟨r, hw, -, ht⟩ := x.turn_cases fallback
    · exact ⟨x, hhead, run_of_last ht n, hx, hi, hlast,
        fun e he m hm => ⟨m, hm, rfl, fun y hy => hy⟩⟩
    · have htail : trail fallback (n + 1) x =
          x :: trail fallback n (x.fired fallback (Scalar.clamp r 0 x.budget)) := by
        rw [trail, ht]
      have hbudget : 0 ≤ (x.fired fallback (Scalar.clamp r 0 x.budget)).budget := by
        rw [budget_fired]
        exact sub_nonneg.mpr (Fraction.clamp_le r x.budget)
      have hi' := hI x hi
      rw [ht] at hi'
      obtain ⟨z, hz, hrun, hzb, hiz, hlast, hmore⟩ := ih (hs.of_fired ht) hbudget hi'
        fun y hy => hc y (htail ▸ List.mem_cons_of_mem _ hy)
      refine ⟨z, htail ▸ List.mem_cons_of_mem _ hz, (run_of_fired ht n).trans hrun, hzb, hiz, hlast,
        fun e he m hm => ?_⟩
      have ht' := turn_more ht hx he (hc x hhead)
      cases m with
      | zero => exact hm.elim
      | succ m =>
        obtain ⟨m', hm', hrun', htrail⟩ := hmore e he m (hm.of_fired ht')
        refine ⟨m', hm', (run_of_fired ht' m).trans hrun', fun y hy => ?_⟩
        rw [trail, ht']
        exact List.mem_cons_of_mem _ (htrail y hy)

end Player.Progress

end Soundscape
