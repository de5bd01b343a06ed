import Soundscape.Proofs.Number.Fraction
import Soundscape.Proofs.Voice.Sketch

/-!
# A step of a voice in two

On exact fractions two steps of a voice are one step of their sum (`Sketch.next_next`), but for one
thing: a fade-out that is due just after the cut begins at the cut already, and then all of it comes
too early.  A gain that has nearly arrived at the cut does no harm, since it has arrived for good.
-/

namespace Soundscape

/-- Some time is left, but too little to wait for it. -/
def Nearly {α : Type} [Scalar α] (remaining : α) : Prop := 0 < remaining ∧ remaining ≤ tolerance

instance {α : Type} [Scalar α] (remaining : α) : Decidable (Nearly remaining) :=
  inferInstanceAs (Decidable (_ ∧ _))

theorem not_nearly {r d : Rat} (h : ¬ Nearly (r - d)) : r ≤ d ∨ d + tolerance < r := by
  rcases le_or_gt r d with hle | hlt
  · exact .inl hle
  · refine .inr (not_le.mp fun hle => h ⟨?_, ?_⟩)
    · show (0 : Rat) < r - d
      linarith
    · show r - d ≤ tolerance
      linarith

/-! ### Gains -/

namespace Gain

theorem advance_of_arrived {g : Gain Rat} {r : Ramp Rat} {dt : Rat} (hr : g.ramp = some r)
    (h : r.length ≤ 0 ∨ r.length ≤ r.elapsed + dt + tolerance) :
    g.advance dt = ⟨r.target, none⟩ := by
  unfold advance
  rw [hr]
  exact if_pos h

theorem advance_of_under_way {g : Gain Rat} {r : Ramp Rat} {dt : Rat} (hr : g.ramp = some r)
    (h : ¬ (r.length ≤ 0 ∨ r.length ≤ r.elapsed + dt + tolerance)) :
    g.advance dt = ⟨r.start + (r.target - r.start) * ((r.elapsed + dt) / r.length),
      some { r with elapsed := r.elapsed + dt }⟩ := by
  unfold advance
  rw [hr]
  exact if_neg h

theorem advance_advance (g : Gain Rat) (d : Rat) {e : Rat} (he : 0 ≤ e) :
    (g.advance d).advance e = g.advance (d + e) := by
  cases hr : g.ramp with
  | none =>
    have hs : g.isSettled := by simp [isSettled, hr]
    rw [advance_of_isSettled hs, advance_of_isSettled hs, advance_of_isSettled hs]
  | some r =>
    have hsum : r.elapsed + d + e = r.elapsed + (d + e) := add_assoc ..
    by_cases h : r.length ≤ 0 ∨ r.length ≤ r.elapsed + d + tolerance
    · have h' : r.length ≤ 0 ∨ r.length ≤ r.elapsed + (d + e) + tolerance :=
        h.imp_right fun h => by linarith
      rw [advance_of_arrived hr h, advance_of_arrived hr h']
      rfl
    · rw [advance_of_under_way hr h]
      generalize r.start + (r.target - r.start) * ((r.elapsed + d) / r.length) = level
      have hr' : (⟨level, some { r with elapsed := r.elapsed + d }⟩ : Gain Rat).ramp =
          some { r with elapsed := r.elapsed + d } := rfl
      by_cases h' : r.length ≤ 0 ∨ r.length ≤ r.elapsed + (d + e) + tolerance
      · rw [advance_of_arrived hr h', advance_of_arrived hr' (by rwa [hsum])]
      · rw [advance_of_under_way hr h', advance_of_under_way hr' (by rwa [hsum]), hsum]

end Gain

/-! ### Sketches -/

namespace Sketch

theorem step_step (s : Sketch Rat) (d : Rat) {e : Rat} (he : 0 ≤ e) :
    (s.step d).step e = s.step (d + e) ∧
      s.stepTells d ++ (s.step d).stepTells e = s.stepTells (d + e) := by
  have hg := s.gain.advance_advance d he
  obtain ⟨release, hs, hd, h₁, ht₁⟩ | ⟨h₁, ht₁⟩ := s.step_cases d
  · -- The fade-out ends before the cut, and nothing happens after it.
    rw [Gain.advance_of_isSettled hd] at hg
    have hd' : (s.gain.advance (d + e)).isSettled := hg ▸ hd
    obtain ⟨h₂, ht₂⟩ := step_of_fading hs hd'
    have hn (r : Bool) (hr : (s.step d).state = .fadingOut r) :
        ((s.step d).gain.advance e).isSettled = false := by
      rw [h₁] at hr
      cases release <;> cases hr
    obtain ⟨h₃, ht₃⟩ := step_of_not_fading hn
    rw [h₃, ht₃, h₂, ht₂, h₁, ht₁, ← hg]
    exact ⟨by rw [Gain.advance_of_isSettled hd], List.append_nil _⟩
  · rw [h₁, ht₁, List.nil_append]
    unfold step stepTells
    dsimp only
    rw [hg]
    exact ⟨rfl, rfl⟩

theorem step_of_playing {s : Sketch Rat} (hs : s.state = .playing) (d : Rat) :
    s.step d = { s with gain := s.gain.advance d } ∧ s.stepTells d = [] :=
  step_of_not_fading fun r hr => by simp [hs] at hr

theorem next_of_released {s : Sketch Rat} (hs : s.state = .released) (d : Rat) :
    s.next d = s ∧ s.tells d = [] :=
  ⟨if_pos hs, if_pos hs⟩

theorem next_of_not_pending {s : Sketch Rat} (hs : s.state ≠ .released) (hp : s.pending = none)
    {d : Rat} (hd : 0 ≤ d) : s.next d = s.step d ∧ s.tells d = s.stepTells d := by
  unfold next tells
  rw [if_neg hs, if_neg hs, hp, Fraction.larger_of_nonneg hd]
  exact ⟨rfl, rfl⟩

theorem next_of_due {s : Sketch Rat} {f : PendingFade Rat} (hs : s.state = .playing)
    (hp : s.pending = some f) {d : Rat} (hd : 0 ≤ d) (hf : f.delay ≤ d + tolerance) :
    s.next d = ((s.step (min f.delay d)).fadeNow f).step (d - min f.delay d) ∧
      s.tells d = ((s.step (min f.delay d)).fadeNow f).stepTells (d - min f.delay d) := by
  have hr : s.state ≠ .released := by simp [hs]
  have hle : 0 ≤ d - min f.delay d := sub_nonneg.mpr (min_le_right _ _)
  unfold next tells
  rw [if_neg hr, if_neg hr, hp, Fraction.larger_of_nonneg hd]
  dsimp only
  rw [if_pos hf, if_pos hf, Fraction.smaller_eq, Fraction.larger_of_nonneg hle,
    (step_of_playing hs _).2]
  exact ⟨rfl, rfl⟩

theorem next_of_not_due {s : Sketch Rat} {f : PendingFade Rat} (hs : s.state = .playing)
    (hp : s.pending = some f) {d : Rat} (hd : 0 ≤ d) (hf : ¬ f.delay ≤ d + tolerance) :
    s.next d = { s.fadeSooner f d with gain := s.gain.advance d } ∧ s.tells d = [] := by
  have hr : s.state ≠ .released := by simp [hs]
  have hs' : (s.fadeSooner f d).state = .playing := hs
  unfold next tells
  rw [if_neg hr, if_neg hr, hp, Fraction.larger_of_nonneg hd]
  dsimp only
  rw [if_neg hf, if_neg hf]
  exact step_of_playing hs' d

theorem fadeNow_step {s : Sketch Rat} (hs : s.state = .playing) (d : Rat) (f : PendingFade Rat) :
    (s.step d).fadeNow f = { s with
      pending := none, gain := (s.gain.advance d).fadeTo 0 f.length,
      state := .fadingOut f.release } := by
  rw [(step_of_playing hs d).1]
  exact if_pos hs

theorem step_of_settled {s : Sketch Rat} (hs : s.state = .released) (hg : s.gain.isSettled)
    (d : Rat) : s.step d = s ∧ s.stepTells d = [] := by
  have hn (r : Bool) (hr : s.state = .fadingOut r) : (s.gain.advance d).isSettled = false := by
    simp [hs] at hr
  have h := step_of_not_fading hn
  rwa [Gain.advance_of_isSettled hg] at h

/-- After a step in which no fade-out begins none is due, and the next step goes on like it. -/
theorem step_next {s : Sketch Rat} (hs : s.state ≠ .released) (hp : s.pending = none) (d : Rat)
    {e : Rat} (he : 0 ≤ e) :
    (s.step d).next e = s.step (d + e) ∧
      s.stepTells d ++ (s.step d).tells e = s.stepTells (d + e) := by
  obtain ⟨hstep, htells⟩ := s.step_step d he
  have hpending : (s.step d).pending = none := by
    obtain ⟨_, -, -, h, -⟩ | ⟨h, -⟩ := s.step_cases d <;> rw [h, ← hp]
  rw [← hstep, ← htells]
  by_cases hr : (s.step d).state = .released
  · have hg : (s.step d).gain.isSettled := by
      obtain ⟨_, -, hg, h, -⟩ | ⟨h, -⟩ := s.step_cases d
      · rwa [h]
      · rw [h] at hr
        exact absurd hr hs
    obtain ⟨hn, ht⟩ := next_of_released hr e
    obtain ⟨hn', ht'⟩ := step_of_settled hr hg e
    rw [hn, ht, hn', ht']
    exact ⟨rfl, rfl⟩
  · obtain ⟨hn, ht⟩ := next_of_not_pending hr hpending he
    rw [hn, ht]
    exact ⟨rfl, rfl⟩

theorem next_of_later {s : Sketch Rat} {f : PendingFade Rat} (hs : s.state = .playing)
    (hp : s.pending = some f) {d e : Rat} (hd : 0 ≤ d) (he : 0 ≤ e) (hf : d ≤ f.delay) :
    ({ s.fadeSooner f d with gain := s.gain.advance d } : Sketch Rat).next e = s.next (d + e) ∧
      ({ s.fadeSooner f d with gain := s.gain.advance d } : Sketch Rat).tells e =
        s.tells (d + e) := by
  have hde : 0 ≤ d + e := add_nonneg hd he
  generalize hx : ({ s.fadeSooner f d with gain := s.gain.advance d } : Sketch Rat) = x
  have hx' : x.state = .playing := by rw [← hx]; exact hs
  have hp' : x.pending = some { f with delay := f.delay - d } := by rw [← hx]; rfl
  by_cases hdue : f.delay ≤ d + e + tolerance
  · have hdue' : f.delay - d ≤ e + tolerance := by linarith
    obtain ⟨hn, ht⟩ := next_of_due hs hp hde hdue
    obtain ⟨hn', ht'⟩ := next_of_due hx' hp' he hdue'
    have hmin : min f.delay (d + e) = d + min (f.delay - d) e := by
      rw [← min_add_add_left]
      congr 1
      ring
    have hm : 0 ≤ min (f.delay - d) e := le_min (sub_nonneg.mpr hf) he
    have hrest : d + e - (d + min (f.delay - d) e) = e - min (f.delay - d) e := by ring
    have hfade : (x.step (min (f.delay - d) e)).fadeNow { f with delay := f.delay - d } =
        (s.step (d + min (f.delay - d) e)).fadeNow f := by
      rw [fadeNow_step hs, fadeNow_step hx', ← hx, ← s.gain.advance_advance d hm]
      rfl
    rw [hn, ht, hn', ht', hmin, hrest, hfade]
    exact ⟨rfl, rfl⟩
  · have hdue' : ¬ f.delay - d ≤ e + tolerance := fun h => hdue (by linarith)
    obtain ⟨hn, ht⟩ := next_of_not_due hs hp hde hdue
    obtain ⟨hn', ht'⟩ := next_of_not_due hx' hp' he hdue'
    rw [hn, ht, hn', ht', ← hx, ← s.gain.advance_advance d he]
    unfold fadeSooner
    rw [sub_sub]
    exact ⟨rfl, rfl⟩

/-- Two steps of a sketch are one step of their sum, unless a fade-out is nearly due at the cut. -/
theorem next_next {s : Sketch Rat} (hs : ∀ f, s.pending = some f → s.state = .playing) {d e : Rat}
    (hd : 0 ≤ d) (he : 0 ≤ e) (hc : ∀ f, s.pending = some f → ¬ Nearly (f.delay - d)) :
    (s.next d).next e = s.next (d + e) ∧ s.tells d ++ (s.next d).tells e = s.tells (d + e) := by
  have hde : 0 ≤ d + e := add_nonneg hd he
  by_cases hr : s.state = .released
  · obtain ⟨hn, ht⟩ := next_of_released hr d
    obtain ⟨hn', ht'⟩ := next_of_released hr e
    obtain ⟨hn'', ht''⟩ := next_of_released hr (d + e)
    rw [hn, ht, hn', ht', hn'', ht'']
    exact ⟨rfl, rfl⟩
  · cases hp : s.pending with
    | none =>
      obtain ⟨hn, ht⟩ := next_of_not_pending hr hp hd
      obtain ⟨hn', ht'⟩ := next_of_not_pending hr hp hde
      rw [hn, ht, hn', ht']
      exact step_next hr hp d he
    | some f =>
      have hplay := hs f hp
      obtain hle | hlt := not_nearly (hc f hp)
      · -- The fade-out begins before the cut.
        have htol := Fraction.tolerance_pos
        obtain ⟨hn, ht⟩ := next_of_due hplay hp hd (by linarith)
        obtain ⟨hn', ht'⟩ := next_of_due hplay hp hde (by linarith)
        have hle' : f.delay ≤ d + e := by linarith
        rw [min_eq_left hle] at hn ht
        rw [min_eq_left hle'] at hn' ht'
        have hfade := fadeNow_step hplay f.delay f
        have hsum : d - f.delay + e = d + e - f.delay := by ring
        rw [hn, ht, hn', ht', ← hsum]
        exact step_next (by rw [hfade]; nofun) (by rw [hfade]) _ he
      · -- It is still due at the cut.
        obtain ⟨hn, ht⟩ := next_of_not_due hplay hp hd (not_le.mpr hlt)
        rw [hn, ht, List.nil_append]
        exact next_of_later hplay hp hd he (by linarith [Fraction.tolerance_pos])

theorem next_zero {s : Sketch Rat} (hs : ∀ f, s.pending = some f → s.state = .playing) {d : Rat}
    (hd : 0 ≤ d) : (s.next d).next 0 = s.next d ∧ s.tells d ++ (s.next d).tells 0 = s.tells d := by
  by_cases hn : ∃ f, s.pending = some f ∧ Nearly (f.delay - d)
  · -- The fade-out has begun at the end of the first step, if a little early.
    obtain ⟨f, hp, -, hle⟩ := hn
    have hplay := hs f hp
    have hdue : f.delay ≤ d + tolerance := by linarith
    obtain ⟨hn, ht⟩ := next_of_due hplay hp hd hdue
    have hfade := fadeNow_step hplay (min f.delay d) f
    have h := step_next (s := (s.step (min f.delay d)).fadeNow f) (by rw [hfade]; nofun)
      (by rw [hfade]) (d - min f.delay d) le_rfl
    rw [add_zero] at h
    rw [hn, ht]
    exact h
  · have h := next_next hs hd le_rfl fun f hf hnear => hn ⟨f, hf, hnear⟩
    rwa [add_zero] at h

end Sketch

end Soundscape
