import Soundscape.Proofs.Interpolation.Cycles

/-!
# A run and the time elapsed

However the time since its start was cut into steps, a run stands in the cycle in which that time
lies: the ends and the length drawn, the cycles counted and the random source are those of one step
over the whole time, and as long as the run is on so are its place in the cycle, its direction and
its level.
-/

namespace Soundscape

namespace Playhead

def run {α : Type} [Scalar α] [Easing α] : List α → Playhead α → Draw (Playhead α)
  | [], p => pure p
  | dt :: rest, p => do
    let (q, _) ← p.advance dt
    run rest q

variable {p q r : Playhead Rat} {s u v : Source} {t d : Rat} {i j k : Nat}

theorem Stands.le (h : Stands p s t i q u) (hr : Reached p s t j r v) : j ≤ i := by
  by_contra hlt
  have hc := hr.continues i (not_le.mp hlt)
  obtain ⟨_, ht⟩ | h := h
  · exact absurd (hr.span_succ_le (not_le.mp hlt)) (not_le.mpr ht)
  · obtain ⟨hfalse, hcompleted, hmax⟩ := h.done ⟨hc.roams, h.duration ▸ hc.long⟩
    rcases hc.more with hforever | hmore
    · rw [hfalse] at hforever
      exact Bool.false_ne_true hforever
    · omega

theorem Stands.reached (h : Stands p s t k q u) : Reached p s t k q u :=
  h.elim (fun h => h.1.toReached) Over.toReached

theorem Stands.unique (h : Stands p s t i q u) (h' : Stands p s t j r v) : i = j :=
  le_antisymm (h'.le h.reached) (h.le h'.reached)

/-- A run that was begun and is under way or over. -/
def OnCourse (p : Playhead Rat) (s : Source) (t : Rat) (q : Playhead Rat) (u : Source) : Prop :=
  ∃ k, Under p s t k q u ∨ Over p s t k q u

theorem Under.settles (h : Under p s t k q u) : Settles q u q.turnBound := by
  have hends : ∀ r, (Playhead.settle q.turnBound q u).1 ≠ .passed r := by
    intro r hr
    obtain ⟨_, _, _, hs, _⟩ | ⟨_, _, _, hs, _⟩ | ⟨_, _, _, hn⟩ := h.settle q.turnBound
    · rw [hs] at hr
      exact nomatch hr
    · rw [hs] at hr
      exact nomatch hr
    · exact lt_irrefl _ (h.lt_turnBound hn)
  intro n hn
  have heq := settle_of_le hn hends
  exact ⟨heq, fun r => heq ▸ hends r⟩

theorem onCourse_self (ha : p.active = true) (ht : 0 ≤ p.time) : OnCourse p s p.time p s :=
  ⟨0, .inl (under_self ha ht)⟩

theorem Over.completed_congr (h : Over p s t k q u) (h' : Over p s t k r v) :
    q.completed = r.completed := by
  have hduration : q.duration = r.duration := h.duration.trans h'.duration.symm
  by_cases hcut : p.spec.motion = .goto ∨ q.duration ≤ 0
  · rw [h.cut hcut, h'.cut (hduration ▸ hcut)]
  · rw [not_or, not_le] at hcut
    rw [(h.done hcut).2.1, (h'.done (hduration ▸ hcut)).2.1]

/-- On exact fractions the turns of a step of time suffice. -/
theorem OnCourse.advanceFate (h : OnCourse p s t q u) (hd : 0 ≤ d) :
    q.advanceFate d u ≠ .error .exhausted := by
  unfold Playhead.advanceFate
  obtain ⟨k, h | h⟩ := h
  · rw [if_pos h.active]
    exact settleFate_ne_exhausted ((h.later hd).settles _ le_rfl).2
  · rw [h.active]
    nofun

section Steps

variable [Easing Rat]

theorem advance_of_inactive (h : q.active = false) : q.advance d u = ((q, q.restingValue), u) := by
  unfold Playhead.advance
  rw [h]
  rfl

/-- A step of time takes a run to the cycle in which the time then lies, or to its end. -/
theorem Under.advance (h : Under p s t k q u) (hd : 0 ≤ d) :
    (∃ r v i, q.advance d u = (r.level, v) ∧ Under p s (t + d) i r v ∧
      t + d < p.span s (i + 1)) ∨
    ∃ r v i, q.advance d u = ((r, r.cycleEnd), v) ∧ Over p s (t + d) i r v := by
  have hlater := h.later hd
  unfold Playhead.advance
  rw [if_pos h.active]
  dsimp only
  obtain ⟨r, v, i, hs, hr⟩ | ⟨r, v, i, hs, hr⟩ | ⟨r, v, _, hr⟩ :=
    hlater.settle { q with time := q.time + d }.turnBound
  · rw [hs]
    exact .inl ⟨r, v, i, rfl, hr⟩
  · rw [hs]
    exact .inr ⟨r, v, i, rfl, hr⟩
  · exact absurd (hlater.lt_turnBound hr) (lt_irrefl _)

theorem OnCourse.advance (h : OnCourse p s t q u) (hd : 0 ≤ d) :
    (∃ r v i, q.advance d u = (r.level, v) ∧ Under p s (t + d) i r v ∧
      t + d < p.span s (i + 1)) ∨
    ∃ r x v i, q.advance d u = ((r, x), v) ∧ Over p s (t + d) i r v := by
  obtain ⟨k, h | h⟩ := h
  · exact (h.advance hd).imp_right fun ⟨r, v, i, h⟩ => ⟨r, _, v, i, h⟩
  · exact .inr ⟨q, _, u, k, advance_of_inactive h.active, h.later hd⟩

theorem level_fst (q : Playhead Rat) : q.level.1 = { q with returning := q.level.1.returning } := by
  unfold Playhead.level
  split
  · split <;> rfl
  · rfl

theorem Under.level (h : Under p s t k q u) : Under p s t k q.level.1 u := by
  rw [level_fst]
  exact
    { h with
      returning := by
        intro hm
        show q.level.1.returning = _
        unfold Playhead.level
        split
        · next hg => exact absurd (h.spec ▸ hg) hm
        · exact h.returning hm }

theorem OnCourse.stands (h : OnCourse p s t q u) (hd : 0 ≤ d) :
    ∃ i, Stands p s (t + d) i (q.advance d u).1.1 (q.advance d u).2 := by
  obtain ⟨r, v, i, heq, hr, ht⟩ | ⟨r, x, v, i, heq, hr⟩ := h.advance hd
  · rw [heq]
    exact ⟨i, .inl ⟨hr.level, ht⟩⟩
  · rw [heq]
    exact ⟨i, .inr hr⟩

theorem OnCourse.run (h : OnCourse p s t q u) (steps : List Rat) (hs : ∀ d ∈ steps, 0 ≤ d) :
    OnCourse p s (t + steps.sum) (run steps q u).1 (run steps q u).2 := by
  induction steps generalizing t q u with
  | nil =>
    rw [List.sum_nil, add_zero]
    exact h
  | cons d rest ih =>
    have hstands := h.stands (hs d List.mem_cons_self)
    rw [List.sum_cons, ← add_assoc]
    refine ih (hstands.imp fun i h => h.imp_left And.left) fun e he => ?_
    exact hs e (List.mem_cons_of_mem _ he)

/-- Two steps come to the same: ends, length, count and random source are equal and so is whether
the run is on; as long as it is on, so are its place, its direction and its level. -/
structure SameStep (x y : (Playhead Rat × Rat) × Source) : Prop where
  active : x.1.1.active = y.1.1.active
  completed : x.1.1.completed = y.1.1.completed
  low : x.1.1.low = y.1.1.low
  high : x.1.1.high = y.1.1.high
  duration : x.1.1.duration = y.1.1.duration
  source : x.2 = y.2
  onward : y.1.1.active = true → x.1.1.time = y.1.1.time ∧ x.1.1.returning = y.1.1.returning ∧
    x.1.2 = y.1.2

theorem Under.level_congr (h : Under p s t k q u) (h' : Under p s t k r v) :
    q.level = r.level := by
  obtain ⟨⟨hspec, hlow, hhigh, hduration, -, -, -⟩, hactive, htime, hcompleted, hreturning⟩ := h
  obtain ⟨⟨hspec', hlow', hhigh', hduration', -, -, -⟩, hactive', htime', hcompleted',
    hreturning'⟩ := h'
  obtain ⟨spec, low, high, duration, time, completed, active, returning⟩ := q
  obtain ⟨spec', low', high', duration', time', completed', active', returning'⟩ := r
  dsimp only at *
  subst hspec hspec' hlow hlow' hhigh hhigh' hduration hduration' hactive hactive' htime htime'
    hcompleted hcompleted'
  by_cases hm : p.spec.motion = .gobetween
  · unfold Playhead.level
    rw [hm]
    rfl
  · rw [hreturning hm, hreturning' hm]

theorem OnCourse.sameStep (h : OnCourse p s t q u) {t' d' : Rat} {q' : Playhead Rat} {u' : Source}
    (h' : OnCourse p s t' q' u') (hd : 0 ≤ d) (hd' : 0 ≤ d') (ht : t + d = t' + d') :
    SameStep (q.advance d u) (q'.advance d' u') := by
  obtain ⟨r, v, i, heq, hr, hlt⟩ | ⟨r, x, v, i, heq, hr⟩ := h.advance hd <;>
  obtain ⟨r', v', j, heq', hr', hlt'⟩ | ⟨r', x', v', j, heq', hr'⟩ := h'.advance hd' <;>
  rw [← ht] at hr' <;> rw [heq, heq']
  case inl.inl =>
    rw [← ht] at hlt'
    obtain rfl := Stands.unique (.inl ⟨hr, hlt⟩) (.inl ⟨hr', hlt'⟩)
    rw [hr.level_congr hr', hr.source.trans hr'.source.symm]
    exact ⟨rfl, rfl, rfl, rfl, rfl, rfl, fun _ => ⟨rfl, rfl, rfl⟩⟩
  case inl.inr =>
    obtain rfl := Stands.unique (.inl ⟨hr, hlt⟩) (.inr hr')
    exact absurd hr'.passed (not_le.mpr hlt)
  case inr.inl =>
    rw [← ht] at hlt'
    obtain rfl := Stands.unique (.inr hr) (.inl ⟨hr', hlt'⟩)
    exact absurd hr.passed (not_le.mpr hlt')
  case inr.inr =>
    obtain rfl := Stands.unique (.inr hr) (.inr hr')
    exact
      { active := hr.active.trans hr'.active.symm
        completed := hr.completed_congr hr'
        low := hr.low.trans hr'.low.symm
        high := hr.high.trans hr'.high.symm
        duration := hr.duration.trans hr'.duration.symm
        source := hr.source.trans hr'.source.symm
        onward := fun ha => absurd (hr'.active.symm.trans ha) Bool.false_ne_true }

/-- A run depends on the time elapsed only.  From its start, some steps of time of which `dt` is the
last come to the same as one step over the whole time: the cycle of that time with its draws, or the
end of the run.  The turns of each step come to an end. -/
theorem advance_run (spec : Interpolation Rat) (source : Source) (steps : List Rat) (dt : Rat)
    (h : ∀ d ∈ dt :: steps, 0 ≤ d) :
    let p := (start spec source).1
    let s := (start spec source).2
    let q := (run steps p s).1
    let u := (run steps p s).2
    let total := steps.sum + dt
    SameStep (q.advance dt u) (p.advance total s) ∧
    (∃ k, Stands p s total k (p.advance total s).1.1 (p.advance total s).2) ∧
    (q.active = true →
      let r := { q with time := q.time + dt }
      Settles r u r.turnBound) := by
  intro p s q u total
  have hsteps : ∀ d ∈ steps, 0 ≤ d := fun d hd => h d (List.mem_cons_of_mem _ hd)
  have hdt : 0 ≤ dt := h dt List.mem_cons_self
  have htotal : 0 ≤ total := add_nonneg (List.sum_nonneg hsteps) hdt
  have hself : OnCourse p s 0 p s := onCourse_self rfl le_rfl
  have hq : OnCourse p s steps.sum q u := zero_add steps.sum ▸ hself.run steps hsteps
  refine ⟨hq.sameStep hself hdt htotal (zero_add total).symm, ?_, fun ha => ?_⟩
  · obtain ⟨k, hk⟩ := hself.stands htotal
    rw [zero_add] at hk
    exact ⟨k, hk⟩
  · obtain ⟨k, hk | hk⟩ := hq
    · exact (hk.later hdt).settles
    · exact absurd (hk.active.symm.trans ha) Bool.false_ne_true

end Steps

/-- Two cycles and a half of three, in three steps; the first cycle takes two seconds and the others
one. -/
theorem advance_run_third :
    let _ : Easing Rat := ⟨fun _ x => x⟩
    let spec : Interpolation Rat := ⟨.interpolate, .range 0 1, .fixed 4, .range 1 2, "linear",
      .linear, 3, false⟩
    let p := (start spec (.ofWords [0, 0xffffffffffffffff, 0, 0, 0, 0])).1
    let s := (start spec (.ofWords [0, 0xffffffffffffffff, 0, 0, 0, 0])).2
    let x := (run [5 / 2, 0] p s).1.advance 1 (run [5 / 2, 0] p s).2
    (∀ d ∈ [1, 5 / 2, 0], (0 : Rat) ≤ d) ∧ SameStep x (p.advance (7 / 2) s) ∧
      (x.1.1.completed, x.1.1.duration, x.1.1.time, x.1.2) = (2, 1, 1 / 2, 2) := by
  intro _ spec p s x
  have h : ∀ d ∈ [1, 5 / 2, 0], (0 : Rat) ≤ d := by decide +kernel
  have hsame := (advance_run spec (.ofWords [0, 0xffffffffffffffff, 0, 0, 0, 0]) [5 / 2, 0] 1 h).1
  have htotal : [5 / 2, 0].sum + 1 = (7 / 2 : Rat) := by decide +kernel
  rw [htotal] at hsame
  exact ⟨h, hsame, by decide +kernel⟩

end Playhead

end Soundscape
