import Mathlib.Algebra.Order.BigOperators.Group.List
import Mathlib.Algebra.Order.Field.Basic
import Soundscape.Interpolation.Playhead
import Soundscape.Proofs.Ease.Climb

/-!
# A goto

A `goto` draws once and has one cycle, so its level is a function of the time since its start
(`passage`): it goes along the curve until the cycle has passed and stays at its upper end.  Steps of
time return the levels at the times they add up to (`levels_of_goto`), which climb if the curve does
(`pairwise_levels`) and are at the upper end from the moment that the time is up (`levels_arrive`).
-/

namespace Soundscape

namespace Playhead

section Steps

variable {α : Type} [Scalar α] {p : Playhead α}

theorem exists_turnBound_eq (p : Playhead α) : ∃ n, p.turnBound = n + 1 := by
  unfold turnBound
  split
  · exact ⟨_, rfl⟩
  · exact ⟨_, rfl⟩

theorem turn_of_goto (hg : p.spec.motion = .goto) (s : Source) :
    p.turn s = (if p.duration ≤ p.time then .over p.ended else .within p, s) := by
  have hlength : p.cycleLength = p.duration := by
    unfold cycleLength
    rw [hg]
  unfold turn
  rw [hlength]
  by_cases ht : p.duration ≤ p.time
  · rw [if_pos ht, if_pos ht, if_pos (.inl hg)]
    rfl
  · rw [if_neg ht, if_neg ht]
    rfl

variable [Easing α]

/-- The level of a `goto` a time after its start. -/
def passage (p : Playhead α) (t : α) : α :=
  if p.duration ≤ t then p.high else p.eased p.low p.high (t / p.duration)

theorem advance_of_goto (hg : p.spec.motion = .goto) (dt : α) (s : Source) :
    p.advance dt s =
      if p.active then
        let q := { p with time := p.time + dt }
        ((if q.duration ≤ q.time then q.ended else q, p.passage q.time), s)
      else ((p, p.high), s) := by
  unfold advance
  by_cases ha : p.active
  · obtain ⟨n, hn⟩ := exists_turnBound_eq { p with time := p.time + dt }
    have hg' : { p with time := p.time + dt }.spec.motion = .goto := hg
    rw [if_pos ha, if_pos ha]
    dsimp only
    rw [hn, settle, turn_of_goto hg', passage]
    by_cases ht : p.duration ≤ p.time + dt
    · simp only [if_pos ht, cycleEnd, ended, hg]
    · simp only [if_neg ht, level, eased, hg]
  · rw [if_neg ha, if_neg ha]
    simp only [restingValue, hg]

/-- The levels that some steps of time return. -/
def levels : List α → Playhead α → Draw (List α)
  | [], _ => pure []
  | dt :: rest, p => do
    let (q, x) ← p.advance dt
    let xs ← levels rest q
    pure (x :: xs)

end Steps

section Exact

variable {α : Type} [ExactScalar α]

theorem elapsed_nonneg {steps : List α} (hs : ∀ d ∈ steps, 0 ≤ d) (i : Nat) :
    0 ≤ (steps.take i).sum :=
  List.sum_nonneg fun d hd => hs d (List.mem_of_mem_take hd)

variable [Easing α] {p q : Playhead α} {u : Source} {t d : α}

/-- The `goto` that was begun as `p` is, a time `t` after its start, `q`: on its way or over. -/
structure Underway (p : Playhead α) (t : α) (q : Playhead α) : Prop where
  spec : q.spec = p.spec
  low : q.low = p.low
  high : q.high = p.high
  duration : q.duration = p.duration
  time : q.active = true → q.time = t
  passed : q.active = false → p.duration ≤ t

theorem Underway.passage (h : Underway p t q) : q.passage = p.passage := by
  funext u
  simp only [Playhead.passage, eased, h.spec, h.low, h.high, h.duration]

theorem Underway.advance (hg : p.spec.motion = .goto) (h : Underway p t q) (hd : 0 ≤ d) :
    Underway p (t + d) (q.advance d u).1.1 ∧ (q.advance d u).1.2 = p.passage (t + d) := by
  rw [advance_of_goto (h.spec ▸ hg)]
  by_cases ha : q.active
  · have htime := h.time ha
    rw [if_pos ha]
    dsimp only
    rw [h.passage, htime]
    refine ⟨?_, rfl⟩
    split
    · next ht => exact ⟨h.spec, h.low, h.high, h.duration, nofun, fun _ => h.duration ▸ ht⟩
    · exact ⟨h.spec, h.low, h.high, h.duration, fun _ => rfl,
        fun hf => absurd (hf.symm.trans ha) Bool.false_ne_true⟩
  · have hpassed := (h.passed (Bool.eq_false_iff.mpr ha)).trans (le_add_of_nonneg_right hd)
    rw [if_neg ha]
    refine ⟨⟨h.spec, h.low, h.high, h.duration, fun ht => absurd ht ha, fun _ => hpassed⟩, ?_⟩
    rw [Playhead.passage, if_pos hpassed, ← h.high]

/-- Steps of time return the levels at the times they add up to. -/
theorem levels_of_goto (hg : p.spec.motion = .goto) (h : Underway p t q) {steps : List α}
    (hs : ∀ d ∈ steps, 0 ≤ d) :
    (levels steps q u).1 =
      (List.range steps.length).map fun i => p.passage (t + (steps.take (i + 1)).sum) := by
  induction steps generalizing t q u with
  | nil => rfl
  | cons d rest ih =>
    obtain ⟨hnext, hlevel⟩ := h.advance hg (hs d List.mem_cons_self) (u := u)
    have hrest := ih hnext (u := (q.advance d u).2) fun e he => hs e (List.mem_cons_of_mem _ he)
    show (q.advance d u).1.2 :: (levels rest (q.advance d u).1.1 (q.advance d u).2).1 = _
    rw [hlevel, hrest, List.length_cons, List.range_succ_eq_map, List.map_cons, List.map_map]
    simp [Function.comp_def, add_assoc]

/-! ## On a curve that climbs -/

variable (hc : Ease.Climbs (Easing.curve p.spec.ease : α → α))

include hc

theorem passage_of_lt (hzero : 0 ≤ t) (ht : t < p.duration) :
    t / p.duration ∈ Set.Ico (0 : α) 1 ∧
      p.passage t = p.low + (p.high - p.low) * Easing.curve p.spec.ease (t / p.duration) := by
  have hpos : 0 < p.duration := hzero.trans_lt ht
  have hshare : t / p.duration ∈ Set.Ico (0 : α) 1 :=
    ⟨div_nonneg hzero hpos.le, (div_lt_one hpos).mpr ht⟩
  have hmem := hc.mem (Set.Ico_subset_Icc_self hshare)
  rw [passage, if_neg (not_le.mpr ht), eased, ExactScalar.clamp_of_mem hmem.1 hmem.2]
  exact ⟨hshare, rfl⟩

theorem passage_lt_high (hlt : p.low < p.high) (hzero : 0 ≤ t) (ht : t < p.duration) :
    p.passage t < p.high := by
  obtain ⟨hshare, hpassage⟩ := passage_of_lt hc hzero ht
  have hway := mul_lt_of_lt_one_right (sub_pos.mpr hlt) (hc.lt_one hshare.1 hshare.2)
  rw [hpassage]
  linarith

theorem passage_le_high (hle : p.low ≤ p.high) (hzero : 0 ≤ t) : p.passage t ≤ p.high := by
  by_cases ht : p.duration ≤ t
  · rw [passage, if_pos ht]
  · obtain ⟨hshare, hpassage⟩ := passage_of_lt hc hzero (not_le.mp ht)
    have hway := mul_le_of_le_one_right (sub_nonneg.mpr hle) (hc.lt_one hshare.1 hshare.2).le
    rw [hpassage]
    linarith

theorem passage_mono (hle : p.low ≤ p.high) (hzero : 0 ≤ t) (htd : t ≤ d) :
    p.passage t ≤ p.passage d := by
  by_cases hd : p.duration ≤ d
  · refine (passage_le_high hc hle hzero).trans_eq ?_
    rw [passage, if_pos hd]
  · have hd := not_le.mp hd
    obtain ⟨hshare, hpassage⟩ := passage_of_lt hc hzero (htd.trans_lt hd)
    obtain ⟨hshare', hpassage'⟩ := passage_of_lt hc (hzero.trans htd) hd
    have hpos : 0 < p.duration := (hzero.trans htd).trans_lt hd
    have hcurve := hc.monotoneOn (Set.Ico_subset_Icc_self hshare) (Set.Ico_subset_Icc_self hshare')
      (div_le_div_of_nonneg_right htd hpos.le)
    rw [hpassage, hpassage']
    gcongr

theorem pairwise_levels (hg : p.spec.motion = .goto) (h : Underway p 0 q) (hle : p.low ≤ p.high)
    {steps : List α} (hs : ∀ d ∈ steps, 0 ≤ d) : (levels steps q u).1.Pairwise (· ≤ ·) := by
  rw [levels_of_goto hg h hs, List.pairwise_map]
  simp only [zero_add]
  refine List.pairwise_lt_range.imp fun {i j} hij => passage_mono hc hle (elapsed_nonneg hs _) ?_
  exact (List.take_sublist_take_left (Nat.succ_le_succ hij.le)).sum_le_sum
    fun d hd => hs d (List.mem_of_mem_take hd)

/-- A level is the upper end once the time is up, and not before if the ends differ. -/
theorem levels_arrive (hg : p.spec.motion = .goto) (h : Underway p 0 q) {steps : List α}
    (hs : ∀ d ∈ steps, 0 ≤ d) {i : Nat} {x : α} (hx : (levels steps q u).1[i]? = some x) :
    (p.duration ≤ (steps.take (i + 1)).sum → x = p.high) ∧
      ((steps.take (i + 1)).sum < p.duration → p.low < p.high → x < p.high) := by
  rw [levels_of_goto hg h hs] at hx
  obtain ⟨hi, rfl⟩ := List.getElem?_eq_some_iff.mp hx
  rw [List.getElem_map, List.getElem_range, zero_add]
  refine ⟨fun ht => ?_, fun ht hlt => passage_lt_high hc hlt (elapsed_nonneg hs _) ht⟩
  rw [passage, if_pos ht]

end Exact

/-- The share itself and its powers in all directions climb from zero to one, the bounce stays
between the two, and a `goto` on one of the former, from the lower end to the upper end, returns
levels that never fall.  They are the upper end as soon as the time adds up to the length of its
cycle and, unless the ends are the same, not before. -/
theorem goto_climbs {α : Type} [ExactScalar α] [RealFunctions α] :
    (∀ e ∈ Ease.steady, MonotoneOn (fun t : α => e.apply t) (Set.Icc 0 1) ∧
      e.apply (0 : α) = 0 ∧ e.apply (1 : α) = 1) ∧
    (∀ way, Set.MapsTo (fun t : α => (Ease.shaped way .bounce).apply t) (Set.Icc 0 1)
      (Set.Icc 0 1)) ∧
    ∀ (spec : Interpolation α) (source : Source) (steps : List α),
      spec.motion = .goto → spec.ease ∈ Ease.steady → (∀ d ∈ steps, 0 ≤ d) →
      let p := (start spec source).1
      let xs := (levels steps p (start spec source).2).1
      p.low ≤ p.high →
        xs.length = steps.length ∧ xs.Pairwise (· ≤ ·) ∧
        ∀ i x, xs[i]? = some x →
          let elapsed := (steps.take (i + 1)).sum
          (p.duration ≤ elapsed → x = p.high) ∧
            (elapsed < p.duration → p.low < p.high → x < p.high) := by
  refine ⟨fun e he => ?_, fun way t ht => Ease.bouncing_mem way ht, ?_⟩
  · have hclimbs := Ease.climbs_of_steady (α := α) he
    exact ⟨hclimbs.monotoneOn, hclimbs.start, hclimbs.finish⟩
  · intro spec source steps hg he hs p xs hle
    have hself : Underway p 0 p := ⟨rfl, rfl, rfl, rfl, fun _ => rfl, nofun⟩
    have hclimbs := Ease.climbs_of_steady (α := α) he
    refine ⟨?_, pairwise_levels hclimbs hg hself hle hs, fun i x hx => ?_⟩
    · rw [show xs = _ from levels_of_goto hg hself hs, List.length_map, List.length_range]
    · exact levels_arrive hclimbs hg hself hs hx

/-- A `goto` of two seconds, in steps of which one takes no time and the last goes beyond the end. -/
theorem goto_climbs_twoSeconds :
    let _ : RealFunctions Rat := ⟨id, id, fun _ => 1, fun x => x + 1, 22 / 7⟩
    let spec : Interpolation Rat :=
      ⟨.goto, .fixed (1 / 5), .fixed (4 / 5), .range 1 2, "InOutQuad", .shaped .slowEnds .quad, 1,
        false⟩
    let source := Source.ofWords [0xffffffffffffffff]
    let steps : List Rat := [1 / 2, 0, 1, 1 / 4, 1]
    let p := (start spec source).1
    let xs := (levels steps p (start spec source).2).1
    spec.motion = .goto ∧ spec.ease ∈ Ease.steady ∧ (∀ d ∈ steps, 0 ≤ d) ∧ p.low ≤ p.high ∧
      xs.length = steps.length ∧ xs.Pairwise (· ≤ ·) ∧
      xs = [11 / 40, 11 / 40, 29 / 40, 25 / 32, 4 / 5] := by
  intro _ spec source steps p xs
  have hease : spec.ease ∈ Ease.steady := by decide
  have hsteps : ∀ d ∈ steps, 0 ≤ d := by decide +kernel
  have hle : p.low ≤ p.high := by decide +kernel
  let _ := Fraction.exact
  obtain ⟨-, -, hgoto⟩ := goto_climbs (α := Rat)
  obtain ⟨hlength, hpairwise, -⟩ := hgoto spec source steps rfl hease hsteps hle
  exact ⟨rfl, hease, hsteps, hle, hlength, hpairwise, by decide +kernel⟩

end Playhead

end Soundscape
