import Soundscape.Proofs.Number.Width
import Soundscape.Proofs.Script.Flattening
import Soundscape.Proofs.Script.Measured

/-!
# Drawing from the ranges of a script

A range is read only if its width is finite, and one that was scaled beyond that is not drawn from.
So all draws are from a finite lower bound to a finite upper bound.  But a draw divides the width by
the largest fraction, which is a little less than one, and so ranges of the two largest widths there
are cannot be drawn from: the program aborts (`Quantity.Accepted.sampled`).  A script is flattened
unless the volume or the pitch of a group is such a range and one of its statements takes it over
(`compileAborts_iff`, `Statement.flattened_of_drawable`).
-/

namespace Soundscape

namespace Quantity

/-- A quantity that is read as a text or from tokens, or is one of these scaled by factors. -/
inductive Accepted : Quantity Float → Prop where
  | read {cs : List Char} {q : Quantity Float} : Quantity.read cs = .ok q → Accepted q
  | tokens {ts rest : List (Placed Float)} {q : Quantity Float} :
    Reader.quantity ts = .ok (q, rest) → Accepted q
  | scaled {q : Quantity Float} (factor : Float) : Accepted q → Accepted (q.scaledBy factor)

theorem Accepted.cases_between {q : Quantity Float} (h : q.Accepted) :
    q = .unset ∨ (∃ v, q = .fixed v) ∨ ∃ a b, q = between a b := by
  cases h with
  | read h =>
    unfold Quantity.read at h
    dsimp only at h
    split at h
    · cases h
      exact .inl rfl
    · split at h
      · obtain ⟨v, -, h⟩ := Outcome.of_bind_eq_ok h
        cases h
        exact .inr (.inl ⟨v, rfl⟩)
      · obtain ⟨a, -, h⟩ := Outcome.of_bind_eq_ok h
        obtain ⟨b, -, h⟩ := Outcome.of_bind_eq_ok h
        split at h <;> cases h
        exact .inr (.inr ⟨a, b, rfl⟩)
  | tokens h =>
    obtain ⟨⟨a, r₁⟩, -, h⟩ := Outcome.of_bind_eq_ok h
    obtain ⟨⟨isRange, r₂⟩, -, h⟩ := Outcome.of_bind_eq_ok h
    dsimp only at h
    split at h
    · obtain ⟨⟨b, r₃⟩, -, h⟩ := Outcome.of_bind_eq_ok h
      dsimp only at h
      split at h <;> cases h
      exact .inr (.inr ⟨a, b, rfl⟩)
    · cases h
      exact .inr (.inl ⟨a, rfl⟩)
  | @scaled q factor h =>
    cases q with
    | unset => exact .inl rfl
    | fixed v => exact .inr (.inl ⟨_, rfl⟩)
    | range a b => exact .inr (.inr ⟨_, _, rfl⟩)

theorem le_of_between {a b low high : Float} (h : .range low high = between a b)
    (hfin : (high - low).isFinite) : low ≤ high := by
  unfold between at h
  split at h <;> cases h
  · assumption
  · next hab => exact (Scalar.Ordered.le_or_le hfin).resolve_right hab

theorem Accepted.le {low high : Float} (h : (range low high).Accepted)
    (hfin : (high - low).isFinite) : low ≤ high := by
  obtain h | ⟨v, h⟩ | ⟨a, b, h⟩ := h.cases_between
  · cases h
  · cases h
  · exact le_of_between h hfin

/-- A draw is aborted just if the width over the largest fraction is not finite. -/
theorem aborts_iff {low high : Float} (hd : (range low high).draws) (hlt : low < high) :
    (range low high).aborts ↔ ((high - low) / largestFraction).isFinite = false := by
  have hfin := (Bool.and_eq_true_iff.mp hd).2
  have hle := ((Scalar.Ordered.lt_iff low high).mp hlt).1
  have hspread : (Scalar.isFinite (Scalar.spread low high) : Bool) =
      ((high - low) / largestFraction).isFinite := Doubles.isFinite_spread hlt hfin
  unfold aborts Draw.isPossible
  dsimp only
  rw [hd, hspread, decide_eq_true hle]
  simp

/-- A range that a script comes to gives its lower bound without a draw, or is drawn from between
finite bounds in order.  Then the width over the largest fraction is finite, and the draw is made,
just if the width is not one of the two largest doubles. -/
theorem Accepted.sampled {low high : Float} (h : (range low high).Accepted) :
    ((range low high).aborts = false ∧
      ∀ source, (range low high).sample source = (low, source)) ∨
    (low ≤ high ∧ low.isFinite ∧ high.isFinite ∧
      (∀ source, (range low high).sample source = Draw.uniform low high source) ∧
      (((high - low) / largestFraction).isFinite ↔ high - low ≤ Doubles.widest) ∧
      ((range low high).aborts ↔ ¬ high - low ≤ Doubles.widest)) := by
  cases hd : (range low high).draws with
  | false =>
    refine .inl ⟨?_, fun source => ?_⟩
    · rw [aborts, hd, Bool.false_and]
    · rw [sample, hd]
      rfl
  | true =>
    have hfin := (Bool.and_eq_true_iff.mp hd).2
    have hlt := ((draws_iff (h.le hfin)).mp hd).1
    obtain ⟨hlow, hhigh⟩ := Doubles.isFinite_of_sub hfin
    have hwidth : ((high - low) / largestFraction).isFinite ↔ high - low ≤ Doubles.widest :=
      (Doubles.div_width hlt hfin).2
    refine .inr ⟨h.le hfin, hlow, hhigh, fun source => ?_, hwidth, ?_⟩
    · rw [sample, hd]
      rfl
    · rw [aborts_iff hd hlt, ← hwidth, Bool.not_eq_true]

/-- Half of the widest range can be drawn from. -/
theorem Accepted.sampled_halved :
    let high := Float.ofBits 0x7fdfffffffffffff
    ((range 0 high).Accepted ∧ high - 0 ≤ Doubles.widest) ∧
      (∀ source, (range 0 high).sample source = Draw.uniform 0 high source) ∧
      ((high - 0) / largestFraction).isFinite ∧ ¬ (range 0 high).aborts := by
  intro high
  have hread : Quantity.read "0..1.7976931348623157e308".toList =
      .ok (.range 0 (Float.ofBits 0x7fefffffffffffff)) := by decide +kernel
  have hhalf : (range 0 (Float.ofBits 0x7fefffffffffffff)).scaledBy 0.5 = range 0 high := by
    decide +kernel
  have h : (range 0 high).Accepted := hhalf ▸ .scaled 0.5 (.read hread)
  have hwidth : high - 0 ≤ Doubles.widest := by decide +kernel
  obtain ⟨-, hlow⟩ | ⟨-, -, -, hsample, hscale, haborts⟩ := h.sampled
  · -- the largest word does not give the lower bound
    have hfst : ((range 0 high).sample (.ofWords [0xffffffffffffffff])).1 = 0 :=
      congrArg Prod.fst (hlow _)
    exact absurd hfst (by decide +kernel)
  · exact ⟨⟨h, hwidth⟩, hsample, hscale.mpr hwidth, fun ha => haborts.mp ha hwidth⟩

/-- The widest of all ranges is read, but it cannot be drawn from. -/
theorem sampled_widest :
    let high := Float.ofBits 0x7fefffffffffffff
    Quantity.read "0..1.7976931348623157e308".toList = .ok (.range 0 high) ∧
      (range 0 high).draws ∧ ((high - 0) / largestFraction).isFinite = false ∧
      compileAborts Float false
        "group g:\n  volume = 0..1.7976931348623157e308\n  loop \"a\":\nendgroup\n" := by
  intro high
  refine ⟨?_, ?_, ?_, ?_⟩
  · decide +kernel
  · decide +kernel
  · decide +kernel
  · decide +kernel

/-- Sampling a range aborts just if its width is one of the two largest. -/
theorem aborts_iff_width {low high : Float} (hle : low ≤ high) (hfin : (high - low).isFinite) :
    (range low high).aborts ↔ low < high ∧ ¬ high - low ≤ Doubles.widest := by
  have hdraws := draws_iff hle
  by_cases hlt : low < high
  · have hwidth : ((high - low) / largestFraction).isFinite ↔ high - low ≤ Doubles.widest :=
      (Doubles.div_width hlt hfin).2
    rw [aborts_iff (hdraws.mpr ⟨hlt, hfin⟩) hlt, ← hwidth, Bool.not_eq_true, and_iff_right hlt]
  · have hd : ¬ (range low high).draws := fun hd => hlt (hdraws.mp hd).1
    simp [aborts, hd, hlt]

theorem Measured.aborts_iff {q : Quantity Float} (h : q.Measured) :
    q.aborts ↔ ∃ low high, q = .range low high ∧ low < high ∧ ¬ high - low ≤ Doubles.widest := by
  cases h with
  | unset => simp [aborts]
  | fixed => simp [aborts]
  | range _ _ hle hfin =>
    rw [aborts_iff_width hle hfin]
    simp

end Quantity

/-! ### Flattening -/

/-- A volume or a pitch of a statement that takes over a range of one of the two largest widths
from its group. -/
def AxisDef.Undrawable (own group : Option (AxisDef Float)) : Prop :=
  (∀ spec, own ≠ some (.animated spec)) ∧ ∃ low high,
    group = some (.plain (.range low high)) ∧ low < high ∧ ¬ high - low ≤ Doubles.widest

/-- A statement whose volume or pitch cannot be drawn. -/
def Site.Undrawable (x : Site Float) : Prop :=
  AxisDef.Undrawable x.written.props.volume x.defaults.volume ∨
    AxisDef.Undrawable x.written.props.pitch x.defaults.pitch

namespace Statement

theorem axisAborts_iff (own : Option (AxisDef Float)) {group : Option (AxisDef Float)}
    (hm : ∀ a ∈ group, a.Measured) : axisAborts own group ↔ AxisDef.Undrawable own group := by
  unfold AxisDef.Undrawable
  match own, group with
  | some (.animated _), _ => simp [axisAborts]
  | none, none => simp [axisAborts]
  | some (.plain _), none => simp [axisAborts]
  | none, some (.animated _) => simp [axisAborts]
  | some (.plain _), some (.animated _) => simp [axisAborts]
  | none, some (.plain factor) =>
    have hq : factor.Measured := hm _ rfl
    simpa [axisAborts] using hq.aborts_iff
  | some (.plain _), some (.plain factor) =>
    have hq : factor.Measured := hm _ rfl
    simpa [axisAborts] using hq.aborts_iff

theorem itemAborts_eq (i : Item Float) :
    itemAborts i = i.sites.any fun x => defAborts x.defaults x.written := by
  cases i with
  | statement d => simp [itemAborts, Item.sites]
  | group g => simp [itemAborts, Item.sites, Function.comp_def]

end Statement

/-- Flattening a script aborts just if the volume or the pitch of a statement cannot be drawn. -/
theorem compileAborts_iff (strict : Bool) (source : String) :
    compileAborts Float strict source ↔
      ∃ x ∈ (readScript strict source : Findings Float).items.flatMap Item.sites, x.Undrawable := by
  have hsites : compileAborts Float strict source =
      ((readScript strict source : Findings Float).items.flatMap Item.sites).any
        fun x => Statement.defAborts x.defaults x.written := by
    rw [List.any_flatMap]
    exact congrArg (List.any _) (funext Statement.itemAborts_eq)
  rw [hsites, List.any_eq_true]
  refine exists_congr fun x => and_congr_right fun hx => ?_
  have hm := (Site.of_kept Properties.kept_measured strict source hx).1
  rw [Statement.defAborts, Bool.or_eq_true, Statement.axisAborts_iff _ hm.volume,
    Statement.axisAborts_iff _ hm.pitch, Site.Undrawable]

/-- A script in which the volume and the pitch of all statements can be drawn is flattened as it
should be; any other script aborts the program. -/
theorem Statement.flattened_of_drawable (strict : Bool) (source : String) (s : Source) :
    let items := (readScript strict source : Findings Float).items
    (compileAborts Float strict source ↔ ∃ x ∈ items.flatMap Item.sites, x.Undrawable) ∧
      ((∀ x ∈ items.flatMap Item.sites, ¬ x.Undrawable) →
        compileAborts Float strict source = false ∧ Flattened items s (ofItems items s)) := by
  intro items
  have haborts := compileAborts_iff strict source
  refine ⟨haborts, fun hdrawable => ⟨?_, flattened_ofItems strict source s⟩⟩
  rw [← Bool.not_eq_true, haborts]
  rintro ⟨x, hx, hundrawable⟩
  exact hdrawable x hx hundrawable

/-- Two statements draw their group's pitch, one word each, and the third draws none. -/
theorem Statement.flattened_of_drawable_pitch :
    let source :=
      "group g:\n  pitch = 0.5..1\n  loop \"a\":\n  loop \"b\":\nendgroup\nloop \"c\":\n"
    let items := (readScript false source : Findings Float).items
    let s := Source.ofWords [3, 5, 7]
    (∀ x ∈ items.flatMap Item.sites, ¬ x.Undrawable) ∧ compileAborts Float false source = false ∧
      (ofItems items s).1.length = 3 ∧ (ofItems items s).2 = s.skip 2 := by
  intro source items s
  obtain ⟨haborts, hflattened⟩ := flattened_of_drawable false source s
  have hno : ¬ compileAborts Float false source := by decide +kernel
  have hdrawable : ∀ x ∈ items.flatMap Item.sites, ¬ x.Undrawable := fun x hx hundrawable =>
    hno (haborts.mpr ⟨x, hx, hundrawable⟩)
  obtain ⟨hreturns, hflat⟩ := hflattened hdrawable
  have hlength : (items.flatMap Item.sites).length = 3 := by decide +kernel
  have hwords : ((items.flatMap Item.sites).map Site.words).sum = 2 := by decide +kernel
  refine ⟨hdrawable, hreturns, ?_, ?_⟩
  · rw [hflat.length, hlength]
  · rw [hflat.source, hwords]

/-- The widest pitch of all has a finite width, and a word should be drawn for one of the two
statements.  But the program aborts. -/
theorem Statement.flattened_of_drawable_widest :
    let source :=
      "group g:\n  pitch = 0..1.7976931348623157e308\n  2 * loop \"a\":\nendgroup\nloop \"b\":\n"
    let sites := (readScript false source : Findings Float).items.flatMap Item.sites
    sites.length = 2 ∧ (sites.map Site.words).sum = 1 ∧ compileAborts Float false source := by
  intro source sites
  refine ⟨?_, ?_, ?_⟩
  · decide +kernel
  · decide +kernel
  · decide +kernel

end Soundscape
