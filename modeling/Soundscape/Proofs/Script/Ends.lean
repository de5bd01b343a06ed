import Soundscape.Proofs.Script.Flattening

/-!
# The ends of an interpolation

The ends of an interpolation are read as numbers or ranges, never left out, and flattening hands
the interpolations of a script on as they are.  So every interpolation of a compiled statement has
both its ends (`Statement.spans_compile`).
-/

namespace Soundscape

variable {α : Type}

/-- Both ends of an interpolation are given. -/
structure Interpolation.Spans (i : Interpolation α) : Prop where
  low : i.low.isSet
  high : i.high.isSet

/-- A volume or a pitch whose interpolation has both ends. -/
def AxisDef.Spans : AxisDef α → Prop
  | .plain _ => True
  | .animated spec => spec.Spans

/-- Properties whose interpolations have both ends. -/
structure Properties.Spans (p : Properties α) : Prop where
  volume : ∀ a ∈ p.volume, a.Spans
  pitch : ∀ a ∈ p.pitch, a.Spans

theorem Properties.spans_empty (every : Option (Quantity α)) :
    ({ every } : Properties α).Spans :=
  ⟨fun a ha => absurd ha (Option.not_mem_none a), fun a ha => absurd ha (Option.not_mem_none a)⟩

/-- A statement whose interpolations have both ends. -/
structure Statement.Spans (s : Statement α) : Prop where
  volume : ∀ i ∈ s.volumeInterpolation, i.Spans
  pitch : ∀ i ∈ s.pitchInterpolation, i.Spans

variable [Scalar α]

/-! ### In a script -/

namespace Reader

theorem isSet_quantity : Yields (fun q => q.isSet = true) (quantity (α := α)) := by
  intro ts q rest h
  obtain ⟨⟨a, r₁⟩, -, h⟩ := Outcome.of_bind_eq_ok h
  obtain ⟨⟨isRange, r₂⟩, -, h⟩ := Outcome.of_bind_eq_ok h
  dsimp only at h
  split at h
  · obtain ⟨⟨b, r₃⟩, -, h⟩ := Outcome.of_bind_eq_ok h
    dsimp only at h
    split at h <;> cases h
    unfold Quantity.between
    split <;> rfl
  · cases h
    rfl

theorem spans_repetition {spec : Interpolation α} (hs : spec.Spans) :
    Yields Interpolation.Spans (repetition spec) := by
  have hendless : spec.endless.Spans := ⟨hs.low, hs.high⟩
  have htimes (n : Nat) : (spec.times n).Spans := ⟨hs.low, hs.high⟩
  unfold repetition
  refine .skip fun _ => ?_
  split
  · exact .pure hendless
  · refine .skip fun _ => ?_
    split
    · refine .skip fun _ => ?_
      split
      · exact .pure hendless
      · exact .skip fun n => .pure (htimes n)
    · exact .pure hs

theorem spans_call (strict : Bool) : Yields Interpolation.Spans (call strict (α := α)) := by
  unfold call
  refine .skip fun motion => .skip fun _ => ?_
  refine isSet_quantity.bind fun low hlow => .skip fun _ => ?_
  refine isSet_quantity.bind fun high hhigh => .skip fun _ => ?_
  refine .skip fun name => .skip fun _ => .skip fun duration => ?_
  refine (spans_repetition ⟨hlow, hhigh⟩).bind fun spec hspec => ?_
  exact .skip fun _ => .skip fun _ => .pure hspec

end Reader

namespace Setting

theorem spans_readAxis {strict : Bool} {column : Nat} {cs : List Char} {a : AxisDef α}
    (h : readAxis strict column cs = .ok a) : a.Spans := by
  unfold readAxis at h
  split at h
  · obtain ⟨spec, hs, rfl⟩ := Outcome.of_map_eq_ok h
    unfold readTokens at hs
    split at hs
    · cases hs
    · split at hs
      · next hr =>
        cases hs
        obtain ⟨⟨_, rest⟩, hc, rfl⟩ := Outcome.of_map_eq_ok hr
        exact Reader.spans_call strict hc
      · cases hs
  · obtain ⟨q, -, rfl⟩ := Outcome.of_map_eq_ok h
    trivial

/-- What a property line says of a level has both ends. -/
def Spans : Setting α → Prop
  | .volume a | .pitch a => a.Spans
  | _ => True

theorem spans_read {strict : Bool} {owner : Owner} {l : Line} {s : Setting α}
    (h : read strict owner l = .ok s) : s.Spans := by
  unfold read at h
  dsimp only at h
  split at h
  · cases h
  · have hother {A : Type} {x : Outcome α A} {f : A → Setting α} (h : f <$> x = .ok s)
        (hf : ∀ a, (f a).Spans) : s.Spans := by
      obtain ⟨a, -, rfl⟩ := Outcome.of_map_eq_ok h
      exact hf a
    split at h
    · obtain ⟨a, ha, rfl⟩ := Outcome.of_map_eq_ok h
      exact spans_readAxis ha
    · obtain ⟨a, ha, rfl⟩ := Outcome.of_map_eq_ok h
      exact spans_readAxis ha
    iterate 6 exact hother h fun _ => trivial
    · split at h
      · cases h
      · exact hother h fun _ => trivial
    · split at h
      · cases h
      · exact hother h fun _ => trivial
    · cases h

end Setting

theorem Properties.kept_spans : Properties.Kept (Properties.Spans (α := α)) where
  empty := spans_empty none
  header {l h} _ := spans_empty h.every
  setting {strict owner l s p} hs hp := by
    have h := Setting.spans_read hs
    cases s with
    | volume a => exact ⟨by rintro _ ⟨⟩; exact h, hp.pitch⟩
    | pitch a => exact ⟨hp.volume, by rintro _ ⟨⟩; exact h⟩
    | _ => exact ⟨hp.volume, hp.pitch⟩

/-! ### In its statements -/

theorem Statement.spans_axis {own group : Option (AxisDef α)} (ho : ∀ a ∈ own, a.Spans)
    (hg : ∀ a ∈ group, a.Spans) (s : Source) : ∀ i ∈ (axis own group s).1.2, i.Spans := by
  intro i hi
  match own, group with
  | some (.animated spec), _ => exact Option.mem_some_iff.mp hi ▸ ho _ rfl
  | some (.plain value), some (.animated spec) => exact Option.mem_some_iff.mp hi ▸ hg _ rfl
  | none, some (.animated spec) => exact Option.mem_some_iff.mp hi ▸ hg _ rfl
  | some (.plain value), some (.plain factor) =>
    unfold axis at hi
    dsimp only at hi
    split at hi <;> cases hi
  | none, some (.plain factor) =>
    unfold axis at hi
    dsimp only at hi
    split at hi <;> cases hi
  | some (.plain value), none => cases hi
  | none, none => cases hi

theorem Site.spans_flatten {x : Site α} (hd : x.defaults.Spans) (hw : x.written.props.Spans)
    (s : Source) : (x.flatten s).1.Spans :=
  ⟨Statement.spans_axis hw.volume hd.volume s, Statement.spans_axis hw.pitch hd.pitch _⟩

theorem Draw.mem_mapM {A B : Type} {f : A → Draw B} {P : B → Prop} {xs : List A}
    (h : ∀ x ∈ xs, ∀ s, P (f x s).1) (s : Source) : ∀ y ∈ (xs.mapM f s).1, P y := by
  induction xs generalizing s with
  | nil => exact fun _ hy => absurd hy List.not_mem_nil
  | cons x xs ih =>
    obtain ⟨hx, hxs⟩ := List.forall_mem_cons.mp h
    rw [mapM_cons]
    exact List.forall_mem_cons.mpr ⟨hx s, ih hxs _⟩

/-- All interpolations of the statements of a script have both ends. -/
theorem Statement.spans_compile (strict : Bool) (script : String) (draws : Source) :
    ∀ s ∈ (compile (α := α) strict script draws).1.statements, s.Spans := by
  have hstatements : (compile (α := α) strict script draws).1.statements =
      (ofItems (readScript strict script).items draws).1 := rfl
  rw [hstatements, ofItems_eq]
  refine Draw.mem_mapM (fun x hx s => ?_) draws
  obtain ⟨i, hi, hx⟩ := List.mem_flatMap.mp hx
  have hspans := Properties.kept_spans.readScript strict script i hi
  cases i with
  | statement d =>
    obtain rfl := List.mem_singleton.mp hx
    have hd : d.props.Spans := hspans
    exact Site.spans_flatten Properties.kept_spans.empty hd s
  | group g =>
    obtain ⟨d, hd, rfl⟩ := List.mem_map.mp hx
    exact Site.spans_flatten hspans.1 (hspans.2 d hd) s

end Soundscape
