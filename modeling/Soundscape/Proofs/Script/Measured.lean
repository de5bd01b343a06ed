import Soundscape.Proofs.Script.Groups
import Soundscape.Proofs.Script.Lexed

/-!
# The numbers of a script

The value of a property line is read as a text of its own, so its numbers are finite
(`Setting.measured_read`).  All that a script says is finite and in order, but for what is read as
tokens (`readScript_measured`), and there it may not be (`readScript_unmeasured`).
-/

namespace Soundscape

/-- A volume or pitch whose numbers are finite, but for those of an interpolation. -/
def AxisDef.Measured : AxisDef Float → Prop
  | .plain q => q.Measured
  | .animated spec => spec.Lexed

def Movement.Measured : Movement Float → Prop
  | .still => True
  | .walk x z speed => x.Measured ∧ z.Measured ∧ speed.Measured
  | .fly x y z speed => x.Measured ∧ y.Measured ∧ z.Measured ∧ speed.Measured
  | .fixed x y z => x.Measured ∧ y.Measured ∧ z.Measured

/-- Properties whose numbers are finite, but for the time from one firing to the next and those of
an interpolation. -/
structure Properties.Measured (p : Properties Float) : Prop where
  volume : ∀ a ∈ p.volume, a.Measured
  pitch : ∀ a ∈ p.pitch, a.Measured
  startsAt : ∀ q ∈ p.startsAt, q.Measured
  duration : ∀ q ∈ p.duration, q.Measured
  fadeIn : ∀ q ∈ p.fadeIn, q.Measured
  fadeOut : ∀ q ∈ p.fadeOut, q.Measured
  every : ∀ q ∈ p.every, q.Lexed
  movement : ∀ m ∈ p.movement, m.Measured

/-- What a property line says is finite, but for the numbers of an interpolation. -/
def Setting.Measured : Setting Float → Prop
  | .volume a | .pitch a => a.Measured
  | .startsAt q | .duration q | .fadeIn q | .fadeOut q | .every q => q.Measured
  | .movement m => m.Measured
  | .overlap _ | .visuals _ => True

namespace Setting

theorem measured_readQuantity {column : Nat} {cs : List Char} {q : Quantity Float}
    (h : readQuantity column cs = .ok q) : q.Measured := by
  unfold readQuantity at h
  split at h
  · next hq =>
    cases h
    exact Quantity.measured_read hq
  · cases h

theorem measured_readAxis {strict : Bool} {column : Nat} {cs : List Char} {a : AxisDef Float}
    (h : readAxis strict column cs = .ok a) : a.Measured := by
  unfold readAxis at h
  split at h
  · obtain ⟨spec, hs, rfl⟩ := Outcome.of_map_eq_ok h
    exact (Reader.lexed_call strict).readTokens hs
  · obtain ⟨q, hq, rfl⟩ := Outcome.of_map_eq_ok h
    exact measured_readQuantity hq

theorem measured_readCoordinate {column : Nat} {mode : String} {cs : List Char}
    {q : Quantity Float} (h : readCoordinate column mode cs = .ok q) : q.Measured := by
  unfold readCoordinate at h
  split at h
  · next hq =>
    split at h <;> cases h
    exact measured_readQuantity hq
  · cases h

theorem measured_mapM {f : List Char → Outcome Float (Quantity Float)}
    (hf : ∀ {cs q}, f cs = .ok q → q.Measured) {texts : List (List Char)}
    {qs : List (Quantity Float)} (h : texts.mapM f = .ok qs) : ∀ q ∈ qs, q.Measured := by
  induction texts generalizing qs with
  | nil =>
    cases h
    nofun
  | cons cs texts ih =>
    rw [List.mapM_cons] at h
    obtain ⟨q, hq, h⟩ := Outcome.of_bind_eq_ok h
    obtain ⟨rest, hrest, h⟩ := Outcome.of_bind_eq_ok h
    cases h
    exact List.forall_mem_cons.mpr ⟨hf hq, ih hrest⟩

theorem measured_movementOf (mode : String) {qs : List (Quantity Float)}
    (h : ∀ q ∈ qs, q.Measured) : (movementOf mode qs).Measured := by
  unfold movementOf
  split <;> simp_all [Movement.Measured]

theorem measured_readMovement {column : Nat} {cs : List Char} {m : Movement Float}
    (h : readMovement column cs = .ok m) : m.Measured := by
  unfold readMovement at h
  split at h
  · cases h
    trivial
  · dsimp only at h
    split at h
    · cases h
    · split at h
      · obtain ⟨qs, hqs, rfl⟩ := Outcome.of_map_eq_ok h
        exact measured_movementOf _ (measured_mapM measured_readCoordinate hqs)
      · cases h

theorem measured_read {strict : Bool} {owner : Owner} {l : Line} {s : Setting Float}
    (h : read strict owner l = .ok s) : s.Measured := by
  unfold read at h
  dsimp only at h
  split at h
  · cases h
  · have haxis (f : AxisDef Float → Setting Float) (hf : ∀ a, a.Measured → (f a).Measured)
        (h : f <$> readAxis strict (valueColumn l) (value l) = .ok s) : s.Measured := by
      obtain ⟨a, ha, rfl⟩ := Outcome.of_map_eq_ok h
      exact hf a (measured_readAxis ha)
    have hquantity (f : Quantity Float → Setting Float) (hf : ∀ q, q.Measured → (f q).Measured)
        (h : f <$> readQuantity (valueColumn l) (value l) = .ok s) : s.Measured := by
      obtain ⟨q, hq, rfl⟩ := Outcome.of_map_eq_ok h
      exact hf q (measured_readQuantity hq)
    split at h
    · exact haxis volume (fun _ ha => ha) h
    · exact haxis pitch (fun _ ha => ha) h
    · exact hquantity startsAt (fun _ hq => hq) h
    · exact hquantity duration (fun _ hq => hq) h
    · exact hquantity fadeIn (fun _ hq => hq) h
    · exact hquantity fadeOut (fun _ hq => hq) h
    · exact hquantity every (fun _ hq => hq) h
    · obtain ⟨b, -, rfl⟩ := Outcome.of_map_eq_ok h
      trivial
    · split at h
      · cases h
      · obtain ⟨m, hm, rfl⟩ := Outcome.of_map_eq_ok h
        exact measured_readMovement hm
    · split at h
      · cases h
      · obtain ⟨vs, -, rfl⟩ := Outcome.of_map_eq_ok h
        trivial
    · cases h

end Setting

theorem Properties.measured_of_every {every : Option (Quantity Float)}
    (h : ∀ q ∈ every, q.Lexed) : ({ every } : Properties Float).Measured := by
  have hnone {A : Type} {P : A → Prop} : ∀ a ∈ (none : Option A), P a := nofun
  exact ⟨hnone, hnone, hnone, hnone, hnone, hnone, h, hnone⟩

theorem Properties.kept_measured : Properties.Kept Properties.Measured where
  empty := measured_of_every nofun
  header {l h} hh := by
    unfold Line.readHeader at hh
    split at hh
    · next hr =>
      cases hh
      exact measured_of_every (Reader.lexed_statementHeader.readTokens hr)
    · cases hh
  setting {strict owner l s p} hs hp := by
    have hm := Setting.measured_read hs
    cases s with
    | volume a => exact { hp with volume := by rintro _ ⟨⟩; exact hm }
    | pitch a => exact { hp with pitch := by rintro _ ⟨⟩; exact hm }
    | startsAt q => exact { hp with startsAt := by rintro _ ⟨⟩; exact hm }
    | duration q => exact { hp with duration := by rintro _ ⟨⟩; exact hm }
    | fadeIn q => exact { hp with fadeIn := by rintro _ ⟨⟩; exact hm }
    | fadeOut q => exact { hp with fadeOut := by rintro _ ⟨⟩; exact hm }
    | every q => exact { hp with every := by rintro _ ⟨⟩; exact .measured hm }
    | movement m => exact { hp with movement := by rintro _ ⟨⟩; exact hm }
    | overlap b => exact { hp with }
    | visuals vs => exact { hp with }

theorem Properties.keptInGroups_measured :
    Properties.KeptInGroups fun p : Properties Float => ∀ q ∈ p.every, q.Measured where
  empty := nofun
  setting {strict l s p} hs hp := by
    have hm := Setting.measured_read hs
    cases s with
    | every q =>
      rintro _ ⟨⟩
      exact hm
    | _ => exact hp

/-- All quantities of a script are nothing, a finite number, or two finite numbers in order and a
finite distance apart, but for two places that are read as tokens: the `every` of a statement's
header, and the ends and the length of an interpolation, can each be one number that is too large
for a double. -/
theorem readScript_measured (strict : Bool) (source : String) :
    (readScript strict source).AllProps Properties.Measured ∧
      ∀ g, .group g ∈ (readScript strict source : Findings Float).items →
        ∀ q ∈ g.props.every, q.Measured :=
  ⟨Properties.kept_measured.readScript strict source,
    Properties.keptInGroups_measured.readScript strict source⟩

/-- One and three hundred and nine zeros after it are too much for a double. -/
theorem readScript_unmeasured :
    let source := String.ofList
      ("loop \"a\" every 1".toList ++ (List.replicate 309 '0' ++ [':']))
    ∃ d v, .statement d ∈ (readScript false source : Findings Float).items ∧
      d.props.every = some (.fixed v) ∧ ¬ (Quantity.fixed v).Measured := by
  intro source
  have hany : (readScript false source : Findings Float).items.any fun
      | .statement d => d.props.every.any fun
        | .fixed v => !v.isFinite
        | _ => false
      | .group _ => false := by
    unfold readScript source
    rw [String.toList_ofList]
    decide +kernel
  obtain ⟨i, hi, h⟩ := List.any_eq_true.mp hany
  cases i with
  | group g => cases h
  | statement d =>
    dsimp only at h
    cases hq : d.props.every with
    | none =>
      rw [hq] at h
      cases h
    | some q =>
      rw [hq, Option.any_some] at h
      cases q with
      | fixed v =>
        refine ⟨d, v, hi, hq, fun hm => ?_⟩
        cases hm with
        | fixed hv =>
          dsimp only at h
          rw [hv] at h
          cases h
      | _ => cases h

end Soundscape
