import Mathlib.Data.List.Forall2
import Soundscape.Proofs.Script.Slots
import Soundscape.Proofs.Script.Written

/-!
# Strict rules about curves

Under strict rules a call that names an unknown curve is refused; nothing else differs
(`Reader.call_tightened`, `Setting.read_tightened`).  So a line whose call is refused only because
of the rules leaves what is open as a blank line would, but for the block of a group that it ends
(`Context.step_strict_of_unknown`), and every other line does the same under both rules
(`Context.step_strict_of_known`).
-/

namespace Soundscape

variable {α A B E F : Type}

/-! ## Calls -/

/-- The second outcome is the first, or it is an error about the name of an unknown curve.  A result
in which an unknown curve is named does not stay. -/
inductive Outcome.Tightened (unknown? : A → Option String) (About : String → E → Prop) :
    Except E A → Except E A → Prop where
  | same {x : Except E A} : (∀ a, x = .ok a → unknown? a = none) → Tightened unknown? About x x
  | refused {x : Except E A} {name : String} {e : E} : Ease.ofName? name = none → About name e →
      (∀ a, x = .ok a → unknown? a = some name) → Tightened unknown? About x (.error e)

namespace Outcome.Tightened

variable {unknown? : A → Option String} {unknown?' : B → Option String}
  {About : String → E → Prop} {About' : String → F → Prop} {x y : Except E A}

theorem error (e : E) : Tightened unknown? About (.error e) (.error e) := .same nofun

theorem map {f : A → B} (h : Tightened unknown? About x y)
    (hf : ∀ a, unknown?' (f a) = unknown? a) :
    Tightened unknown?' About (f <$> x) (f <$> y) := by
  cases h with
  | same hx =>
    refine .same fun b hb => ?_
    obtain ⟨a, ha, rfl⟩ := Outcome.of_map_eq_ok hb
    rw [hf, hx a ha]
  | refused hname he hx =>
    refine .refused hname he fun b hb => ?_
    obtain ⟨a, ha, rfl⟩ := Outcome.of_map_eq_ok hb
    rw [hf, hx a ha]

end Outcome.Tightened

/-- The name of the curve of an interpolation, if no curve has it. -/
def Interpolation.unknownEase? (spec : Interpolation α) : Option String :=
  if (Ease.ofName? spec.easeName).isNone then some spec.easeName else none

namespace Reader

/-- The fault is about a curve of some name. -/
def AboutEase (name : String) (f : Fault α) : Prop := f.problem = .unknownEase name

variable [Scalar α]

theorem easeName_repetition {spec : Interpolation α} {name : String} (h : spec.easeName = name) :
    Yields (fun s => s.easeName = name) (repetition spec) := by
  unfold repetition
  refine .skip fun _ => ?_
  split
  · exact .pure h
  · refine .skip fun _ => ?_
    split
    · refine .skip fun _ => ?_
      split
      · exact .pure h
      · exact .skip fun n => .pure h
    · exact .pure h

/-- The second reader is the first, but that it fails at the name of an unknown curve. -/
def Tightened (x y : Reader α (Interpolation α)) : Prop :=
  ∀ ts, Outcome.Tightened (fun r => r.1.unknownEase?) AboutEase (x ts) (y ts)

omit [Scalar α] in
theorem Tightened.bind_left (x : Reader α A) {f g : A → Reader α (Interpolation α)}
    (h : ∀ a, Tightened (f a) (g a)) : Tightened (x >>= f) (x >>= g) := by
  intro ts
  show Outcome.Tightened _ _ (x ts >>= fun r => f r.1 r.2) (x ts >>= fun r => g r.1 r.2)
  cases x ts with
  | error e => exact .error e
  | ok r => exact h r.1 r.2

omit [Scalar α] in
theorem easeName_tightened {k : String → Reader α (Interpolation α)}
    (hk : ∀ name, Yields (fun spec => spec.easeName = name) (k name)) :
    Tightened (easeName false >>= k) (easeName true >>= k) := by
  intro ts
  show Outcome.Tightened _ _ (easeName false ts >>= fun r => k r.1 r.2)
    (easeName true ts >>= fun r => k r.1 r.2)
  unfold easeName
  cases take .easeName ident? ts with
  | error e => exact .error e
  | ok r =>
    obtain ⟨name, rest⟩ := r
    show Outcome.Tightened _ _ (k name rest)
      ((if (Ease.ofName? name).isNone then .error ⟨.unknownEase name, here ts⟩
        else .ok (name, rest) : Except (Fault α) _) >>= fun r => k r.1 r.2)
    by_cases hname : (Ease.ofName? name).isNone
    · rw [if_pos hname]
      refine .refused (Option.isNone_iff_eq_none.mp hname) rfl fun r hr => ?_
      unfold Interpolation.unknownEase?
      rw [hk name hr, if_pos hname]
    · rw [if_neg hname]
      refine .same fun r hr => ?_
      unfold Interpolation.unknownEase?
      rw [hk name hr, if_neg hname]

/-- Under strict rules a call is refused if it names an unknown curve, even if it would be refused
for something later in it. -/
theorem call_tightened : Tightened (call false (α := α)) (call true) := by
  unfold call
  refine .bind_left motion fun m => .bind_left (take _ _) fun _ => ?_
  refine .bind_left quantity fun low => .bind_left (take _ _) fun _ => ?_
  refine .bind_left quantity fun high => .bind_left (take _ _) fun _ => ?_
  refine easeName_tightened fun name => .skip fun _ => .skip fun duration => ?_
  exact (easeName_repetition rfl).bind fun spec h => .skip fun _ => .skip fun _ => .pure h

end Reader

/-! ## Property lines -/

/-- The name of the curve of a volume or pitch, if no curve has it. -/
def AxisDef.unknownEase? : AxisDef α → Option String
  | .animated spec => spec.unknownEase?
  | .plain _ => none

namespace Setting

/-- The name of the curve that a property line asks for, if no curve has it. -/
def unknownEase? : Setting α → Option String
  | .volume axis | .pitch axis => axis.unknownEase?
  | _ => none

/-- The error is about a curve of some name. -/
def AboutEase (name : String) (e : Problem α × Nat) : Prop := e.1 = .unknownEase name

variable [Scalar α]

theorem readTokens_tightened {unknown? : A → Option String} (column : Nat) (text : List Char)
    {x y : List (Placed α) → Except (Fault α) A}
    (h : ∀ ts, Outcome.Tightened unknown? Reader.AboutEase (x ts) (y ts)) :
    Outcome.Tightened unknown? AboutEase (readTokens column text x) (readTokens column text y) := by
  unfold readTokens
  split
  · exact .error _
  · next ts _ =>
    have hts := h ts
    generalize x ts = r at hts ⊢
    generalize y ts = r' at hts ⊢
    cases hts with
    | same hr =>
      refine .same fun a ha => ?_
      cases r with
      | ok b =>
        cases ha
        exact hr _ rfl
      | error f => cases ha
    | refused hname hf hr =>
      refine .refused hname hf fun a ha => ?_
      cases r with
      | ok b =>
        cases ha
        exact hr _ rfl
      | error f => cases ha

theorem readAxis_tightened (column : Nat) (text : List Char) :
    Outcome.Tightened AxisDef.unknownEase? AboutEase (readAxis false column text : Outcome α _)
      (readAxis true column text) := by
  unfold readAxis
  split
  · refine .map (readTokens_tightened column text fun ts => ?_) fun _ => rfl
    exact (Reader.call_tightened ts).map fun _ => rfl
  · refine .same fun a ha => ?_
    obtain ⟨q, -, rfl⟩ := Outcome.of_map_eq_ok ha
    rfl

/-- Strict rules refuse the property lines that name an unknown curve. -/
theorem read_tightened (owner : Owner) (l : Line) :
    Outcome.Tightened unknownEase? AboutEase (read false owner l : Outcome α _)
      (read true owner l) := by
  have hsame {T : Type} {x : Outcome α T} {f : T → Setting α}
      (hf : ∀ a, (f a).unknownEase? = none) :
      Outcome.Tightened unknownEase? AboutEase (f <$> x) (f <$> x) := by
    refine .same fun s hs => ?_
    obtain ⟨a, -, rfl⟩ := Outcome.of_map_eq_ok hs
    exact hf a
  unfold read
  dsimp only
  split
  · exact .error _
  · split
    iterate 2 exact (readAxis_tightened _ _).map (by intro; rfl)
    iterate 5 exact hsame (by intro; rfl)
    · exact hsame (by intro; rfl)
    iterate 2
      by_cases ho : owner = .group
      · rw [if_pos ho]
        exact .error _
      · rw [if_neg ho]
        exact hsame (by intro; rfl)
    · exact .error _

end Setting

/-! ## Lines -/

/-- The name of the curve that a line asks for, if no curve has it, where the line is accepted
otherwise. -/
def Context.unknownEase? [Scalar α] (c : Context α) (l : Line) : Option String :=
  match c.slot? l with
  | none => none
  | some x =>
    match Setting.read (α := α) false x.owner l with
    | .ok s => s.unknownEase?
    | .error _ => none

/-- The second diagnostic is the first, or it is about an unknown curve on the same line. -/
inductive Diagnostic.Instead : Diagnostic α → Diagnostic α → Prop where
  | same (d : Diagnostic α) : Instead d d
  | ease {d : Diagnostic α} {name : String} {column : Nat} : Ease.ofName? name = none →
      Instead d ⟨.unknownEase name, d.line, column⟩

namespace Context

variable [Scalar α] {c : Context α} {l : Line}

theorem unknownEase?_bare (c : Context α) (l : Line) :
    c.bare.unknownEase? l = c.unknownEase? l := by
  have howner := c.owner_bare (l := l)
  unfold unknownEase?
  cases hb : c.bare.slot? l <;> cases hc : c.slot? l <;> rw [hb, hc] at howner
  · cases howner
  · cases howner
  · dsimp only
    rw [Option.some_inj.mp howner]

/-- A line that is not refused for its curve alone does the same under strict rules. -/
theorem step_strict_of_known (h : c.unknownEase? l = none) :
    (step true c l).1 = (step false c l).1 ∧ (step true c l).2.items = (step false c l).2.items ∧
      List.Forall₂ Diagnostic.Instead (step false c l).2.diagnostics
        (step true c l).2.diagnostics := by
  unfold unknownEase? at h
  cases hx : c.slot? l with
  | none =>
    rw [step_of_no_slot hx]
    exact ⟨rfl, rfl, List.forall₂_same.mpr fun d _ => .same d⟩
  | some x =>
    rw [hx] at h
    have hread := Setting.read_tightened (α := α) x.owner l
    rw [step_of_slot hx, step_of_slot hx]
    unfold Line.setting
    dsimp only at h
    generalize Setting.read (α := α) false x.owner l = r at h hread ⊢
    generalize Setting.read (α := α) true x.owner l = r' at hread ⊢
    cases hread with
    | same _ => exact ⟨rfl, rfl, List.forall₂_same.mpr fun d _ => .same d⟩
    | @refused name e hname he hr =>
      cases r with
      | ok s =>
        have hs : s.unknownEase? = none := h
        rw [hr s rfl] at hs
        cases hs
      | error e' =>
        obtain ⟨problem, column⟩ := e
        obtain rfl : problem = .unknownEase name := he
        exact ⟨rfl, rfl, .cons (.ease hname) .nil⟩

/-- A line that is refused for its curve alone leaves the properties as they were. -/
theorem step_strict_of_unknown {name : String} (h : c.unknownEase? l = some name) :
    ∃ x column, c.slot? l = some x ∧ Ease.ofName? name = none ∧
      step true c l = (x.after x.props, .only [⟨.unknownEase name, l.number, column⟩]) ∧
      (step false c l).1.bare = (x.after x.props).bare ∧ (step false c l).2.diagnostics = [] := by
  unfold unknownEase? at h
  cases hx : c.slot? l with
  | none =>
    rw [hx] at h
    cases h
  | some x =>
    rw [hx] at h
    have hread := Setting.read_tightened (α := α) x.owner l
    rw [step_of_slot hx, step_of_slot hx]
    unfold Line.setting
    dsimp only at h
    generalize Setting.read (α := α) false x.owner l = r at h hread ⊢
    generalize Setting.read (α := α) true x.owner l = r' at hread ⊢
    cases r with
    | error e => cases h
    | ok s =>
      have hs : s.unknownEase? = some name := h
      cases hread with
      | same hr =>
        rw [hr s rfl] at hs
        cases hs
      | @refused name' e hname he hr =>
        obtain rfl : name' = name := Option.some_inj.mp ((hr s rfl).symm.trans hs)
        obtain ⟨problem, column⟩ := e
        obtain rfl : problem = .unknownEase name' := he
        exact ⟨x, column, rfl, hname, rfl, after_bare hx _ _, rfl⟩

end Context

end Soundscape
