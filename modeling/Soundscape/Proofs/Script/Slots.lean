import Soundscape.Proofs.Script.Skipped

/-!
# Where properties go

A property line is for the open statement or for the open group, or for nothing: `Context.slot?`.
Apart from that what a line does is the same under all rules (`Context.step_of_slot`,
`Context.step_of_no_slot`).  What is open without its properties, the `bare` context, tells what the
next line is for and which diagnostics it gives (`Context.step_bare`).
-/

namespace Soundscape

variable {α : Type}

/-! ## Slots -/

/-- Where a property line goes. -/
structure Slot (α : Type) where
  owner : Owner
  props : Properties α
  /-- What is open after the line, for the properties after it. -/
  after : Properties α → Context α

/-- The slot of the statement that is open in some context. -/
def Body.slot? (l : Line) (context : Body α → Context α) : Body α → Option (Slot α)
  | .statement i s =>
    if i < l.indent then
      some ⟨.statement, s.props, fun props => context (.statement i { s with props })⟩
    else .none
  | _ => .none

def OpenGroup.slot (g : OpenGroup α) : Slot α where
  owner := .group
  props := g.group.props
  after props := .inGroup { g with group := { g.group with props } } .none

/-- Where a line goes, if it is a property line for the open statement or group. -/
def Context.slot? (l : Line) (c : Context α) : Option (Slot α) :=
  if l.kind = .property then
    match c with
    | .top b => b.slot? l .top
    | .inGroup g b =>
      if b.Takes l then b.slot? l (.inGroup g)
      else if g.indent < l.indent then some (g.adopt b.finished).slot
      else none
    | .refusedGroup _ => none
  else none

variable {strict : Bool} {l : Line} {b : Body α} {c : Context α} {g : OpenGroup α} {x : Slot α}
  {context : Body α → Context α}

/-- The slot is that of the open statement or of the open group. -/
inductive Context.Offers (l : Line) : Context α → Slot α → Prop where
  | top {i : Nat} {s : StatementDef α} : i < l.indent →
      Offers l (.top (.statement i s))
        ⟨.statement, s.props, fun props => .top (.statement i { s with props })⟩
  | inGroup {g : OpenGroup α} {i : Nat} {s : StatementDef α} : i < l.indent →
      Offers l (.inGroup g (.statement i s))
        ⟨.statement, s.props, fun props => .inGroup g (.statement i { s with props })⟩
  | group {g : OpenGroup α} {b : Body α} : ¬ b.Takes l → g.indent < l.indent →
      Offers l (.inGroup g b) (g.adopt b.finished).slot

theorem Body.slot?_eq_some (h : b.slot? l context = some x) :
    ∃ i s, b = .statement i s ∧ i < l.indent ∧
      x = ⟨.statement, s.props, fun props => context (.statement i { s with props })⟩ := by
  unfold slot? at h
  split at h
  · split at h <;> cases h
    next hi => exact ⟨_, _, rfl, hi, rfl⟩
  · cases h

theorem Context.offers_of_slot (h : c.slot? l = some x) :
    l.kind = .property ∧ c.Offers l x := by
  unfold slot? at h
  split at h
  · next hk =>
    refine ⟨hk, ?_⟩
    split at h
    · obtain ⟨i, s, rfl, hi, rfl⟩ := Body.slot?_eq_some h
      exact .top hi
    · split at h
      · obtain ⟨i, s, rfl, hi, rfl⟩ := Body.slot?_eq_some h
        exact .inGroup hi
      · next hb =>
        split at h <;> cases h
        next hi => exact .group hb hi
    · cases h
  · cases h

/-- A line for the open statement leaves it open; a line for the group ends what is open in it. -/
theorem Context.after_props (h : c.slot? l = some x) :
    x.after x.props = c ∨
      ∃ g b, c = .inGroup g b ∧ ¬ b.Takes l ∧
        x.after x.props = .inGroup (g.adopt b.finished) .none := by
  cases (offers_of_slot h).2 with
  | top _ => exact .inl rfl
  | inGroup _ => exact .inl rfl
  | group hb hi => exact .inr ⟨_, _, rfl, hb, rfl⟩

variable [Scalar α]

theorem Body.absorb_property {i : Nat} {s : StatementDef α} (hk : l.kind = .property)
    (hi : i < l.indent) :
    (statement i s).absorb strict l =
      some (statement i { s with props := (l.setting strict .statement s.props).1 },
        (l.setting strict .statement s.props).2) := by
  unfold absorb
  dsimp only
  rw [if_pos hi, hk]

theorem Body.absorb_of_no_slot (h : l.kind = .property → b.slot? l context = .none) :
    b.absorb true l = b.absorb false l := by
  cases b with
  | statement i s =>
    unfold absorb
    dsimp only
    split
    · next hi =>
      split
      · next hk =>
        unfold slot? at h
        dsimp only at h
        rw [if_pos hi] at h
        cases h hk
      · rfl
      · rfl
    · rfl
  | _ => rfl

namespace Context

theorem inside_property (hk : l.kind = .property) (hi : g.indent < l.indent) :
    inside strict g l =
      (g.slot.after (l.setting strict .group g.group.props).1,
        .only (l.setting strict .group g.group.props).2) := by
  unfold inside
  rw [if_neg (by rw [hk]; decide), if_neg (Nat.not_le.mpr hi), hk]
  rfl

theorem inside_of_not_property (h : ¬ (l.kind = .property ∧ g.indent < l.indent)) :
    inside true g l = inside false g l := by
  unfold inside
  split
  · rfl
  · split
    · rfl
    · next hi =>
      split
      · rfl
      · next hk => exact absurd ⟨hk, Nat.not_le.mp hi⟩ h
      · rfl
      · rfl

/-- A line that goes into a slot is read for what the slot is of. -/
theorem step_of_slot (h : c.slot? l = some x) :
    step strict c l =
      (x.after (l.setting strict x.owner x.props).1,
        .only (l.setting strict x.owner x.props).2) := by
  obtain ⟨hk, hx⟩ := offers_of_slot h
  cases hx with
  | top hi => rw [step_top_of_absorb (Body.absorb_property hk hi)]
  | inGroup hi => rw [step_inGroup_of_absorb (Body.absorb_property hk hi)]
  | @group g b hb hi =>
    rw [step_inGroup_of_not_takes hb, inside_property (g := g.adopt b.finished) hk hi]
    rfl

/-- A line that goes into no slot does the same under all rules. -/
theorem step_of_no_slot (h : c.slot? l = none) : step true c l = step false c l := by
  have hslot (hk : l.kind = .property) := (if_pos hk).symm.trans h
  unfold step
  cases c with
  | top b =>
    dsimp only
    rw [Body.absorb_of_no_slot hslot]
  | inGroup g b =>
    dsimp only at hslot ⊢
    by_cases hb : b.Takes l
    · obtain ⟨b', ds, ha, -⟩ := Body.exists_absorb false hb
      rw [Body.absorb_of_no_slot fun hk => (if_pos hb).symm.trans (hslot hk), ha]
    · rw [Body.absorb_of_not_takes hb, Body.absorb_of_not_takes hb]
      refine inside_of_not_property (g := g.adopt b.finished) ?_
      rintro ⟨hk, hi⟩
      have hnone := hslot hk
      rw [if_neg hb, if_pos (show g.indent < l.indent from hi)] at hnone
      cases hnone
  | refusedGroup i => rfl

end Context

/-! ## What is open without its properties -/

section Bare

omit [Scalar α]

def StatementDef.bare (s : StatementDef α) : StatementDef α := { s with props := {} }

/-- The block without the properties of its statement. -/
def Body.bare : Body α → Body α
  | .statement i s => .statement i s.bare
  | b => b

def OpenGroup.bare (g : OpenGroup α) : OpenGroup α :=
  { g with group := { g.group with props := {}, children := g.group.children.map .bare } }

def Context.bare : Context α → Context α
  | .top b => .top b.bare
  | .inGroup g b => .inGroup g.bare b.bare
  | .refusedGroup i => .refusedGroup i

theorem Body.takes_bare : b.bare.Takes l ↔ b.Takes l := by
  cases b <;> exact Iff.rfl

@[simp] theorem OpenGroup.bare_bare (g : OpenGroup α) : g.bare.bare = g.bare := by
  unfold bare
  simp [Function.comp_def, StatementDef.bare]

theorem OpenGroup.adopt_bare (g : OpenGroup α) (b : Body α) :
    g.bare.adopt b.bare.finished = (g.adopt b.finished).bare := by
  unfold adopt bare
  dsimp only
  rw [List.map_append]
  cases b <;> rfl

theorem OpenGroup.close_bare (g : OpenGroup α) :
    g.bare.close.diagnostics = g.close.diagnostics := by
  unfold close bare
  dsimp only
  rw [List.isEmpty_map]

theorem Context.close_bare (c : Context α) : c.bare.close.diagnostics = c.close.diagnostics := by
  cases c with
  | top b => rfl
  | inGroup g b =>
    show (g.bare.adopt b.bare.finished).close.diagnostics = _
    rw [OpenGroup.adopt_bare]
    exact OpenGroup.close_bare _
  | refusedGroup i => rfl

theorem Body.owner_bare {context' : Body α → Context α} :
    (b.bare.slot? l context').map Slot.owner = (b.slot? l context).map Slot.owner := by
  cases b with
  | statement i s =>
    unfold slot? bare
    dsimp only
    split <;> rfl
  | _ => rfl

theorem Context.owner_bare (c : Context α) :
    (c.bare.slot? l).map Slot.owner = (c.slot? l).map Slot.owner := by
  unfold slot?
  by_cases hk : l.kind = .property
  · rw [if_pos hk, if_pos hk]
    cases c with
    | top b => exact Body.owner_bare
    | inGroup g b =>
      unfold bare
      dsimp only
      simp only [Body.takes_bare]
      by_cases hb : b.Takes l
      · rw [if_pos hb, if_pos hb]
        exact Body.owner_bare
      · rw [if_neg hb, if_neg hb]
        by_cases hi : g.indent < l.indent
        · rw [if_pos hi, if_pos (show g.bare.indent < l.indent from hi)]
          rfl
        · rw [if_neg hi, if_neg (show ¬ g.bare.indent < l.indent from hi)]
    | refusedGroup i => rfl
  · rw [if_neg hk, if_neg hk]

theorem Context.after_bare (h : c.slot? l = some x) (p q : Properties α) :
    (x.after p).bare = (x.after q).bare := by
  cases (offers_of_slot h).2 <;> rfl

end Bare

theorem Line.setting_bare (owner : Owner) (p q : Properties α) :
    (l.setting strict owner p).2 = (l.setting strict owner q).2 := by
  unfold setting
  split <;> rfl

theorem Body.absorb_bare (b : Body α) (strict : Bool) (l : Line) :
    Option.Rel (fun x y => x.1.bare = y.1.bare ∧ x.2 = y.2) (b.bare.absorb strict l)
      (b.absorb strict l) := by
  have hrefl (x : Option (Body α × List (Diagnostic α))) :
      Option.Rel (fun x y => x.1.bare = y.1.bare ∧ x.2 = y.2) x x := by
    cases x with
    | none => exact .none
    | some x => exact .some ⟨rfl, rfl⟩
  cases b with
  | statement i s =>
    unfold absorb bare
    dsimp only
    split
    · split
      · exact .some ⟨rfl, Line.setting_bare ..⟩
      · exact .some ⟨rfl, rfl⟩
      · exact .none
    · exact .none
  | _ => exact hrefl _

namespace Context

/-- Two outcomes of a line that leave the same open, but for properties, and give the same
diagnostics. -/
def BareAlike (x y : Context α × Findings α) : Prop :=
  x.1.bare = y.1.bare ∧ x.2.diagnostics = y.2.diagnostics

theorem inside_bare (strict : Bool) (g : OpenGroup α) (l : Line) :
    BareAlike (inside strict g.bare l) (inside strict g l) := by
  unfold inside
  split
  · exact ⟨rfl, OpenGroup.close_bare g⟩
  · by_cases hi : l.indent ≤ g.indent
    · rw [if_pos hi, if_pos (show l.indent ≤ g.bare.indent from hi)]
      exact ⟨rfl, congrArg (· ++ (outside l).2.diagnostics) (OpenGroup.close_bare g)⟩
    · rw [if_neg hi, if_neg (show ¬ l.indent ≤ g.bare.indent from hi)]
      split
      · exact ⟨congrArg (inGroup · _) g.bare_bare, rfl⟩
      · refine ⟨?_, Line.setting_bare ..⟩
        simp [bare, OpenGroup.bare, Function.comp_def, StatementDef.bare]
      · exact ⟨congrArg (inGroup · _) g.bare_bare, rfl⟩
      · exact ⟨congrArg (inGroup · _) g.bare_bare, rfl⟩

/-- What a line leaves open, but for properties, and its diagnostics do not depend on properties. -/
theorem step_bare (strict : Bool) (c : Context α) (l : Line) :
    BareAlike (step strict c.bare l) (step strict c l) := by
  cases c with
  | top b =>
    have habsorb := b.absorb_bare strict l
    unfold step bare
    dsimp only
    generalize b.bare.absorb strict l = x at habsorb ⊢
    generalize b.absorb strict l = y at habsorb ⊢
    cases habsorb with
    | none => exact ⟨rfl, rfl⟩
    | some h => exact ⟨congrArg top h.1, h.2⟩
  | inGroup g b =>
    have habsorb := b.absorb_bare strict l
    unfold step bare
    dsimp only
    generalize b.bare.absorb strict l = x at habsorb ⊢
    generalize b.absorb strict l = y at habsorb ⊢
    cases habsorb with
    | none =>
      dsimp only
      rw [OpenGroup.adopt_bare]
      exact inside_bare strict (g.adopt b.finished) l
    | some h => exact ⟨congrArg₂ inGroup g.bare_bare h.1, h.2⟩
  | refusedGroup i =>
    unfold step bare
    dsimp only
    exact ⟨rfl, rfl⟩

end Context

end Soundscape
