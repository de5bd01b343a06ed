import Soundscape.Proofs.Script.Dropped

/-!
# Property lines that are ignored

A property line that cannot be read changes no properties and leaves one diagnostic.  So it might
as well be blank (`Context.reads_ignored`), unless the line stands directly in a group: there it
ends the body of a statement or the nested group that the next line would have gone on with.
-/

namespace Soundscape

variable {α : Type}

/-- The line is one for the properties of the open statement, or of the open group. -/
inductive Context.Sets (l : Line) : Context α → Owner → Prop where
  | top {i : Nat} {s : StatementDef α} : i < l.indent → Sets l (.top (.statement i s)) .statement
  | inGroup {g : OpenGroup α} {i : Nat} {s : StatementDef α} : i < l.indent →
      Sets l (.inGroup g (.statement i s)) .statement
  | group {g : OpenGroup α} {b : Body α} : ¬ b.Takes l → g.indent < l.indent →
      Sets l (.inGroup g b) .group

variable [Scalar α] {strict : Bool} {owner : Owner} {l : Line} {problem : Problem α} {column : Nat}

theorem Line.setting_of_error (h : Setting.read strict owner l = .error (problem, column))
    (props : Properties α) :
    l.setting strict owner props = (props, [⟨problem, l.number, column⟩]) := by
  unfold setting
  rw [h]

theorem Body.absorb_of_error {i : Nat} {s : StatementDef α} (hi : i < l.indent)
    (hk : l.kind = .property)
    (h : Setting.read strict .statement l = .error (problem, column)) :
    (Body.statement i s).absorb strict l =
      some (.statement i s, [⟨problem, l.number, column⟩]) := by
  unfold absorb
  dsimp only
  rw [if_pos hi, hk]
  dsimp only
  rw [Line.setting_of_error h]

namespace Context

theorem inside_ignored {g : OpenGroup α} (hi : g.indent < l.indent) (hk : l.kind = .property)
    (h : Setting.read strict .group l = .error (problem, column)) :
    inside strict g l = (.inGroup g .none, .only [⟨problem, l.number, column⟩]) := by
  unfold inside
  rw [hk, if_neg (by decide), if_neg (Nat.not_le.mpr hi)]
  dsimp only
  rw [Line.setting_of_error h]

/-- After a property line that cannot be read the lines are read as if it were not there. -/
theorem reads_ignored {c : Context α} {rest : List Line} (hs : c.Sets l owner)
    (hk : l.kind = .property) (h : Setting.read strict owner l = .error (problem, column))
    (hgoes : ∀ m ∈ rest.head?, ¬ c.Interrupted l m) :
    reads strict c (l :: rest) =
      .only [⟨problem, l.number, column⟩] ++ reads strict c rest := by
  rw [reads_cons]
  cases hs with
  | top hi => rw [step_top_of_absorb (Body.absorb_of_error hi hk h)]
  | inGroup hi => rw [step_inGroup_of_absorb (Body.absorb_of_error hi hk h)]
  | @group g b hb hi =>
    rw [step_inGroup_of_not_takes hb, Context.inside_ignored (g := g.adopt b.finished) hi hk h]
    -- the line ends the block of the group, and so does the next line
    rw [reads_inGroup_of_not_takes (b := b)]
    intro m hm ht
    exact hgoes m hm ⟨hb, .inl ht⟩

end Context

/-- A property line that cannot be read may be made blank: the items are the same, and of the
diagnostics only its own is gone, unless the line stands directly in a group and ends there what the
next line would have gone on with. -/
theorem readScript_ignored (strict : Bool) (source : String) {before rest : List Line} {l : Line}
    {owner : Owner} {problem : Problem α} {column : Nat}
    (hsource : Line.ofSource source.toList = before ++ l :: rest) (hk : l.kind = .property)
    (hs : (Context.run strict (.top .none : Context α) before).1.Sets l owner)
    (h : Setting.read strict owner l = .error (problem, column))
    (hgoes : ∀ m ∈ rest.head?,
      ¬ (Context.run strict (.top .none : Context α) before).1.Interrupted l m) :
    let found : Findings α := readScript strict source
    let without : Findings α := readScript strict (Line.blank [l] source)
    without.items = found.items ∧
      ∃ ds es, found.diagnostics = ds ++ ⟨problem, l.number, column⟩ :: es ∧
        without.diagnostics = ds ++ es := by
  intro found without
  let c : Context α := (Context.run strict (.top .none) before).1
  let first : Findings α := (Context.run strict (.top .none) before).2
  have hfound : found = first ++ (.only [⟨problem, l.number, column⟩] ++ c.reads strict rest) := by
    rw [← Context.reads_ignored hs hk h hgoes]
    exact readScript_of_lines strict hsource
  have hwithout : without = first ++ c.reads strict rest := by
    apply readScript_of_lines
    apply Line.ofSource_blank
    rw [hsource, List.append_assoc, List.singleton_append]
  rw [hfound, hwithout]
  exact ⟨rfl, first.diagnostics, (c.reads strict rest).diagnostics, rfl, rfl⟩

/-- Of two lines for the same property of a statement in a group the second cannot be read. -/
theorem readScript_ignored_overlap :
    let source := "group g:\n  loop \"a\":\n    overlap = t\n    overlap = maybe\n"
    let before : List Line := [⟨1, 0, 1, "group g:".toList⟩, ⟨2, 2, 3, "loop \"a\":".toList⟩,
      ⟨3, 4, 5, "overlap = t".toList⟩]
    let l : Line := ⟨4, 4, 5, "overlap = maybe".toList⟩
    Line.ofSource source.toList = before ++ [l] ∧ l.kind = .property ∧
      (Context.run false (.top .none : Context Rat) before).1.Sets l .statement ∧
      Setting.read (α := Rat) false .statement l = .error (.noBoolean "maybe", 15) ∧
      (readScript false (Line.blank [l] source) : Findings Rat).items =
        (readScript false source).items := by
  intro source before l
  have hsource : Line.ofSource source.toList = before ++ [l] := by decide +kernel
  have hk : l.kind = .property := by decide +kernel
  have hc : (Context.run false (.top .none : Context Rat) before).1 =
      .inGroup ⟨0, 1, ⟨"g", 1, {}, []⟩⟩
        (.statement 2 ⟨.loop, "a", 1, { overlap := some true }, 2⟩) := by
    decide +kernel
  have hs : (Context.run false (.top .none : Context Rat) before).1.Sets l .statement := by
    rw [hc]
    exact .inGroup (by decide)
  have h : Setting.read (α := Rat) false .statement l = .error (.noBoolean "maybe", 15) := by
    rfl
  exact ⟨hsource, hk, hs, h, (readScript_ignored false source hsource hk hs h nofun).1⟩

/-- A property line directly in a group cannot be read, but it ends the statement before it, so the
line after it is one of the group. -/
theorem readScript_ignored_endsBody :
    let source := "group g:\n  loop \"a\":\n  volume = loud\n    overlap = t\n"
    let before : List Line := [⟨1, 0, 1, "group g:".toList⟩, ⟨2, 2, 3, "loop \"a\":".toList⟩]
    let l : Line := ⟨3, 2, 3, "volume = loud".toList⟩
    Line.ofSource source.toList = before ++ [l, ⟨4, 4, 5, "overlap = t".toList⟩] ∧
      l.kind = .property ∧
      (Context.run false (.top .none : Context Rat) before).1.Sets l .group ∧
      (∃ problem column,
        Setting.read (α := Rat) false .group l = .error (problem, column)) ∧
      (readScript false (Line.blank [l] source) : Findings Rat).items ≠
        (readScript false source).items := by
  intro source before l
  have hc : (Context.run false (.top .none : Context Rat) before).1 =
      .inGroup ⟨0, 1, ⟨"g", 1, {}, []⟩⟩ (.statement 2 ⟨.loop, "a", 1, {}, 2⟩) := by
    decide +kernel
  refine ⟨by decide +kernel, by decide +kernel, ?_, ⟨_, _, rfl⟩, by decide +kernel⟩
  rw [hc]
  exact .group (by decide) (by decide)

end Soundscape
