import Soundscape.Proofs.Script.Columns

/-!
# Scripts that are laid out differently

An indentation is only ever compared with another one, and a column or the number of a line is only
ever kept or reported.  So two lists of lines with the same texts, whose indentations are in the
same order, are read in step: what is open after so many lines of the one is open after as many of
the other (`Context.run_alike`), and they give the same items and the same problems
(`readScript_layout`).
-/

namespace Soundscape

section Relations

variable {α : Type}

/-! ## What is left of items and diagnostics without their places -/

def StatementDef.unnumbered (s : StatementDef α) : StatementDef α := { s with line := 0 }

/-- The group and its statements without the numbers of their lines. -/
def GroupDef.unnumbered (g : GroupDef α) : GroupDef α :=
  { g with line := 0, children := g.children.map StatementDef.unnumbered }

/-- The item without the numbers of its lines. -/
def Item.unnumbered : Item α → Item α
  | .statement s => .statement s.unnumbered
  | .group g => .group g.unnumbered

/-- The items are the same up to line numbers, and the diagnostics up to lines and columns. -/
structure Findings.Alike (f f' : Findings α) : Prop where
  items : f.items.map Item.unnumbered = f'.items.map Item.unnumbered
  problems : f.diagnostics.map Diagnostic.problem = f'.diagnostics.map Diagnostic.problem

namespace Findings.Alike

variable {f f' g g' : Findings α}

theorem refl (f : Findings α) : f.Alike f := ⟨rfl, rfl⟩

theorem append (hf : f.Alike f') (hg : g.Alike g') : (f ++ g).Alike (f' ++ g') where
  items := by simp only [items_append, List.map_append, hf.items, hg.items]
  problems := by simp only [diagnostics_append, List.map_append, hf.problems, hg.problems]

theorem only {ds ds' : List (Diagnostic α)}
    (h : ds.map Diagnostic.problem = ds'.map Diagnostic.problem) :
    (Findings.only ds).Alike (Findings.only ds') := ⟨rfl, h⟩

end Findings.Alike

/-! ## What is open in the one layout and in the other

The relation `S` tells which indentation of the one layout stands for which one of the other. -/

variable (S : Nat → Nat → Prop)

/-- Indentations are in the order of those that they stand for. -/
def KeepsOrder : Prop := ∀ ⦃i i' j j' : Nat⦄, S i i' → S j j' → (i < j ↔ i' < j')

/-- The same line in the two layouts. -/
structure Line.Alike (l l' : Line) : Prop where
  indent : S l.indent l'.indent
  text : l.text = l'.text

/-- The same block in the two layouts. -/
inductive Body.Alike : Body α → Body α → Prop where
  | none : Alike .none .none
  | statement {i i' : Nat} {s s' : StatementDef α} : S i i' → s.unnumbered = s'.unnumbered →
      Alike (.statement i s) (.statement i' s')
  | refused {i i' : Nat} : S i i' → Alike (.refused i) (.refused i')
  | nested {i i' : Nat} : S i i' → Alike (.nested i) (.nested i')

/-- The same open group in the two layouts. -/
structure OpenGroup.Alike (g g' : OpenGroup α) : Prop where
  indent : S g.indent g'.indent
  group : g.group.unnumbered = g'.group.unnumbered

/-- The same context in the two layouts. -/
inductive Context.Alike : Context α → Context α → Prop where
  | top {b b' : Body α} : Body.Alike S b b' → Alike (.top b) (.top b')
  | inGroup {g g' : OpenGroup α} {b b' : Body α} : OpenGroup.Alike S g g' → Body.Alike S b b' →
      Alike (.inGroup g b) (.inGroup g' b')
  | refusedGroup {i i' : Nat} : S i i' → Alike (.refusedGroup i) (.refusedGroup i')

def Body.Same (x x' : Body α × List (Diagnostic α)) : Prop :=
  Body.Alike S x.1 x'.1 ∧ x.2.map Diagnostic.problem = x'.2.map Diagnostic.problem

def Context.Same (x x' : Context α × Findings α) : Prop :=
  Context.Alike S x.1 x'.1 ∧ x.2.Alike x'.2

end Relations

section Groups

variable {α : Type} {S : Nat → Nat → Prop} {s s' : StatementDef α} {g g' : GroupDef α}

theorem StatementDef.unnumbered_with_props (h : s.unnumbered = s'.unnumbered)
    {p p' : Properties α} (hp : p = p') :
    ({ s with props := p } : StatementDef α).unnumbered =
      ({ s' with props := p' } : StatementDef α).unnumbered := by
  subst hp
  exact congrArg (fun t : StatementDef α => { t with props := p }) h

theorem GroupDef.unnumbered_with_props (h : g.unnumbered = g'.unnumbered)
    {p p' : Properties α} (hp : p = p') :
    ({ g with props := p } : GroupDef α).unnumbered =
      ({ g' with props := p' } : GroupDef α).unnumbered := by
  subst hp
  exact congrArg (fun t : GroupDef α => { t with props := p }) h

theorem Body.Alike.finished {b b' : Body α} (h : Body.Alike S b b') :
    b.finished.toList.map StatementDef.unnumbered =
      b'.finished.toList.map StatementDef.unnumbered := by
  cases h with
  | statement _ hs => exact congrArg (fun t => [t]) hs
  | _ => rfl

theorem Body.Alike.items {b b' : Body α} (h : Body.Alike S b b') :
    Findings.Alike ⟨b.finished.toList.map Item.statement, []⟩
      ⟨b'.finished.toList.map Item.statement, []⟩ := by
  refine ⟨?_, rfl⟩
  cases h with
  | statement _ hs => exact congrArg (fun t => [Item.statement t]) hs
  | _ => rfl

namespace OpenGroup.Alike

variable {g g' : OpenGroup α}

theorem adopt (h : OpenGroup.Alike S g g') {s s' : Option (StatementDef α)}
    (hs : s.toList.map StatementDef.unnumbered = s'.toList.map StatementDef.unnumbered) :
    OpenGroup.Alike S (g.adopt s) (g'.adopt s') where
  indent := h.indent
  group := by
    have hgroup := congrArg (fun t : GroupDef α =>
      { t with children := t.children ++ s.toList.map StatementDef.unnumbered }) h.group
    simpa only [OpenGroup.adopt, GroupDef.unnumbered, List.map_append, hs] using hgroup

theorem close (h : OpenGroup.Alike S g g') : g.close.Alike g'.close where
  items := congrArg (fun t => [Item.group t]) h.group
  problems := by
    have hname := congrArg GroupDef.name h.group
    have hempty := congrArg (fun t => t.children.isEmpty) h.group
    simp only [GroupDef.unnumbered, List.isEmpty_map] at hname hempty
    unfold OpenGroup.close
    dsimp only
    rw [hname, hempty]
    split <;> rfl

end OpenGroup.Alike

end Groups

variable {α : Type} [Scalar α] {S : Nat → Nat → Prop} {l l' : Line} (strict : Bool)

theorem Line.kind_congr (h : l.text = l'.text) : l.kind = l'.kind := by
  unfold kind firstWord
  rw [h]

namespace Body

theorem ofHeader_alike (hl : Line.Alike S l l') :
    Body.Same S (ofHeader l : Body α × _) (ofHeader l') := by
  have hread := Line.readHeader_agree (Reader.Columnless.statementHeader (α := α)) hl.text
  unfold ofHeader
  generalize l.readHeader (Reader.statementHeader (α := α)) = x at hread ⊢
  generalize l'.readHeader (Reader.statementHeader (α := α)) = x' at hread ⊢
  cases hread with
  | ok h =>
    subst h
    exact ⟨.statement hl.indent rfl, rfl⟩
  | error hd => exact ⟨.refused hl.indent, congrArg (fun p => [p]) hd⟩

theorem absorb_alike (hS : KeepsOrder S) (hl : Line.Alike S l l') {b b' : Body α}
    (hb : Body.Alike S b b') :
    Option.Rel (Body.Same S) (b.absorb strict l) (b'.absorb strict l') := by
  have hkind := Line.kind_congr hl.text
  cases hb with
  | none => exact .none
  | @statement i i' s s' hi hs =>
    -- the block compares indentations, which stand in the same order in both layouts
    have hset := l.setting_agree strict .statement hl.text s.props
    unfold absorb
    dsimp only
    rw [hkind, hl.text]
    by_cases hbelow : i < l.indent
    · rw [if_pos hbelow, if_pos ((hS hi hl.indent).mp hbelow)]
      split
      · rw [show s'.props = s.props from (congrArg StatementDef.props hs).symm]
        exact .some ⟨.statement hi (StatementDef.unnumbered_with_props hs hset.1), hset.2⟩
      · exact .some ⟨.statement hi hs, rfl⟩
      · exact .none
    · rw [if_neg hbelow, if_neg (hbelow ∘ (hS hi hl.indent).mpr)]
      exact .none
  | refused hi =>
    unfold absorb
    simp only [hkind, hS hi hl.indent]
    split
    · exact .some ⟨.refused hi, rfl⟩
    · exact .none
  | nested hi =>
    unfold absorb
    simp only [hS hi hl.indent]
    split
    · exact .some ⟨.nested hi, rfl⟩
    · exact .none

end Body

namespace Context

theorem outside_alike (hl : Line.Alike S l l') :
    Context.Same S (outside l : Context α × _) (outside l') := by
  unfold outside
  rw [Line.kind_congr hl.text, hl.text]
  split
  · have hread := Line.readHeader_agree (Reader.Columnless.groupHeader (α := α)) hl.text
    generalize l.readHeader (Reader.groupHeader (α := α)) = x at hread ⊢
    generalize l'.readHeader (Reader.groupHeader (α := α)) = x' at hread ⊢
    cases hread with
    | ok h =>
      subst h
      exact ⟨.inGroup ⟨hl.indent, rfl⟩ .none, .refl _⟩
    | error hd => exact ⟨.refusedGroup hl.indent, .only (congrArg (fun p => [p]) hd)⟩
  · obtain ⟨hbody, hds⟩ := Body.ofHeader_alike (α := α) hl
    exact ⟨.top hbody, .only hds⟩
  iterate 3 exact ⟨.top .none, .only rfl⟩

theorem inside_alike (hS : KeepsOrder S) (hl : Line.Alike S l l') {g g' : OpenGroup α}
    (hg : OpenGroup.Alike S g g') :
    Context.Same S (inside strict g l) (inside strict g' l') := by
  have hset := l.setting_agree strict .group hl.text g.group.props
  unfold inside
  rw [Line.kind_congr hl.text, hl.text]
  by_cases hend : l'.kind = .groupEnd
  · rw [if_pos hend, if_pos hend]
    exact ⟨.top .none, hg.close⟩
  rw [if_neg hend, if_neg hend]
  by_cases hbelow : g.indent < l.indent
  · rw [if_neg (Nat.not_le.mpr hbelow),
      if_neg (Nat.not_le.mpr ((hS hg.indent hl.indent).mp hbelow))]
    split
    · obtain ⟨hbody, hds⟩ := Body.ofHeader_alike (α := α) hl
      exact ⟨.inGroup hg hbody, .only hds⟩
    · rw [show g'.group.props = g.group.props from (congrArg GroupDef.props hg.group).symm]
      exact ⟨.inGroup ⟨hg.indent, GroupDef.unnumbered_with_props hg.group hset.1⟩ .none,
        .only hset.2⟩
    · exact ⟨.inGroup hg (.nested hl.indent), .only rfl⟩
    · exact ⟨.inGroup hg .none, .only rfl⟩
  · rw [if_pos (Nat.not_lt.mp hbelow),
      if_pos (Nat.not_lt.mp (hbelow ∘ (hS hg.indent hl.indent).mpr))]
    obtain ⟨hcontext, hfound⟩ := outside_alike (α := α) hl
    exact ⟨hcontext, hg.close.append hfound⟩

theorem step_alike (hS : KeepsOrder S) (hl : Line.Alike S l l') {c c' : Context α}
    (hc : Context.Alike S c c') : Context.Same S (step strict c l) (step strict c' l') := by
  cases hc with
  | @top b b' hb =>
    have habsorb := Body.absorb_alike strict hS hl hb
    unfold step
    dsimp only
    generalize b.absorb strict l = x at habsorb ⊢
    generalize b'.absorb strict l' = x' at habsorb ⊢
    cases habsorb with
    | none =>
      obtain ⟨hcontext, hfound⟩ := outside_alike (α := α) hl
      exact ⟨hcontext, hb.items.append hfound⟩
    | some h => exact ⟨.top h.1, .only h.2⟩
  | @inGroup g g' b b' hg hb =>
    have habsorb := Body.absorb_alike strict hS hl hb
    unfold step
    dsimp only
    generalize b.absorb strict l = x at habsorb ⊢
    generalize b'.absorb strict l' = x' at habsorb ⊢
    cases habsorb with
    | none => exact inside_alike strict hS hl (hg.adopt hb.finished)
    | some h => exact ⟨.inGroup hg h.1, .only h.2⟩
  | refusedGroup hi =>
    unfold step
    simp only [Line.kind_congr hl.text, hS hi hl.indent]
    split
    · exact ⟨.refusedGroup hi, .refl _⟩
    · split
      · exact ⟨.top .none, .refl _⟩
      · exact outside_alike hl

omit [Scalar α] in
theorem close_alike {c c' : Context α} (hc : Context.Alike S c c') : c.close.Alike c'.close := by
  cases hc with
  | top hb => exact hb.items
  | inGroup hg hb => exact (hg.adopt hb.finished).close
  | refusedGroup hi => exact .refl _

/-- Two layouts of the same lines are read in step. -/
theorem run_alike (hS : KeepsOrder S) {ls ls' : List Line} (hls : List.Forall₂ (Line.Alike S) ls ls')
    {c c' : Context α} (hc : Context.Alike S c c') :
    Context.Same S (run strict c ls) (run strict c' ls') := by
  induction hls generalizing c c' with
  | nil => exact ⟨hc, .refl _⟩
  | cons hl _ ih =>
    obtain ⟨hnext, hfound⟩ := step_alike strict hS hl hc
    obtain ⟨hlast, hrest⟩ := ih hnext
    exact ⟨hlast, hfound.append hrest⟩

end Context

theorem readLines_alike (hS : KeepsOrder S) {ls ls' : List Line}
    (hls : List.Forall₂ (Line.Alike S) ls ls') :
    (readLines strict ls : Findings α).Alike (readLines strict ls') := by
  obtain ⟨hcontext, hfound⟩ := Context.run_alike (α := α) strict hS hls (.top .none)
  exact hfound.append (Context.close_alike hcontext)

/-- An indentation stands for the one at the same place in the other list. -/
def Line.Paired (ls ls' : List Line) (i i' : Nat) : Prop :=
  ∃ p ∈ ls.zip ls', p.1.indent = i ∧ p.2.indent = i'

theorem Line.forall₂_alike {ls ls' : List Line} (htexts : ls.map text = ls'.map text) :
    List.Forall₂ (Line.Alike (Paired ls ls')) ls ls' := by
  have htext : List.Forall₂ (fun l l' => text l = text l') ls ls' := by
    have heq : List.Forall₂ (· = ·) (ls.map text) (ls'.map text) := by
      rw [htexts, List.forall₂_eq_eq_eq]
    rwa [List.forall₂_map_left_iff, List.forall₂_map_right_iff] at heq
  obtain ⟨hlength, hzip⟩ := List.forall₂_iff_zip.mp htext
  exact List.forall₂_iff_zip.mpr ⟨hlength, fun hp => ⟨⟨_, hp, rfl, rfl⟩, hzip hp⟩⟩

theorem Line.keepsOrder_paired {ls ls' : List Line}
    (horder : ∀ p ∈ ls.zip ls', ∀ q ∈ ls.zip ls',
      (p.1.indent < q.1.indent ↔ p.2.indent < q.2.indent)) : KeepsOrder (Paired ls ls') := by
  rintro _ _ _ _ ⟨p, hp, rfl, rfl⟩ ⟨q, hq, rfl, rfl⟩
  exact horder p hp q hq

/-- Two texts whose content lines have the same texts, and indentations in the same order, give the
same items and the same diagnostics up to lines and columns. -/
theorem readScript_layout {source source' : String}
    (htexts : (Line.ofSource source.toList).map Line.text =
      (Line.ofSource source'.toList).map Line.text)
    (horder : ∀ p ∈ (Line.ofSource source.toList).zip (Line.ofSource source'.toList),
      ∀ q ∈ (Line.ofSource source.toList).zip (Line.ofSource source'.toList),
        (p.1.indent < q.1.indent ↔ p.2.indent < q.2.indent)) :
    (readScript strict source : Findings α).Alike (readScript strict source') :=
  readLines_alike strict (Line.keepsOrder_paired horder) (Line.forall₂_alike htexts)

/-- A script with a property that cannot be read, and the same script with tabs and other widths, with
blank lines and with comments. -/
theorem readScript_layout_tabs :
    let source := "group g:\n  volume = 0.5\n  2 * loop \"a\":\n     pitch = low\nendgroup\n"
    let source' := "# all\n\ngroup g: \n\tvolume = 0.5 # soft\n\n\t2 * loop \"a\":\n" ++
      "\t\t\tpitch = low\nendgroup  # last"
    let ls : List Line := [⟨1, 0, 1, "group g:".toList⟩, ⟨2, 2, 3, "volume = 0.5".toList⟩,
      ⟨3, 2, 3, "2 * loop \"a\":".toList⟩, ⟨4, 5, 6, "pitch = low".toList⟩,
      ⟨5, 0, 1, "endgroup".toList⟩]
    let ls' : List Line := [⟨3, 0, 1, "group g:".toList⟩, ⟨4, 4, 2, "volume = 0.5".toList⟩,
      ⟨6, 4, 2, "2 * loop \"a\":".toList⟩, ⟨7, 12, 4, "pitch = low".toList⟩,
      ⟨8, 0, 1, "endgroup".toList⟩]
    Line.ofSource source.toList = ls ∧ Line.ofSource source'.toList = ls' ∧
      (readScript false source : Findings Float).Alike (readScript false source') := by
  intro source source' ls ls'
  have hls : Line.ofSource source.toList = ls := by decide +kernel
  have hls' : Line.ofSource source'.toList = ls' := by decide +kernel
  refine ⟨hls, hls', readScript_layout false ?_ ?_⟩
  · rw [hls, hls']
    rfl
  · rw [hls, hls']
    decide +kernel

end Soundscape
