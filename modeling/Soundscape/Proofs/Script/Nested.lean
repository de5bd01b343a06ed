import Soundscape.Proofs.Script.Skipped

/-!
# Groups inside groups

The header of a group inside a group is refused, and the deeper lines after it are skipped
(`Context.step_nestedGroup`).  The `endgroup` that follows them is not theirs, though.  It is read
as any other and ends the group around them (`Context.step_groupEnd`), so the lines that are left
of that group are read at top level (`readScript_nested`).
-/

namespace Soundscape

variable {α : Type} [Scalar α] {strict : Bool} {b : Body α} {g : OpenGroup α} {c : Context α}
  {l h e : Line} {block rest : List Line}

/-! ## Blocks inside groups -/

/-- A block that is open in a group has its header no less deep than the group. -/
def Context.Nests : Context α → Prop
  | .inGroup g b => b.Below g.indent
  | _ => True

namespace Context

theorem nests_outside (l : Line) : (outside l : Context α × _).1.Nests := by
  unfold outside
  split
  · split <;> trivial
  all_goals trivial

theorem nests_inside (g : OpenGroup α) (l : Line) : (inside strict g l).1.Nests := by
  unfold inside
  split
  · trivial
  · split
    · exact nests_outside l
    · next hi =>
      have hle : g.indent ≤ l.indent := (Nat.not_le.mp hi).le
      split
      · exact Body.below_ofHeader hle
      · trivial
      · exact hle
      · trivial

theorem Nests.step (strict : Bool) (hc : c.Nests) (l : Line) : (step strict c l).1.Nests := by
  cases c with
  | top b =>
    by_cases hb : b.Takes l
    · obtain ⟨b', ds, ha, -⟩ := b.exists_absorb strict hb
      rw [step_top_of_absorb ha]
      trivial
    · rw [step_top_of_not_takes hb]
      exact nests_outside l
  | inGroup g b =>
    by_cases hb : b.Takes l
    · obtain ⟨b', ds, ha, -, hbelow⟩ := b.exists_absorb strict hb
      rw [step_inGroup_of_absorb ha]
      exact hbelow g.indent hc
    · rw [step_inGroup_of_not_takes hb]
      exact nests_inside _ l
  | refusedGroup i =>
    unfold Context.step
    dsimp only
    split
    · trivial
    · split
      · trivial
      · exact nests_outside l

theorem Nests.run (strict : Bool) (hc : c.Nests) (ls : List Line) : (run strict c ls).1.Nests := by
  induction ls generalizing c with
  | nil => exact hc
  | cons l ls ih => exact ih (hc.step strict l)

/-! ## Nested groups -/

/-- The header of a nested group opens a block that is skipped. -/
theorem step_nestedGroup (hb : ¬ b.Takes h) (hg : g.indent < h.indent) (hk : h.kind = .groupStart) :
    step strict (.inGroup g b) h =
      (.inGroup (g.adopt b.finished) (.nested h.indent), .only [h.diagnostic .nestedGroup]) := by
  have hindent : ¬ h.indent ≤ (g.adopt b.finished).indent := Nat.not_le.mpr hg
  rw [step_inGroup_of_not_takes hb]
  unfold inside
  rw [hk, if_neg (by decide), if_neg hindent]

/-- An `endgroup` that belongs to no block ends the group. -/
theorem step_groupEnd (hb : ¬ b.Takes e) (hk : e.kind = .groupEnd) :
    step strict (.inGroup g b) e = (.top .none, (g.adopt b.finished).close) := by
  rw [step_inGroup_of_not_takes hb]
  exact if_pos hk

omit [Scalar α] in
/-- An `endgroup` belongs to a block only if a header of its indentation does. -/
theorem not_takes_groupEnd (hb : ¬ b.Takes h) (hk : e.kind = .groupEnd) (hi : e.indent = h.indent) :
    ¬ b.Takes e := by
  cases b with
  | nested i => exact fun ht : i < e.indent => hb (hi ▸ ht : i < h.indent)
  | _ => simp [Body.Takes, hk]

theorem items_reads_nested (hb : ¬ b.Takes h) (hg : g.indent < h.indent) (hk : h.kind = .groupStart)
    (hblock : ∀ l ∈ block, h.indent < l.indent) (he : e.kind = .groupEnd)
    (hi : e.indent = h.indent) :
    (reads strict (.inGroup g b) (h :: block ++ e :: rest)).items =
      .group (g.adopt b.finished).group :: (reads strict (.top .none) rest).items := by
  have hnested : ¬ (Body.nested h.indent : Body α).Takes e := Nat.not_lt.mpr hi.le
  rw [List.cons_append, reads_cons, step_nestedGroup hb hg hk]
  dsimp only
  rw [reads_skipped rfl hblock, reads_cons, step_groupEnd hnested he]
  show [] ++ (((g.adopt b.finished).adopt none).close.items ++ _) = _
  rw [OpenGroup.adopt_none]
  rfl

end Context

/-! ## Scripts -/

/-- A group inside a group is skipped: its header and its lines may be made blank.  Its `endgroup`
ends the group around it, so the lines left of that group, `deep`, are read at top level by
themselves.  When the `endgroup` is made blank too they go on with the group, and only those after
its own end are read by themselves.  So the items are the same if and only if these lines add nothing
to the group and give the same items. -/
theorem readScript_nested (strict : Bool) {source : String} {before block deep after : List Line}
    {h e : Line} {g : OpenGroup α} {b : Body α}
    (hsource : Line.ofSource source.toList = before ++ (h :: block ++ [e]) ++ (deep ++ after))
    (hopen : (Context.run strict (.top .none : Context α) before).1 = .inGroup g b)
    (hb : ¬ b.Takes h) (hg : g.indent < h.indent) (hk : h.kind = .groupStart)
    (hblock : ∀ l ∈ block, h.indent < l.indent) (he : e.kind = .groupEnd)
    (hi : e.indent = h.indent) (hdeep : ∀ l ∈ deep, g.indent < l.indent)
    (hafter : ∀ l ∈ after.head?, l.indent ≤ g.indent) :
    let items : List (Item α) := (readScript strict source).items
    let without (blank : List Line) : List (Item α) :=
      (readScript strict (Line.blank blank source)).items
    let alone (ls : List Line) : List (Item α) := (readLines strict ls).items
    let parent : GroupDef α := (g.adopt b.finished).group
    without (h :: block) = items ∧
    ∃ pre whole post, alone before = pre ++ [.group parent] ∧
      whole.name = parent.name ∧ whole.line = parent.line ∧
      items = pre ++ .group parent :: (alone deep ++ post) ∧
      without (h :: block ++ [e]) =
        pre ++ .group whole :: (alone (Line.afterGroupEnd b.nested? deep) ++ post) ∧
      (without (h :: block ++ [e]) = items ↔
        whole = parent ∧ alone (Line.afterGroupEnd b.nested? deep) = alone deep) := by
  intro items without alone parent
  let pre : List (Item α) := (Context.run strict (.top .none : Context α) before).2.items
  let post : List (Item α) := (Context.reads strict (.top .none : Context α) after).items
  -- what the lines before the nested group give is the same in all three scripts
  have hread {text : String} {ls : List Line}
      (htext : Line.ofSource text.toList = before ++ ls) :
      (readScript strict text).items = pre ++ (Context.reads strict (.inGroup g b) ls).items := by
    rw [readScript_of_lines strict htext, hopen]
    rfl
  have hbelow : b.Below g.indent := by
    have hnests := Context.Nests.run strict (c := (.top .none : Context α)) trivial before
    rw [hopen] at hnests
    exact hnests
  have hitems : items = pre ++ .group parent :: (alone deep ++ post) := by
    have hlines : Line.ofSource source.toList =
        before ++ (h :: block ++ e :: (deep ++ after)) := by simp [hsource]
    rw [← Context.items_reads_append (fun l hl => (hdeep l hl).le) hafter,
      ← Context.items_reads_nested hb hg hk hblock he hi]
    exact hread hlines
  have hskipped : without (h :: block) = items := by
    have hlines : Line.ofSource source.toList =
        before ++ (h :: block) ++ (e :: (deep ++ after)) := by simp [hsource]
    rw [hitems, ← Context.items_reads_append (fun l hl => (hdeep l hl).le) hafter]
    show (readScript strict (Line.blank (h :: block) source)).items = _
    rw [hread (Line.ofSource_blank hlines), Context.reads_cons,
      Context.step_groupEnd (Context.not_takes_groupEnd hb he hi) he]
    rfl
  obtain ⟨whole, hname, hline, hwhole⟩ :=
    Context.items_reads_deep strict (g := g) hbelow hdeep hafter
  have hwithout : without (h :: block ++ [e]) =
      pre ++ .group whole :: (alone (Line.afterGroupEnd b.nested? deep) ++ post) := by
    have hlost : ∀ l ∈ Line.afterGroupEnd b.nested? deep, g.indent ≤ l.indent := fun l hl =>
      (hdeep l (Line.afterGroupEnd_subset _ _ hl)).le
    rw [← Context.items_reads_append hlost hafter, ← hwhole]
    exact hread (Line.ofSource_blank hsource)
  refine ⟨hskipped, pre, whole, post, ?_, hname, hline, hitems, hwithout, ?_⟩
  · show (readLines strict before).items = _
    unfold readLines
    dsimp only
    rw [hopen]
    rfl
  · rw [hitems, hwithout, List.append_cancel_left_eq, List.cons.injEq, Item.group.injEq,
      List.append_cancel_right_eq]

/-- A nested group below a statement, as deep as its body, and a property line of the outer group
after it. -/
theorem readScript_nested_inStatement :
    let source := "group wind:\n  loop \"gust\":\n    volume = 1\n    group inner:\n" ++
      "      loop \"leaf\":\n    endgroup\n  overlap = t\nloop \"sea\":\n"
    let before : List Line := [⟨1, 0, 1, "group wind:".toList⟩, ⟨2, 2, 3, "loop \"gust\":".toList⟩,
      ⟨3, 4, 5, "volume = 1".toList⟩]
    let h : Line := ⟨4, 4, 5, "group inner:".toList⟩
    let block : List Line := [⟨5, 6, 7, "loop \"leaf\":".toList⟩]
    let e : Line := ⟨6, 4, 5, "endgroup".toList⟩
    let deep : List Line := [⟨7, 2, 3, "overlap = t".toList⟩]
    let after : List Line := [⟨8, 0, 1, "loop \"sea\":".toList⟩]
    let gust : StatementDef Rat := ⟨.loop, "gust", 1, { volume := some (.plain (.fixed 1)) }, 2⟩
    let parent : GroupDef Rat := ⟨"wind", 1, {}, [gust]⟩
    let items : List (Item Rat) := (readScript false source).items
    let without (blank : List Line) : List (Item Rat) :=
      (readScript false (Line.blank blank source)).items
    Line.ofSource source.toList = before ++ (h :: block ++ [e]) ++ (deep ++ after) ∧
      (Context.run false (.top .none : Context Rat) before).1 =
        .inGroup ⟨0, 1, ⟨"wind", 1, {}, []⟩⟩ (.statement 2 gust) ∧
      h.kind = .groupStart ∧ (∀ l ∈ block, h.indent < l.indent) ∧ e.kind = .groupEnd ∧
      without (h :: block) = items ∧
      ∃ pre whole post, items = pre ++ .group parent :: post ∧
        without (h :: block ++ [e]) = pre ++ .group whole :: post ∧
        (without (h :: block ++ [e]) = items ↔ whole = parent) := by
  intro source before h block e deep after gust parent items without
  have hsource : Line.ofSource source.toList = before ++ (h :: block ++ [e]) ++ (deep ++ after) := by
    decide +kernel
  have hopen : (Context.run false (.top .none : Context Rat) before).1 =
      .inGroup ⟨0, 1, ⟨"wind", 1, {}, []⟩⟩ (.statement 2 gust) := by decide +kernel
  have hk : h.kind = .groupStart := by decide +kernel
  have hblock : ∀ l ∈ block, h.indent < l.indent := by decide +kernel
  have he : e.kind = .groupEnd := by decide +kernel
  have hb : ¬ (Body.statement 2 gust).Takes h := by decide +kernel
  have hdeep : (readLines false deep : Findings Rat).items = [] := by decide +kernel
  obtain ⟨hskipped, pre, whole, post, -, -, -, hitems, hwithout, hsame⟩ :=
    readScript_nested (α := Rat) false hsource hopen hb (by decide) hk hblock he rfl (by decide)
      (by decide)
  have hlost : (readLines false (Line.afterGroupEnd none deep) : Findings Rat).items = [] := by
    decide +kernel
  refine ⟨hsource, hopen, hk, hblock, he, hskipped, pre, whole, post, ?_, ?_, ?_⟩
  · have hpost : items = pre ++ .group parent :: ((readLines false deep).items ++ post) := hitems
    rw [hdeep] at hpost
    exact hpost
  · have hpost : without (h :: block ++ [e]) =
        pre ++ .group whole :: ((readLines false (Line.afterGroupEnd none deep)).items ++ post) :=
      hwithout
    rw [hlost] at hpost
    exact hpost
  · exact hsame.trans (and_iff_left (hlost.trans hdeep.symm))

/-- The statement after a nested group has left the outer group, and lost its defaults. -/
theorem readScript_nested_defaults :
    let source := "group g:\n  volume = 0.5\n  group inner:\n    loop \"a\":\n  endgroup\n  loop \"b\":\n"
    let before : List Line := [⟨1, 0, 1, "group g:".toList⟩, ⟨2, 2, 3, "volume = 0.5".toList⟩]
    let h : Line := ⟨3, 2, 3, "group inner:".toList⟩
    let block : List Line := [⟨4, 4, 5, "loop \"a\":".toList⟩]
    let e : Line := ⟨5, 2, 3, "endgroup".toList⟩
    let props : Properties Float := { volume := some (.plain (.fixed 0.5)) }
    let b : StatementDef Float := ⟨.loop, "b", 1, {}, 6⟩
    Line.ofSource source.toList =
        before ++ (h :: block ++ [e]) ++ [⟨6, 2, 3, "loop \"b\":".toList⟩] ∧
      (Context.run false (.top .none : Context Float) before).1 =
        .inGroup ⟨0, 1, ⟨"g", 1, props, []⟩⟩ .none ∧
      h.kind = .groupStart ∧ e.kind = .groupEnd ∧
      (readScript false (Line.blank (h :: block ++ [e]) source) : Findings Float).items =
        [.group ⟨"g", 1, props, [b]⟩] ∧
      (readScript false source : Findings Float).items =
        [.group ⟨"g", 1, props, []⟩, .statement b] := by
  intro source before h block e props b
  refine ⟨by decide +kernel, by decide +kernel, by decide +kernel, by decide +kernel,
    by decide +kernel, by decide +kernel⟩

end Soundscape
