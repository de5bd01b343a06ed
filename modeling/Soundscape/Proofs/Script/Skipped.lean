import Soundscape.Proofs.Script.Dropped

/-!
# Groups that are skipped

A group whose header cannot be read is skipped down to the next line that is no deeper.  With a
header that can be read the group may end sooner, at an `endgroup` of any indentation
(`Context.items_reads_deep`).  The deeper lines after it, `Line.lost`, are then read by themselves,
so what they give is all that a refused header drops besides the group (`readScript_skipped`).
-/

namespace Soundscape

/-- The lines after the `endgroup` that ends a group, of lines that are deeper than its header.  The
lines of a group inside the group are skipped, and `nested` is the indentation of its header. -/
def Line.afterGroupEnd (nested : Option Nat) : List Line → List Line
  | [] => []
  | l :: ls =>
    if nested.any (· < l.indent) then afterGroupEnd nested ls
    else match l.kind with
      | .groupEnd => ls
      | .groupStart => afterGroupEnd (some l.indent) ls
      | _ => afterGroupEnd none ls

def Line.deeper (h : Line) (rest : List Line) : List Line :=
  rest.takeWhile (h.indent < ·.indent)

/-- The lines from the first one on that is no deeper than a header. -/
def Line.afterDeeper (h : Line) (rest : List Line) : List Line :=
  rest.dropWhile (h.indent < ·.indent)

/-- The lines deeper than a header that come after the end of its group. -/
def Line.lost (h : Line) (rest : List Line) : List Line := afterGroupEnd none (h.deeper rest)

namespace Line

variable {h l : Line} {rest : List Line}

theorem deeper_append_afterDeeper (h : Line) (rest : List Line) :
    h.deeper rest ++ h.afterDeeper rest = rest := List.takeWhile_append_dropWhile

theorem indent_lt_of_mem_deeper (hl : l ∈ h.deeper rest) : h.indent < l.indent := by
  simpa using List.mem_takeWhile_imp hl

theorem indent_le_of_mem_afterDeeper (hl : l ∈ (h.afterDeeper rest).head?) :
    l.indent ≤ h.indent := by
  have hnot := List.head?_dropWhile_not (fun m : Line => decide (h.indent < m.indent)) rest
  rw [show (rest.dropWhile (h.indent < ·.indent)).head? = some l from hl] at hnot
  simpa using hnot

theorem afterGroupEnd_subset (nested : Option Nat) (ls : List Line) :
    afterGroupEnd nested ls ⊆ ls := by
  induction ls generalizing nested with
  | nil => exact List.Subset.refl _
  | cons l ls ih =>
    have htail : ls ⊆ l :: ls := List.subset_cons_self l ls
    rw [afterGroupEnd]
    split
    · exact List.Subset.trans (ih _) htail
    · split
      · exact htail
      · exact List.Subset.trans (ih _) htail
      · exact List.Subset.trans (ih _) htail

theorem indent_lt_of_mem_lost (hl : l ∈ h.lost rest) : h.indent < l.indent :=
  indent_lt_of_mem_deeper (afterGroupEnd_subset none _ hl)

end Line

section Blocks

variable {α : Type}

/-- The indentation of a group inside a group. -/
def Body.nested? : Body α → Option Nat
  | .nested indent => some indent
  | _ => .none

/-- The block has its header no less deep than `n`. -/
def Body.Below (n : Nat) : Body α → Prop
  | .none => True
  | .statement indent _ | .refused indent | .nested indent => n ≤ indent

/-- All that is open has its header no less deep than `n`. -/
def Context.Below (n : Nat) : Context α → Prop
  | .top b => b.Below n
  | .inGroup g b => n ≤ g.indent ∧ b.Below n
  | .refusedGroup indent => n ≤ indent

def OpenGroup.header (g : OpenGroup α) : Nat × String × Nat :=
  (g.indent, g.group.name, g.group.line)

variable {b : Body α} {l : Line} {n : Nat} {ls : List Line}

theorem Body.Below.not_takes (hb : b.Below n) (hl : l.indent ≤ n) : ¬ b.Takes l := by
  have hnot {i : Nat} (hi : n ≤ i) : ¬ i < l.indent := Nat.not_lt.mpr (hl.trans hi)
  cases b with
  | none => exact id
  | statement i s => exact fun ht => hnot hb ht.1
  | refused i => exact fun ht => hnot hb ht.1
  | nested i => exact hnot hb

theorem Line.afterGroupEnd_of_takes (hb : b.Takes l) :
    afterGroupEnd b.nested? (l :: ls) = afterGroupEnd b.nested? ls := by
  rw [afterGroupEnd]
  cases b with
  | none => cases hb
  | statement i s => obtain ⟨-, hk | hk⟩ := hb <;> simp [Body.nested?, hk]
  | refused i => simp [Body.nested?, hb.2]
  | nested i => exact if_pos (decide_eq_true hb)

theorem Line.afterGroupEnd_of_not_takes (hb : ¬ b.Takes l) :
    afterGroupEnd b.nested? (l :: ls) =
      match l.kind with
      | .groupEnd => ls
      | .groupStart => afterGroupEnd (some l.indent) ls
      | _ => afterGroupEnd none ls := by
  rw [afterGroupEnd]
  apply if_neg
  cases b with
  | nested i => exact fun h => hb (of_decide_eq_true h)
  | _ => exact Bool.false_ne_true

end Blocks

variable {α : Type} [Scalar α] {strict : Bool} {b : Body α} {g : OpenGroup α} {c : Context α}
  {l h : Line} {n : Nat} {ls after : List Line}

namespace Body

theorem exists_absorb (strict : Bool) (hb : b.Takes l) :
    ∃ b' ds, b.absorb strict l = some (b', ds) ∧ b'.nested? = b.nested? ∧
      ∀ n, b.Below n → b'.Below n := by
  cases b with
  | none => cases hb
  | statement i s =>
    obtain ⟨hi, hk | hk⟩ := hb <;> unfold absorb <;> dsimp only <;> rw [if_pos hi, hk]
    · exact ⟨_, _, rfl, rfl, fun _ h => h⟩
    · exact ⟨_, _, rfl, rfl, fun _ h => h⟩
  | refused i => exact ⟨_, _, if_pos hb, rfl, fun _ h => h⟩
  | nested i => exact ⟨_, _, if_pos hb, rfl, fun _ h => h⟩

theorem below_ofHeader (hn : n ≤ l.indent) : (ofHeader l : Body α × _).1.Below n := by
  unfold ofHeader
  split <;> exact hn

theorem nested?_ofHeader (l : Line) : (ofHeader l : Body α × _).1.nested? = .none := by
  unfold ofHeader
  split <;> rfl

end Body

namespace Context

/-! ## Nothing open above -/

theorem below_outside (hn : n ≤ l.indent) : (outside l : Context α × _).1.Below n := by
  unfold outside
  split
  · split
    · exact ⟨hn, trivial⟩
    · exact hn
  · exact Body.below_ofHeader hn
  · trivial
  · trivial
  · trivial

theorem below_inside (hg : n ≤ g.indent) (hn : n ≤ l.indent) :
    (inside strict g l).1.Below n := by
  unfold inside
  split
  · trivial
  · split
    · exact below_outside hn
    · split
      · exact ⟨hg, Body.below_ofHeader hn⟩
      · exact ⟨hg, trivial⟩
      · exact ⟨hg, hn⟩
      · exact ⟨hg, trivial⟩

theorem Below.step (hc : c.Below n) (hn : n ≤ l.indent) : (step strict c l).1.Below n := by
  cases c with
  | top b =>
    by_cases hb : b.Takes l
    · obtain ⟨b', ds, ha, -, hbelow⟩ := b.exists_absorb strict hb
      rw [step_top_of_absorb ha]
      exact hbelow n hc
    · rw [step_top_of_not_takes hb]
      exact below_outside hn
  | inGroup g b =>
    by_cases hb : b.Takes l
    · obtain ⟨b', ds, ha, -, hbelow⟩ := b.exists_absorb strict hb
      rw [step_inGroup_of_absorb ha]
      exact ⟨hc.1, hbelow n hc.2⟩
    · rw [step_inGroup_of_not_takes hb]
      exact below_inside (g := g.adopt b.finished) hc.1 hn
  | refusedGroup i =>
    unfold Context.step
    dsimp only
    split
    · exact hc
    · split
      · trivial
      · exact below_outside hn

theorem Below.run (hc : c.Below n) (hls : ∀ l ∈ ls, n ≤ l.indent) :
    (run strict c ls).1.Below n := by
  induction ls generalizing c with
  | nil => exact hc
  | cons l ls ih =>
    obtain ⟨hl, hls⟩ := List.forall_mem_cons.mp hls
    exact ih (hc.step hl) hls

theorem Below.items_reads (hc : c.Below n) (hafter : ∀ l ∈ after.head?, l.indent ≤ n) :
    (reads strict c after).items = c.close.items ++ (reads strict (.top .none) after).items := by
  cases c with
  | top b => exact reads_top_of_not_takes fun l hl => Body.Below.not_takes hc (hafter l hl)
  | inGroup g b =>
    rw [reads_inGroup_of_not_takes fun l hl => hc.2.not_takes (hafter l hl), items_reads_group]
    · rfl
    · intro l hl hdeeper
      exact absurd hdeeper (Nat.not_lt.mpr ((hafter l hl).trans hc.1))
  | refusedGroup i =>
    exact items_reads_refusedGroup fun l hl => (hafter l hl).trans hc

theorem items_reads_append (hls : ∀ l ∈ ls, n ≤ l.indent)
    (hafter : ∀ l ∈ after.head?, l.indent ≤ n) :
    (reads strict (.top .none : Context α) (ls ++ after)).items =
      (readLines strict ls).items ++ (reads strict (.top .none) after).items := by
  have hc : (Context.run strict (.top .none : Context α) ls).1.Below n :=
    Below.run (c := .top .none) trivial hls
  rw [reads_append, Findings.items_append, hc.items_reads hafter, ← List.append_assoc]
  rfl

/-! ## Groups -/

/-- A line that is deeper than the header of a group ends the group or stays in it. -/
theorem step_deep (strict : Bool) (hb : b.Below g.indent) (hl : g.indent < l.indent) :
    (step strict (.inGroup g b) l = (.top .none, (g.adopt b.finished).close) ∧
      ∀ ls, Line.afterGroupEnd b.nested? (l :: ls) = ls) ∨
    ∃ g' b' ds, step strict (.inGroup g b) l = (.inGroup g' b', .only ds) ∧
      g'.header = g.header ∧ b'.Below g.indent ∧
      ∀ ls, Line.afterGroupEnd b.nested? (l :: ls) = Line.afterGroupEnd b'.nested? ls := by
  by_cases ht : b.Takes l
  · obtain ⟨b', ds, ha, hnested, hbelow⟩ := b.exists_absorb strict ht
    refine .inr ⟨g, b', ds, step_inGroup_of_absorb ha, rfl, hbelow _ hb, ?_⟩
    intro ls
    rw [Line.afterGroupEnd_of_takes ht, hnested]
  · have hindent : ¬ l.indent ≤ (g.adopt b.finished).indent := Nat.not_le.mpr hl
    simp only [step_inGroup_of_not_takes ht, Line.afterGroupEnd_of_not_takes ht]
    unfold inside
    cases hk : l.kind with
    | groupEnd => exact .inl ⟨if_pos rfl, fun _ => rfl⟩
    | statement =>
      rw [if_neg (by decide), if_neg hindent]
      refine .inr ⟨_, (Body.ofHeader l).1, _, rfl, rfl, Body.below_ofHeader hl.le, ?_⟩
      intro ls
      rw [Body.nested?_ofHeader]
    | property =>
      rw [if_neg (by decide), if_neg hindent]
      exact .inr ⟨_, _, _, rfl, rfl, trivial, fun _ => rfl⟩
    | groupStart =>
      rw [if_neg (by decide), if_neg hindent]
      exact .inr ⟨_, _, _, rfl, rfl, hl.le, fun _ => rfl⟩
    | unknown =>
      rw [if_neg (by decide), if_neg hindent]
      exact .inr ⟨_, _, _, rfl, rfl, trivial, fun _ => rfl⟩

/-- A group ends among the lines that are deeper than its header, or with them.  The lines after its
end are read at top level. -/
theorem items_reads_deep (strict : Bool) (hb : b.Below g.indent) (hls : ∀ l ∈ ls, g.indent < l.indent)
    (hafter : ∀ l ∈ after.head?, l.indent ≤ g.indent) :
    ∃ g' : GroupDef α, g'.name = g.group.name ∧ g'.line = g.group.line ∧
      (reads strict (.inGroup g b) (ls ++ after)).items =
        .group g' ::
          (reads strict (.top .none) (Line.afterGroupEnd b.nested? ls ++ after)).items := by
  induction ls generalizing g b with
  | nil =>
    have hc : (Context.inGroup g b).Below g.indent := ⟨le_rfl, hb⟩
    exact ⟨(g.adopt b.finished).group, rfl, rfl, hc.items_reads hafter⟩
  | cons l ls ih =>
    obtain ⟨hl, hls⟩ := List.forall_mem_cons.mp hls
    rw [List.cons_append, reads_cons, Findings.items_append]
    obtain ⟨hs, hend⟩ | ⟨g', b', ds, hs, hheader, hb', hend⟩ := step_deep strict hb hl
    · rw [hs, hend]
      exact ⟨(g.adopt b.finished).group, rfl, rfl, rfl⟩
    · obtain ⟨hindent, hname, hline⟩ : g'.indent = g.indent ∧ g'.group.name = g.group.name ∧
          g'.group.line = g.group.line := by
        simpa [OpenGroup.header] using hheader
      rw [hs, hend, ← hname, ← hline]
      rw [← hindent] at hb' hls hafter
      exact ih hb' hls hafter

omit [Scalar α] in
theorem AtTop.congr {h' : Line} (hc : c.AtTop h) (hi : h'.indent = h.indent)
    (hk : h'.kind = h.kind) : c.AtTop h' := by
  have htakes (b : Body α) : b.Takes h' ↔ b.Takes h := by
    cases b <;> simp only [Body.Takes, hi, hk]
  cases c with
  | top b => exact (htakes b).not.mpr hc
  | inGroup g b => exact ⟨(htakes b).not.mpr hc.1, hi ▸ hc.2⟩
  | refusedGroup i => exact (hi ▸ hc : h'.indent ≤ i)

/-! ## Headers at top level -/

variable {rest : List Line}

theorem items_reads_refusedHeader {d : Diagnostic α} (hc : c.AtTop h) (hk : h.kind = .groupStart)
    (hd : h.readHeader Reader.groupHeader = .error d) :
    (reads strict c (h :: rest)).items =
      c.close.items ++ (reads strict (.top .none) (h.afterDeeper rest)).items := by
  have hout : outside h = (.refusedGroup h.indent, .only [d]) := by
    unfold outside
    rw [hk]
    dsimp only
    rw [hd]
  have hskip : reads strict (.refusedGroup h.indent : Context α) rest =
      reads strict (.refusedGroup h.indent) (h.afterDeeper rest) := by
    rw [← h.deeper_append_afterDeeper rest,
      reads_skipped (c := .refusedGroup h.indent) rfl fun l hl => Line.indent_lt_of_mem_deeper hl,
      h.deeper_append_afterDeeper rest]
  rw [reads_cons, step_atTop strict hc (by rw [hk]; decide), hout]
  dsimp only
  rw [hskip, Findings.items_append, Findings.items_append,
    items_reads_refusedGroup fun l hl => Line.indent_le_of_mem_afterDeeper hl]
  exact congrArg (· ++ _) (List.append_nil _)

/-- After a header that can be read the deeper lines are those of the group, and those after its
end are read by themselves. -/
theorem items_reads_readHeader (strict : Bool) (rest : List Line) {name : String} (hc : c.AtTop h)
    (hk : h.kind = .groupStart)
    (hd : (h.readHeader Reader.groupHeader : Except (Diagnostic α) _) = .ok name) :
    ∃ g : GroupDef α, g.name = name ∧ g.line = h.number ∧
      (reads strict c (h :: rest)).items = c.close.items ++ .group g ::
        ((readLines strict (h.lost rest)).items ++
          (reads strict (.top .none) (h.afterDeeper rest)).items) := by
  let opened : OpenGroup α := ⟨h.indent, h.column, ⟨name, h.number, {}, []⟩⟩
  have hout : outside h = (.inGroup opened .none, {}) := by
    unfold outside
    rw [hk]
    dsimp only
    rw [hd]
  have hafter : ∀ l ∈ (h.afterDeeper rest).head?, l.indent ≤ h.indent := fun _ hl =>
    Line.indent_le_of_mem_afterDeeper hl
  obtain ⟨g, hname, hline, hgroup⟩ := items_reads_deep strict (g := opened) (b := .none) trivial
    (fun l hl => Line.indent_lt_of_mem_deeper hl) hafter
  rw [h.deeper_append_afterDeeper rest] at hgroup
  refine ⟨g, hname, hline, ?_⟩
  rw [reads_cons, step_atTop strict hc (by rw [hk]; decide), hout]
  simp only [Findings.items_append]
  rw [hgroup, ← items_reads_append (fun l hl => (Line.indent_lt_of_mem_lost hl).le) hafter]
  exact List.append_assoc ..

end Context

/-! ## Scripts -/

/-- Of two scripts that differ in the header of a group at top level only, the one with the header
that cannot be read gives the items of the other one without the group, and without those of the
lines that are deeper than the header and come after the `endgroup` of the group.  So nothing but
the group is dropped if and only if those lines give no items. -/
theorem readScript_skipped (strict : Bool) {source source' : String} {before rest : List Line}
    {h h' : Line} {d : Diagnostic α} {name : String}
    (hsource : Line.ofSource source.toList = before ++ h :: rest)
    (hsource' : Line.ofSource source'.toList = before ++ h' :: rest)
    (hk : h.kind = .groupStart) (hk' : h'.kind = .groupStart) (hi : h'.indent = h.indent)
    (htop : (Context.run strict (.top .none : Context α) before).1.AtTop h)
    (hd : h.readHeader Reader.groupHeader = .error d)
    (hd' : (h'.readHeader Reader.groupHeader : Except (Diagnostic α) _) = .ok name) :
    let items : List (Item α) := (readScript strict source).items
    let items' : List (Item α) := (readScript strict source').items
    let lost : List (Item α) := (readLines strict (h.lost rest)).items
    (∃ pre g post, g.name = name ∧ g.line = h'.number ∧
      items' = pre ++ .group g :: (lost ++ post) ∧ items = pre ++ post) ∧
    ((∃ pre g post, g.line = h'.number ∧ items' = pre ++ .group g :: post ∧ items = pre ++ post) ↔
      lost = []) := by
  intro items items' lost
  let c : Context α := (Context.run strict (.top .none) before).1
  let first : List (Item α) := (Context.run strict (.top .none : Context α) before).2.items
  have hread {text : String} {ls : List Line}
      (htext : Line.ofSource text.toList = before ++ ls) :
      (readScript strict text).items = first ++ (c.reads strict ls).items :=
    congrArg Findings.items (readScript_of_lines strict htext)
  have htop' : c.AtTop h' := htop.congr hi (hk'.trans hk.symm)
  have hlost : h'.lost rest = h.lost rest := by
    unfold Line.lost Line.deeper
    rw [hi]
  have hafter : h'.afterDeeper rest = h.afterDeeper rest := by
    unfold Line.afterDeeper
    rw [hi]
  obtain ⟨g, hname, hline, hgroup⟩ := Context.items_reads_readHeader strict rest htop' hk' hd'
  rw [hlost, hafter] at hgroup
  generalize hpost : (Context.reads strict (.top .none : Context α) (h.afterDeeper rest)).items =
    post at hgroup
  have hitems : items = first ++ c.close.items ++ post := by
    rw [← hpost, List.append_assoc, ← Context.items_reads_refusedHeader htop hk hd]
    exact hread hsource
  have hitems' : items' = first ++ c.close.items ++ .group g :: (lost ++ post) := by
    rw [List.append_assoc, ← hgroup]
    exact hread hsource'
  constructor
  · exact ⟨_, g, post, hname, hline, hitems', hitems⟩
  · constructor
    · rintro ⟨pre, g', post', -, hwhole, hpart⟩
      have hlength := congrArg List.length (hitems'.symm.trans hwhole)
      have hlength' := congrArg List.length (hitems.symm.trans hpart)
      simp only [List.length_append, List.length_cons] at hlength hlength'
      exact List.eq_nil_of_length_eq_zero (by omega)
    · intro hlost
      rw [hlost, List.nil_append] at hitems'
      exact ⟨_, g, post, hline, hitems', hitems⟩

/-- A group without name, with a nested group and an `endgroup` that is no deeper than its header. -/
theorem readScript_skipped_nested :
    let rest : List Line := [⟨2, 2, 3, "group inner:".toList⟩, ⟨3, 4, 5, "endgroup".toList⟩,
      ⟨4, 2, 3, "loop \"a\":".toList⟩, ⟨5, 0, 1, "endgroup".toList⟩,
      ⟨6, 0, 1, "loop \"b\":".toList⟩]
    let below := "\n  group inner:\n    endgroup\n  loop \"a\":\nendgroup\nloop \"b\":\n"
    let h : Line := ⟨1, 0, 1, "group:".toList⟩
    let h' : Line := ⟨1, 0, 1, "group outer:".toList⟩
    Line.ofSource ("group:" ++ below).toList = [] ++ h :: rest ∧
      Line.ofSource ("group outer:" ++ below).toList = [] ++ h' :: rest ∧
      h.kind = .groupStart ∧ h'.kind = .groupStart ∧
      (Context.top .none : Context Rat).AtTop h ∧
      (∃ d : Diagnostic Rat, h.readHeader Reader.groupHeader = .error d) ∧
      (h'.readHeader Reader.groupHeader : Except (Diagnostic Rat) _) = .ok "outer" ∧
      ∃ pre g post, g.line = 1 ∧
        (readScript false ("group outer:" ++ below) : Findings Rat).items = pre ++ .group g :: post ∧
        (readScript false ("group:" ++ below)).items = pre ++ post := by
  intro rest below h h'
  have hsource : Line.ofSource ("group:" ++ below).toList = [] ++ h :: rest := by decide +kernel
  have hsource' : Line.ofSource ("group outer:" ++ below).toList = [] ++ h' :: rest := by
    decide +kernel
  have hk : h.kind = .groupStart := by decide +kernel
  have hk' : h'.kind = .groupStart := by decide +kernel
  have htop : (Context.top .none : Context Rat).AtTop h := id
  obtain ⟨d, hd⟩ := Line.readHeader_eq_error
    (show (h.readHeader (Reader.groupHeader (α := Rat))).toBool = false by decide +kernel)
  have hd' : (h'.readHeader Reader.groupHeader : Except (Diagnostic Rat) _) = .ok "outer" := by
    decide +kernel
  have hlost : (readLines false (h.lost rest) : Findings Rat).items = [] := by decide +kernel
  exact ⟨hsource, hsource', hk, hk', htop, ⟨d, hd⟩, hd',
    (readScript_skipped false hsource hsource' hk hk' rfl htop hd hd').2.mpr hlost⟩

/-- The `endgroup` is as deep as the statements, so with a name the group ends with it.  Without a
name the statement after it is skipped as well. -/
theorem readScript_skipped_deepEnd :
    let rest : List Line := [⟨2, 2, 3, "loop \"a\":".toList⟩, ⟨3, 2, 3, "endgroup".toList⟩,
      ⟨4, 2, 3, "loop \"b\":".toList⟩]
    let below := "\n  loop \"a\":\n  endgroup\n  loop \"b\":\n"
    let h : Line := ⟨1, 0, 1, "group:".toList⟩
    let h' : Line := ⟨1, 0, 1, "group g:".toList⟩
    let a : StatementDef Rat := ⟨.loop, "a", 1, {}, 2⟩
    let b : StatementDef Rat := ⟨.loop, "b", 1, {}, 4⟩
    Line.ofSource ("group:" ++ below).toList = h :: rest ∧
      Line.ofSource ("group g:" ++ below).toList = h' :: rest ∧
      h.kind = .groupStart ∧ h'.kind = .groupStart ∧
      (∃ d : Diagnostic Rat, h.readHeader Reader.groupHeader = .error d) ∧
      (readScript false ("group g:" ++ below) : Findings Rat).items =
        [.group ⟨"g", 1, {}, [a]⟩, .statement b] ∧
      (readScript false ("group:" ++ below) : Findings Rat).items = [] := by
  intro rest below h h' a b
  refine ⟨by decide +kernel, by decide +kernel, by decide +kernel, by decide +kernel, ?_,
    by decide +kernel, by decide +kernel⟩
  exact Line.readHeader_eq_error (show (h.readHeader (Reader.groupHeader (α := Rat))).toBool = false
    by decide +kernel)

end Soundscape
