import Mathlib.Data.List.TakeWhile
import Soundscape.Proofs.Script.Blanked

/-!
# Statements that are dropped

A statement whose header cannot be read is dropped with its body.  The lines of the body give
nothing (`Context.items_reads_body`).  The header gives nothing either, but it ends what is open, so
it stands between that and the line after the body (`Context.items_reads_header`).
-/

namespace Soundscape

/-! ## Bodies -/

/-- A line that the body of a statement takes if the given line is its header. -/
def Line.TakesBelow (h l : Line) : Prop :=
  h.indent < l.indent ∧ (l.kind = .property ∨ l.kind = .unknown)

instance (h l : Line) : Decidable (h.TakesBelow l) := inferInstanceAs (Decidable (_ ∧ _))

def Line.body (h : Line) (rest : List Line) : List Line := rest.takeWhile (h.TakesBelow ·)

/-- The lines after the body that follows a header. -/
def Line.afterBody (h : Line) (rest : List Line) : List Line := rest.dropWhile (h.TakesBelow ·)

namespace Line

variable {h l : Line} {rest : List Line}

theorem takesBelow_of_mem_body (hl : l ∈ h.body rest) : h.TakesBelow l := by
  simpa using List.mem_takeWhile_imp hl

theorem not_takesBelow_afterBody (hl : l ∈ (h.afterBody rest).head?) : ¬ h.TakesBelow l := by
  have hnot := List.head?_dropWhile_not (h.TakesBelow ·) rest
  rw [show (rest.dropWhile (h.TakesBelow ·)).head? = some l from hl] at hnot
  simpa using hnot

theorem body_append_afterBody (h : Line) (rest : List Line) :
    h.body rest ++ h.afterBody rest = rest := List.takeWhile_append_dropWhile

end Line

section Blocks

variable {α : Type}

def Body.Takes (l : Line) : Body α → Prop
  | .none => False
  | .statement indent _ => indent < l.indent ∧ (l.kind = .property ∨ l.kind = .unknown)
  | .refused indent => indent < l.indent ∧ l.kind = .property
  | .nested indent => indent < l.indent

/-- The indentation of the block whose lines are all skipped. -/
def Context.skipped? : Context α → Option Nat
  | .top (.nested indent) | .inGroup _ (.nested indent) | .refusedGroup indent => some indent
  | _ => none

/-- The line belongs to nothing that is open. -/
def Context.AtTop (l : Line) : Context α → Prop
  | .top b => ¬ b.Takes l
  | .inGroup g b => ¬ b.Takes l ∧ l.indent ≤ g.indent
  | .refusedGroup indent => l.indent ≤ indent

/-- The header of a statement ends what a line would have gone on with. -/
def Context.Interrupted (h l : Line) : Context α → Prop
  | .top (.refused _) => False
  | .top body => ¬ body.Takes h ∧ body.Takes l
  | .inGroup g body => ¬ body.Takes h ∧
      (body.Takes l ∨ h.indent ≤ g.indent ∧ g.indent < l.indent ∧ l.kind ≠ .groupEnd)
  | .refusedGroup indent => h.indent ≤ indent ∧ indent < l.indent

instance (l : Line) : (b : Body α) → Decidable (b.Takes l)
  | .none => inferInstanceAs (Decidable False)
  | .statement .. => inferInstanceAs (Decidable (_ ∧ _))
  | .refused _ => inferInstanceAs (Decidable (_ ∧ _))
  | .nested _ => inferInstanceAs (Decidable (_ < _))

instance (h l : Line) : (c : Context α) → Decidable (c.Interrupted h l)
  | .top (.refused _) => inferInstanceAs (Decidable False)
  | .top .none | .top (.statement ..) | .top (.nested _) | .inGroup .. | .refusedGroup _ =>
    inferInstanceAs (Decidable (_ ∧ _))

theorem OpenGroup.adopt_none (g : OpenGroup α) : g.adopt none = g := by
  unfold adopt
  rw [Option.toList_none, List.append_nil]

theorem Body.eq_nested_of_takes {b : Body α} {l : Line} (hb : b.Takes l)
    (hk : l.kind = .statement) : ∃ i, b = .nested i ∧ i < l.indent := by
  cases b with
  | none => exact absurd hb not_false
  | statement indent s => simp [Takes, hk] at hb
  | refused indent => simp [Takes, hk] at hb
  | nested indent => exact ⟨indent, rfl, hb⟩

end Blocks

variable {α : Type} [Scalar α] {strict : Bool}

theorem Line.readHeader_eq_error {A : Type} {reader : Reader α A} {l : Line}
    (h : (l.readHeader reader).toBool = false) : ∃ d, l.readHeader reader = .error d := by
  cases hd : l.readHeader reader with
  | ok a =>
    rw [hd] at h
    cases h
  | error d => exact ⟨d, rfl⟩

namespace Body

theorem absorb_of_not_takes {b : Body α} {l : Line} (h : ¬ b.Takes l) :
    b.absorb strict l = .none := by
  cases b with
  | none => rfl
  | statement indent s =>
    unfold absorb
    dsimp only
    by_cases hi : indent < l.indent
    · rw [if_pos hi]
      cases hk : l.kind with
      | property => exact absurd ⟨hi, .inl hk⟩ h
      | unknown => exact absurd ⟨hi, .inr hk⟩ h
      | _ => rfl
    · exact if_neg hi
  | refused indent => exact if_neg h
  | nested indent => exact if_neg h

theorem ofHeader_of_error {l : Line} {d : Diagnostic α}
    (h : l.readHeader Reader.statementHeader = .error d) :
    ofHeader l = (refused l.indent, [d]) := by
  unfold ofHeader
  rw [h]

end Body

namespace Context

variable {c : Context α} {g : OpenGroup α} {b : Body α} {i : Nat} {l h : Line}
  {ls body after : List Line}

/-! ## Steps -/

theorem step_top_of_absorb {b' : Body α} {ds : List (Diagnostic α)}
    (ha : b.absorb strict l = some (b', ds)) :
    step strict (.top b) l = (.top b', .only ds) := by
  unfold step
  dsimp only
  rw [ha]

theorem step_inGroup_of_absorb {b' : Body α} {ds : List (Diagnostic α)}
    (ha : b.absorb strict l = some (b', ds)) :
    step strict (.inGroup g b) l = (.inGroup g b', .only ds) := by
  unfold step
  dsimp only
  rw [ha]

theorem step_top_of_not_takes (hb : ¬ b.Takes l) :
    step strict (.top b) l =
      ((outside l).1, ⟨b.finished.toList.map .statement, []⟩ ++ (outside l).2) := by
  unfold step
  dsimp only
  rw [Body.absorb_of_not_takes hb]

theorem step_inGroup_of_not_takes (hb : ¬ b.Takes l) :
    step strict (.inGroup g b) l = inside strict (g.adopt b.finished) l := by
  unfold step
  dsimp only
  rw [Body.absorb_of_not_takes hb]

theorem step_top (l : Line) : step strict (.top .none : Context α) l = outside l := rfl

theorem step_inGroup (g : OpenGroup α) (l : Line) :
    step strict (.inGroup g .none) l = inside strict g l := by
  show inside strict (g.adopt none) l = _
  rw [OpenGroup.adopt_none]

theorem step_refused_top (hl : (Body.refused i : Body α).Takes l) :
    step strict (.top (.refused i) : Context α) l = (.top (.refused i), {}) :=
  step_top_of_absorb (if_pos hl)

theorem step_refused_inGroup (hl : (Body.refused i : Body α).Takes l) :
    step strict (.inGroup g (.refused i)) l = (.inGroup g (.refused i), {}) :=
  step_inGroup_of_absorb (if_pos hl)

theorem step_skipped (hc : c.skipped? = some i) (hi : i < l.indent) :
    step strict c l = (c, {}) := by
  have hnested : (Body.nested i : Body α).absorb strict l = some (.nested i, []) := if_pos hi
  unfold skipped? at hc
  split at hc <;> cases hc
  · exact step_top_of_absorb hnested
  · exact step_inGroup_of_absorb hnested
  · exact if_pos hi

theorem step_atTop (strict : Bool) (hc : c.AtTop l) (hk : l.kind ≠ .groupEnd) :
    step strict c l = ((outside l).1, c.close ++ (outside l).2) := by
  cases c with
  | top b => exact step_top_of_not_takes hc
  | inGroup g b =>
    rw [step_inGroup_of_not_takes hc.1]
    unfold inside
    rw [if_neg hk]
    exact if_pos hc.2
  | refusedGroup i =>
    unfold step
    dsimp only
    rw [if_neg (Nat.not_lt.mpr hc), if_neg hk]
    rfl

/-! ## Contexts that read on alike -/

theorem reads_skipped (hc : c.skipped? = some i) (hls : ∀ l ∈ ls, i < l.indent) :
    reads strict c (ls ++ after) = reads strict c after := by
  induction ls with
  | nil => rfl
  | cons l ls ih =>
    obtain ⟨hl, hls⟩ := List.forall_mem_cons.mp hls
    rw [List.cons_append, reads_cons, step_skipped hc hl]
    exact ih hls

/-- A block that does not go on gives its statement, and the lines are read as if it were not
there. -/
theorem reads_top_of_not_takes (hb : ∀ l ∈ ls.head?, ¬ b.Takes l) :
    (reads strict (.top b) ls).items =
      b.finished.toList.map .statement ++ (reads strict (.top .none) ls).items := by
  cases ls with
  | nil =>
    show b.finished.toList.map Item.statement = b.finished.toList.map Item.statement ++ []
    rw [List.append_nil]
  | cons l ls =>
    rw [reads_cons, reads_cons, step_top_of_not_takes (hb l rfl), step_top]
    exact List.append_assoc _ _ _

theorem reads_inGroup_of_not_takes (hb : ∀ l ∈ ls.head?, ¬ b.Takes l) :
    reads strict (.inGroup g b) ls = reads strict (.inGroup (g.adopt b.finished) .none) ls := by
  cases ls with
  | nil =>
    show {} ++ (g.adopt b.finished).close = {} ++ ((g.adopt b.finished).adopt none).close
    rw [OpenGroup.adopt_none]
  | cons l ls =>
    rw [reads_cons, reads_cons, step_inGroup_of_not_takes (hb l rfl), step_inGroup]

theorem items_reads_refused (i : Nat) (ls : List Line) :
    (reads strict (.top (.refused i) : Context α) ls).items =
      (reads strict (.top .none : Context α) ls).items := by
  induction ls with
  | nil => rfl
  | cons l ls ih =>
    by_cases hl : (Body.refused i : Body α).Takes l
    · -- a property line that is skipped here, and belongs to nothing without the statement
      rw [reads_cons, reads_cons, step_refused_top hl, step_top]
      unfold outside
      rw [hl.2]
      exact ih
    · exact reads_top_of_not_takes fun _ hm => Option.some_inj.mp hm ▸ hl

theorem items_reads_top (hls : ∀ l ∈ ls, l.kind = .property ∨ l.kind = .unknown) :
    (reads strict (.top .none : Context α) (ls ++ after)).items =
      (reads strict (.top .none) after).items := by
  induction ls with
  | nil => rfl
  | cons l ls ih =>
    obtain ⟨hl, hls⟩ := List.forall_mem_cons.mp hls
    rw [List.cons_append, reads_cons, step_top]
    unfold outside
    obtain hk | hk := hl <;> rw [hk] <;> exact ih hls

theorem items_reads_inGroup (hls : ∀ l ∈ ls, g.indent < l.indent ∧ l.kind = .unknown) :
    (reads strict (.inGroup g .none) (ls ++ after)).items =
      (reads strict (.inGroup g .none) after).items := by
  induction ls with
  | nil => rfl
  | cons l ls ih =>
    obtain ⟨⟨hi, hk⟩, hls⟩ := List.forall_mem_cons.mp hls
    rw [List.cons_append, reads_cons, step_inGroup]
    unfold inside
    rw [hk, if_neg (by decide), if_neg (Nat.not_le.mpr hi)]
    exact ih hls

theorem reads_inGroup_refused (hls : ∀ l ∈ ls, i < l.indent ∧ l.kind = .property) :
    reads strict (.inGroup g (.refused i)) (ls ++ after) =
      reads strict (.inGroup g (.refused i)) after := by
  induction ls with
  | nil => rfl
  | cons l ls ih =>
    obtain ⟨hl, hls⟩ := List.forall_mem_cons.mp hls
    rw [List.cons_append, reads_cons, step_refused_inGroup hl]
    exact ih hls

theorem reads_inGroup_refused_of_not
    (hls : ∀ l ∈ ls.head?, i < l.indent → l.kind ≠ .property) :
    reads strict (.inGroup g (.refused i)) ls = reads strict (.inGroup g .none) ls := by
  have hb : ∀ l ∈ ls.head?, ¬ (Body.refused i : Body α).Takes l := fun l hl ht => hls l hl ht.1 ht.2
  rw [reads_inGroup_of_not_takes hb]
  show reads strict (.inGroup (g.adopt none) .none) ls = _
  rw [OpenGroup.adopt_none]

theorem items_reads_inGroup_refused {properties others : List Line}
    (hp : ∀ l ∈ properties, i < l.indent ∧ l.kind = .property)
    (ho : ∀ l ∈ others, g.indent < l.indent ∧ l.kind = .unknown)
    (hafter : ∀ l ∈ after.head?, i < l.indent → l.kind ≠ .property) :
    (reads strict (.inGroup g (.refused i)) (properties ++ others ++ after)).items =
      (reads strict (.inGroup g (.refused i)) after).items := by
  have hothers : ∀ l ∈ (others ++ after).head?, i < l.indent → l.kind ≠ .property := by
    cases others with
    | nil => exact hafter
    | cons l others =>
      rintro _ ⟨⟩ -
      rw [(ho l List.mem_cons_self).2]
      nofun
  -- the first of the others ends the statement, which then need not have been there
  rw [List.append_assoc, reads_inGroup_refused hp, reads_inGroup_refused_of_not hothers,
    items_reads_inGroup ho, reads_inGroup_refused_of_not hafter]

theorem items_reads_group (hls : ∀ l ∈ ls.head?, g.indent < l.indent → l.kind = .groupEnd) :
    (reads strict (.inGroup g .none) ls).items =
      .group g.group :: (reads strict (.top .none) ls).items := by
  cases ls with
  | nil =>
    show (g.adopt none).close.items = _
    rw [OpenGroup.adopt_none]
    rfl
  | cons l ls =>
    rw [reads_cons, reads_cons, step_inGroup, step_top]
    unfold inside outside
    by_cases hk : l.kind = .groupEnd
    · rw [if_pos hk, hk]
      rfl
    · rw [if_neg hk, if_pos (Nat.not_lt.mp fun hi => hk (hls l rfl hi))]
      rfl

theorem items_reads_refusedGroup (hls : ∀ l ∈ ls.head?, l.indent ≤ i) :
    (reads strict (.refusedGroup i : Context α) ls).items =
      (reads strict (.top .none : Context α) ls).items := by
  cases ls with
  | nil => rfl
  | cons l ls =>
    rw [reads_cons, reads_cons, step_top]
    unfold step
    dsimp only
    rw [if_neg (Nat.not_lt.mpr (hls l rfl))]
    by_cases hk : l.kind = .groupEnd
    · rw [if_pos hk]
      unfold outside
      rw [hk]
      rfl
    · rw [if_neg hk]

/-! ## Refused headers -/

/-- What the refused header of a statement does to a context, and the items that it ends. -/
inductive Refuses (h : Line) : Context α → Context α → List (Item α) → Prop where
  | skipped {c : Context α} {i : Nat} : c.skipped? = some i → i < h.indent → Refuses h c c []
  | top {b : Body α} : ¬ b.Takes h →
      Refuses h (.top b) (.top (.refused h.indent)) (b.finished.toList.map .statement)
  | inGroup {g : OpenGroup α} {b : Body α} : ¬ b.Takes h → g.indent < h.indent →
      Refuses h (.inGroup g b) (.inGroup (g.adopt b.finished) (.refused h.indent)) []
  | group {g : OpenGroup α} {b : Body α} : ¬ b.Takes h → h.indent ≤ g.indent →
      Refuses h (.inGroup g b) (.top (.refused h.indent)) [.group (g.adopt b.finished).group]
  | refusedGroup {i : Nat} : h.indent ≤ i →
      Refuses h (.refusedGroup i) (.top (.refused h.indent)) []

theorem outside_of_error {d : Diagnostic α} (hk : h.kind = .statement)
    (hd : h.readHeader Reader.statementHeader = .error d) :
    outside h = (.top (.refused h.indent), .only [d]) := by
  unfold outside
  rw [hk]
  dsimp only
  rw [Body.ofHeader_of_error hd]

theorem inside_of_error {d : Diagnostic α} (hk : h.kind = .statement)
    (hd : h.readHeader Reader.statementHeader = .error d) :
    inside strict g h =
      if h.indent ≤ g.indent then (.top (.refused h.indent), g.close ++ .only [d])
      else (.inGroup g (.refused h.indent), .only [d]) := by
  unfold inside
  rw [hk, if_neg (by decide), outside_of_error hk hd]
  dsimp only
  rw [Body.ofHeader_of_error hd]

theorem refuses_step (strict : Bool) (c : Context α) {d : Diagnostic α} (hk : h.kind = .statement)
    (hd : h.readHeader Reader.statementHeader = .error d) :
    Refuses h c (step strict c h).1 (step strict c h).2.items := by
  have hskipped {c : Context α} {i : Nat} (hc : c.skipped? = some i) (hi : i < h.indent) :
      Refuses h c (step strict c h).1 (step strict c h).2.items := by
    rw [step_skipped hc hi]
    exact .skipped hc hi
  cases c with
  | top b =>
    by_cases hb : b.Takes h
    · obtain ⟨i, rfl, hi⟩ := Body.eq_nested_of_takes hb hk
      exact hskipped rfl hi
    · rw [step_top_of_not_takes hb, outside_of_error hk hd]
      simpa [Findings.only] using Refuses.top hb
  | inGroup g b =>
    by_cases hb : b.Takes h
    · obtain ⟨i, rfl, hi⟩ := Body.eq_nested_of_takes hb hk
      exact hskipped rfl hi
    · rw [step_inGroup_of_not_takes hb, inside_of_error hk hd]
      split
      · next hi => exact .group hb hi
      · next hi => exact .inGroup hb (Nat.not_le.mp hi)
  | refusedGroup i =>
    by_cases hi : i < h.indent
    · exact hskipped rfl hi
    · have hs : step strict (.refusedGroup i : Context α) h = outside h := by
        unfold step
        dsimp only
        rw [if_neg hi, hk, if_neg (by decide)]
      rw [hs, outside_of_error hk hd]
      exact .refusedGroup (Nat.not_lt.mp hi)

namespace Refuses

variable {c' : Context α} {ended : List (Item α)}

/-- The body of a refused statement gives nothing.  In a group its property lines come first, for
the others there would be the group's. -/
theorem items_body (hr : Refuses h c c' ended) (hbody : ∀ l ∈ body, h.TakesBelow l)
    (hafter : ∀ l ∈ after.head?, ¬ h.TakesBelow l)
    (hfirst : ∀ g, c' = .inGroup g (.refused h.indent) →
      ∀ l ∈ body.dropWhile (·.kind = .property), l.kind = .unknown) :
    (reads strict c' (body ++ after)).items = (reads strict c' after).items := by
  cases hr with
  | skipped hc hi =>
    rw [reads_skipped hc fun l hl => hi.trans (hbody l hl).1]
  | inGroup hb hi =>
    let isProperty (l : Line) : Bool := l.kind = .property
    have hsplit : body.takeWhile isProperty ++ body.dropWhile isProperty = body :=
      List.takeWhile_append_dropWhile
    rw [← hsplit]
    apply items_reads_inGroup_refused
    · intro l hl
      refine ⟨(hbody l ((List.takeWhile_prefix _).subset hl)).1, ?_⟩
      simpa [isProperty] using List.mem_takeWhile_imp hl
    · intro l hl
      exact ⟨hi.trans (hbody l ((List.dropWhile_suffix _).subset hl)).1, hfirst _ rfl l hl⟩
    · exact fun l hl hdeeper hk => hafter l hl ⟨hdeeper, .inl hk⟩
  | _ =>
    rw [items_reads_refused, items_reads_refused, items_reads_top fun l hl => (hbody l hl).2]

/-- A refused header gives nothing, and what it ends is ended by the line after the body as well,
unless that goes on with it. -/
theorem items_header (hr : Refuses h c c' ended) (hafter : ∀ l ∈ after.head?, ¬ h.TakesBelow l)
    (hgoes : ∀ l ∈ after.head?, ¬ c.Interrupted h l) :
    ended ++ (reads strict c' after).items = (reads strict c after).items := by
  cases hr with
  | skipped hc hi => rfl
  | @top b hb =>
    rw [items_reads_refused]
    cases b with
    | refused i =>
      -- the one block that may go on: it gives nothing either way
      rw [items_reads_refused]
      rfl
    | _ => exact (reads_top_of_not_takes fun l hl ht => hgoes l hl ⟨hb, ht⟩).symm
  | @inGroup g b hb hi =>
    rw [reads_inGroup_of_not_takes fun l hl ht => hgoes l hl ⟨hb, .inl ht⟩,
      reads_inGroup_refused_of_not fun l hl hdeeper hk => hafter l hl ⟨hdeeper, .inl hk⟩]
    rfl
  | @group g b hb hi =>
    -- without the header the group ends with the next line
    rw [items_reads_refused, reads_inGroup_of_not_takes fun l hl ht => hgoes l hl ⟨hb, .inl ht⟩,
      items_reads_group]
    · rfl
    · intro l hl hdeeper
      by_contra hk
      exact hgoes l hl ⟨hb, .inr ⟨hi, hdeeper, hk⟩⟩
  | refusedGroup hi =>
    rw [items_reads_refused, items_reads_refusedGroup]
    · rfl
    · intro l hl
      exact Nat.not_lt.mp fun hdeeper => hgoes l hl ⟨hi, hdeeper⟩

end Refuses

end Context

/-! ## Scripts -/

/-- A statement whose header cannot be read is dropped with its body: the items are the same when
the body is made blank, and the same when the header is made blank with it, unless the header ends
what the line after the body would have gone on with.  The body in a group has its property lines
first, since the group takes those that come later (`readScript_group_takesProperty`). -/
theorem readScript_dropped (strict : Bool) (source : String) {before rest : List Line} {h : Line}
    {d : Diagnostic α} (hsource : Line.ofSource source.toList = before ++ h :: rest)
    (hk : h.kind = .statement) (hd : h.readHeader Reader.statementHeader = .error d)
    (hfirst : ∀ g : OpenGroup α,
      (Context.run strict (.top .none) (before ++ [h])).1 = .inGroup g (.refused h.indent) →
      ∀ l ∈ (h.body rest).dropWhile (·.kind = .property), l.kind = .unknown) :
    let items (blank : List Line) : List (Item α) :=
      (readScript strict (Line.blank blank source)).items
    items (h.body rest) = (readScript strict source).items ∧
      ((∀ l ∈ (h.afterBody rest).head?,
          ¬ (Context.run strict (.top .none : Context α) before).1.Interrupted h l) →
        items (h :: h.body rest) = (readScript strict source).items) := by
  intro items
  let c : Context α := (Context.run strict (.top .none) before).1
  -- what the lines before the header give is the same in all three scripts
  have hread {text : String} {ls : List Line}
      (htext : Line.ofSource text.toList = before ++ ls) :
      (readScript strict text).items =
        (Context.run strict (.top .none : Context α) before).2.items ++
          (c.reads strict ls).items :=
    congrArg Findings.items (readScript_of_lines strict htext)
  have hbelow : ∀ l ∈ h.body rest, h.TakesBelow l := fun l hl => Line.takesBelow_of_mem_body hl
  have hafter : ∀ l ∈ (h.afterBody rest).head?, ¬ h.TakesBelow l := fun l hl =>
    Line.not_takesBelow_afterBody hl
  have hlines : Line.ofSource source.toList = before ++ h :: (h.body rest ++ h.afterBody rest) := by
    rw [hsource, Line.body_append_afterBody]
  have hr := Context.refuses_step strict c hk hd
  have hbody : (c.reads strict (h :: (h.body rest ++ h.afterBody rest))).items =
      (c.reads strict (h :: h.afterBody rest)).items := by
    rw [Context.reads_cons, Context.reads_cons, Findings.items_append, Findings.items_append,
      hr.items_body hbelow hafter]
    intro g hg
    apply hfirst g
    rw [Context.run_append]
    exact hg
  constructor
  · have hsplit : Line.ofSource source.toList =
        (before ++ [h]) ++ h.body rest ++ h.afterBody rest := by simp [hlines]
    have hblank : Line.ofSource (Line.blank (h.body rest) source).toList =
        before ++ h :: h.afterBody rest := by
      rw [Line.ofSource_blank hsplit, List.append_assoc, List.singleton_append]
    rw [hread hlines, hbody]
    exact hread hblank
  · intro hgoes
    have hsplit : Line.ofSource source.toList =
        before ++ (h :: h.body rest) ++ h.afterBody rest := by simp [hlines]
    have hheader : (c.reads strict (h :: h.afterBody rest)).items =
        (c.reads strict (h.afterBody rest)).items := by
      rw [Context.reads_cons, Findings.items_append]
      exact hr.items_header hafter hgoes
    rw [hread hlines, hbody, hheader]
    exact hread (Line.ofSource_blank hsplit)

/-- A statement in a group is dropped with a property line and a line that is nothing known. -/
theorem readScript_dropped_inGroup :
    let source := "group g:\n  loop rain:\n    volume = 0.5\n    soft\n  loop \"wind\":\n"
    let h : Line := ⟨2, 2, 3, "loop rain:".toList⟩
    let rest : List Line := [⟨3, 4, 5, "volume = 0.5".toList⟩, ⟨4, 4, 5, "soft".toList⟩,
      ⟨5, 2, 3, "loop \"wind\":".toList⟩]
    Line.ofSource source.toList = [⟨1, 0, 1, "group g:".toList⟩] ++ h :: rest ∧
      h.kind = .statement ∧ h.body rest = rest.take 2 ∧
      (∃ d, (h.readHeader Reader.statementHeader : Except (Diagnostic Float) _) = .error d) ∧
      (readScript false "group g:\n\n\n\n  loop \"wind\":\n" : Findings Float).items =
        (readScript false source).items := by
  intro source h rest
  have hsource : Line.ofSource source.toList = [⟨1, 0, 1, "group g:".toList⟩] ++ h :: rest := by
    decide +kernel
  have hk : h.kind = .statement := by decide +kernel
  have hblank : Line.blank (h :: h.body rest) source = "group g:\n\n\n\n  loop \"wind\":\n" := by
    decide +kernel
  have hfirst : ∀ l ∈ (h.body rest).dropWhile (·.kind = .property), l.kind = .unknown := by
    decide +kernel
  obtain ⟨d, hd⟩ := Line.readHeader_eq_error
    (show (h.readHeader (Reader.statementHeader (α := Float))).toBool = false by decide +kernel)
  have hdropped := readScript_dropped false source hsource hk hd fun _ _ => hfirst
  refine ⟨hsource, hk, by decide +kernel, ⟨d, hd⟩, ?_⟩
  rw [← hblank]
  exact hdropped.2 (by decide +kernel)

/-- In a group the body must not have a property line after an unknown line: the group takes that
line for its own, and so the body is more than blank lines. -/
theorem readScript_group_takesProperty :
    let source := "group g:\n  loop rain:\n    hello\n    volume = 0.5\n  loop \"wind\":\n"
    ∃ before h rest d, Line.ofSource source.toList = before ++ h :: rest ∧ h.kind = .statement ∧
      (h.readHeader Reader.statementHeader : Except (Diagnostic Float) _) = .error d ∧
      (h.body rest).map Line.kind = [.unknown, .property] ∧
      (readScript false (Line.blank (h.body rest) source) : Findings Float).items ≠
        (readScript false source).items := by
  intro source
  let h : Line := ⟨2, 2, 3, "loop rain:".toList⟩
  let before : List Line := [⟨1, 0, 1, "group g:".toList⟩]
  let rest : List Line := [⟨3, 4, 5, "hello".toList⟩, ⟨4, 4, 5, "volume = 0.5".toList⟩,
    ⟨5, 2, 3, "loop \"wind\":".toList⟩]
  have hsource : Line.ofSource source.toList = before ++ h :: rest := by decide +kernel
  obtain ⟨d, hd⟩ := Line.readHeader_eq_error
    (show (h.readHeader (Reader.statementHeader (α := Float))).toBool = false by decide +kernel)
  refine ⟨before, h, rest, d, hsource, by decide +kernel, hd, by decide +kernel, ?_⟩
  decide +kernel

/-- A header without clip is dropped, but it ends the group. -/
theorem readScript_dropped_endsGroup :
    let source := "group g:\n  loop \"a\":\nloop rain:\n  loop \"b\":\n"
    ∃ before h rest d, Line.ofSource source.toList = before ++ h :: rest ∧ h.kind = .statement ∧
      (h.readHeader Reader.statementHeader : Except (Diagnostic Float) _) = .error d ∧
      (readScript false (Line.blank (h :: h.body rest) source) : Findings Float).items ≠
        (readScript false source).items := by
  intro source
  let h : Line := ⟨3, 0, 1, "loop rain:".toList⟩
  let before : List Line :=
    [⟨1, 0, 1, "group g:".toList⟩, ⟨2, 2, 3, "loop \"a\":".toList⟩]
  let rest : List Line := [⟨4, 2, 3, "loop \"b\":".toList⟩]
  have hsource : Line.ofSource source.toList = before ++ h :: rest := by decide +kernel
  obtain ⟨d, hd⟩ := Line.readHeader_eq_error
    (show (h.readHeader (Reader.statementHeader (α := Float))).toBool = false by decide +kernel)
  refine ⟨before, h, rest, d, hsource, by decide +kernel, hd, fun heq => ?_⟩
  have hlength : (readScript false (Line.blank (h :: h.body rest) source) :
      Findings Float).items.length ≠ (readScript false source : Findings Float).items.length := by
    decide +kernel
  exact hlength (congrArg List.length heq)

end Soundscape
