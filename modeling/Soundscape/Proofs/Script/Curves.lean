import Mathlib.Data.List.Nodup
import Soundscape.Proofs.Script.Strict

/-!
# Scripts that name unknown curves

Under strict rules a script gives the diagnostics that it gives otherwise, with one more for each
line that is refused for its curve alone (`Context.stricter_run`).  It gives the items of the script
without these lines, unless one of them ends the block of a group that the next line would have gone
on with (`readScript_strict`).
-/

namespace Soundscape

variable {α : Type} [Scalar α]

/-- The lines that are refused for their curve alone, among lines that are read in a context. -/
def Context.misnamed (c : Context α) : List Line → List Line
  | [] => []
  | l :: ls =>
    ((c.unknownEase? l).map fun _ => l).toList ++ (step false c l).1.misnamed ls

/-- The lines of a script that are refused for their curve alone. -/
def Line.misnamed (α : Type) [Scalar α] (source : String) : List Line :=
  Context.misnamed (.top .none : Context α) (ofSource source.toList)

/-! ## Diagnostics -/

/-- The diagnostics under strict rules, beside some lines and the diagnostics without the rules:
there is one more about an unknown curve for each of the lines, and each of the others is the same
or is about an unknown curve on the same line. -/
inductive Diagnostic.Stricter :
    List Line → List (Diagnostic α) → List (Diagnostic α) → Prop where
  | nil : Stricter [] [] []
  | kept {us : List Line} {d d' : Diagnostic α} {ds ds' : List (Diagnostic α)} : Instead d d' →
      Stricter us ds ds' → Stricter us (d :: ds) (d' :: ds')
  | more {u : Line} {us : List Line} {ds ds' : List (Diagnostic α)} {name : String} {column : Nat} :
      Ease.ofName? name = none → Stricter us ds ds' →
      Stricter (u :: us) ds (⟨.unknownEase name, u.number, column⟩ :: ds')

namespace Diagnostic.Stricter

variable {us vs : List Line} {ds es ds' es' : List (Diagnostic α)}

omit [Scalar α] in
theorem of_instead (h : List.Forall₂ Instead ds ds') : Stricter [] ds ds' := by
  induction h with
  | nil => exact .nil
  | cons hd _ ih => exact .kept hd ih

omit [Scalar α] in
theorem refl (ds : List (Diagnostic α)) : Stricter [] ds ds :=
  of_instead (List.forall₂_same.mpr fun d _ => .same d)

omit [Scalar α] in
theorem append (h : Stricter us ds ds') (h' : Stricter vs es es') :
    Stricter (us ++ vs) (ds ++ es) (ds' ++ es') := by
  induction h with
  | nil => exact h'
  | kept hd _ ih => exact .kept hd ih
  | more hname _ ih => exact .more hname ih

end Diagnostic.Stricter

namespace Context

theorem stricter_step {c s : Context α} (h : c.bare = s.bare) (l : Line) :
    (step false c l).1.bare = (step true s l).1.bare ∧
      Diagnostic.Stricter ((c.unknownEase? l).map fun _ => l).toList
        (step false c l).2.diagnostics (step true s l).2.diagnostics := by
  obtain ⟨hbare, hds⟩ : BareAlike (step true c l) (step true s l) := by
    have hc := step_bare true c l
    have hs := step_bare true s l
    rw [h] at hc
    exact ⟨hc.1.symm.trans hs.1, hc.2.symm.trans hs.2⟩
  rw [← hbare, ← hds]
  cases hname : c.unknownEase? l with
  | none =>
    obtain ⟨hcontext, -, hinstead⟩ := step_strict_of_known hname
    rw [hcontext]
    exact ⟨rfl, .of_instead hinstead⟩
  | some name =>
    obtain ⟨x, column, -, hnone, hstep, hcontext, hnothing⟩ := step_strict_of_unknown hname
    rw [hstep, hcontext, hnothing]
    exact ⟨rfl, .more hnone .nil⟩

theorem stricter_run {c s : Context α} (h : c.bare = s.bare) (ls : List Line) :
    (run false c ls).1.bare = (run true s ls).1.bare ∧
      Diagnostic.Stricter (c.misnamed ls) (run false c ls).2.diagnostics
        (run true s ls).2.diagnostics := by
  induction ls generalizing c s with
  | nil => exact ⟨h, .nil⟩
  | cons l ls ih =>
    obtain ⟨hstep, hds⟩ := stricter_step h l
    obtain ⟨hrun, hes⟩ := ih hstep
    exact ⟨hrun, hds.append hes⟩

end Context

theorem stricter_readScript (source : String) :
    Diagnostic.Stricter (α := α) (Line.misnamed α source)
      (readScript false source).diagnostics (readScript true source).diagnostics := by
  obtain ⟨hbare, hds⟩ :=
    Context.stricter_run (c := .top .none) (s := (.top .none : Context α)) rfl
      (Line.ofSource source.toList)
  have hclose := Context.close_bare
    (Context.run false (.top .none : Context α) (Line.ofSource source.toList)).1
  rw [hbare, Context.close_bare] at hclose
  rw [Line.misnamed, ← List.append_nil (Context.misnamed _ _)]
  exact hds.append (hclose ▸ .refl _)

/-! ## Items -/

namespace Context

/-- The marked lines are those that are refused for their curve alone. -/
def Marks (marked : Line → Bool) : Context α → List Line → Prop
  | _, [] => True
  | c, l :: ls => marked l = (c.unknownEase? l).isSome ∧ Marks marked (step false c l).1 ls

/-- A marked line ends what the next line that is not marked would have gone on with. -/
def Interrupts (marked : Line → Bool) : Context α → List Line → Prop
  | _, [] => False
  | c, l :: ls =>
    (marked l ∧ ∃ m ∈ (ls.filter (!marked ·)).head?, c.Interrupted l m) ∨
      Interrupts marked (step false c l).1 ls

instance decidableInterrupts (marked : Line → Bool) :
    (c : Context α) → (ls : List Line) → Decidable (c.Interrupts marked ls)
  | _, [] => inferInstanceAs (Decidable False)
  | c, l :: ls =>
    have := decidableInterrupts marked (step false c l).1 ls
    inferInstanceAs (Decidable (_ ∨ _))

/-- What is open under strict rules, and what is open without the marked lines: the same, or the
marked lines have ended a block that the next line does not go on with. -/
inductive Behind (marked : Line → Bool) (ls : List Line) : Context α → Context α → Prop where
  | same (c : Context α) : Behind marked ls c c
  | ended {g : OpenGroup α} {b : Body α} : (∀ m ∈ (ls.filter (!marked ·)).head?, ¬ b.Takes m) →
      Behind marked ls (.inGroup (g.adopt b.finished) .none) (.inGroup g b)

variable {marked marked' : Line → Bool} {c s t : Context α} {l m : Line} {ls : List Line}

omit [Scalar α] in
theorem interrupted_bare : c.bare.Interrupted l m ↔ c.Interrupted l m := by
  unfold Interrupted bare
  cases c with
  | top b => cases b <;> exact Iff.rfl
  | inGroup g b =>
    dsimp only
    rw [Body.takes_bare, Body.takes_bare]
    exact Iff.rfl
  | refusedGroup i => exact Iff.rfl

omit [Scalar α] in
theorem Behind.after_marked {x : Slot α} (h : Behind marked (l :: ls) s t) (hm : marked l)
    (hx : s.slot? l = some x)
    (hgoes : ∀ m ∈ (ls.filter (!marked ·)).head?, ¬ s.Interrupted l m) :
    Behind marked ls (x.after x.props) t := by
  have hfilter : (l :: ls).filter (!marked ·) = ls.filter (!marked ·) :=
    List.filter_cons_of_neg (by simp [hm])
  cases h with
  | same =>
    obtain hafter | ⟨g, b, rfl, hb, hafter⟩ := after_props hx
    · rw [hafter]
      exact .same s
    · rw [hafter]
      exact .ended fun m hm ht => hgoes m hm ⟨hb, .inl ht⟩
  | @ended g b hb =>
    rw [hfilter] at hb
    obtain hafter | ⟨_, _, ⟨⟩, -, hafter⟩ := after_props hx
    · rw [hafter]
      exact .ended hb
    · rw [hafter]
      show Behind marked ls (.inGroup ((g.adopt b.finished).adopt none) .none) _
      rw [OpenGroup.adopt_none]
      exact .ended hb

theorem Behind.step_of_not_marked (h : Behind marked (l :: ls) s t) (hm : marked l = false) :
    step false t l = step false s l := by
  cases h with
  | same => rfl
  | @ended g b hb =>
    rw [List.filter_cons_of_pos (by simp [hm])] at hb
    rw [step_inGroup_of_not_takes (hb l rfl), step_inGroup]

theorem items_reads_strict (hbare : c.bare = s.bare) (hmarks : c.Marks marked ls)
    (hgoes : ¬ c.Interrupts marked ls) (h : Behind marked ls s t) :
    (reads true s ls).items = (reads false t (ls.filter (!marked ·))).items := by
  induction ls generalizing c s t with
  | nil =>
    cases h with
    | same => rfl
    | @ended g b _ =>
      have hnil : ∀ m ∈ ([] : List Line).head?, ¬ b.Takes m := nofun
      exact congrArg Findings.items (reads_inGroup_of_not_takes hnil).symm
  | cons l ls ih =>
    obtain ⟨hl, hmarks⟩ := hmarks
    obtain ⟨hnow, hlater⟩ := not_or.mp hgoes
    have hstep := (stricter_step hbare l).1
    have hease : s.unknownEase? l = c.unknownEase? l := by
      rw [← unknownEase?_bare s, ← hbare, unknownEase?_bare]
    rw [reads_cons]
    cases hm : marked l with
    | true =>
      obtain ⟨name, hname⟩ := Option.isSome_iff_exists.mp (hl.symm.trans hm)
      obtain ⟨x, column, hx, -, hstrict, -⟩ := step_strict_of_unknown (hease.trans hname)
      rw [List.filter_cons_of_neg (by simp [hm])]
      rw [hstrict] at hstep ⊢
      refine ih hstep hmarks hlater (h.after_marked hm hx fun m hnext hi => hnow ⟨hm, m, hnext, ?_⟩)
      rw [← interrupted_bare, hbare, interrupted_bare]
      exact hi
    | false =>
      have hknown : s.unknownEase? l = none := by
        rw [hease]
        exact Option.isNone_iff_eq_none.mp (Option.isSome_eq_false_iff.mp (hl.symm.trans hm))
      obtain ⟨hcontext, hitems, -⟩ := step_strict_of_known hknown
      rw [List.filter_cons_of_pos (by simp [hm]), reads_cons, h.step_of_not_marked hm]
      rw [Findings.items_append, Findings.items_append, hitems]
      rw [hcontext] at hstep ⊢
      rw [ih hstep hmarks hlater (.same _)]

theorem misnamed_sublist (c : Context α) (ls : List Line) : (c.misnamed ls).Sublist ls := by
  induction ls generalizing c with
  | nil => exact .slnil
  | cons l ls ih =>
    unfold misnamed
    cases c.unknownEase? l with
    | none => exact (ih _).cons l
    | some _ => exact (ih _).cons_cons l

theorem Marks.congr (h : c.Marks marked ls) (hm : ∀ l ∈ ls, marked' l = marked l) :
    c.Marks marked' ls := by
  induction ls generalizing c with
  | nil => trivial
  | cons l ls ih =>
    obtain ⟨hl, hls⟩ := List.forall_mem_cons.mp hm
    exact ⟨hl.trans h.1, ih h.2 hls⟩

theorem marks_misnamed {ls : List Line} (hls : ls.Nodup) (c : Context α) :
    c.Marks (· ∈ c.misnamed ls) ls := by
  induction ls generalizing c with
  | nil => trivial
  | cons l ls ih =>
    obtain ⟨hl, hls⟩ := List.nodup_cons.mp hls
    have hnot : l ∉ (step false c l).1.misnamed ls :=
      fun h => hl ((misnamed_sublist _ ls).subset h)
    refine ⟨?_, (ih hls _).congr fun m hm => ?_⟩
    · cases hc : c.unknownEase? l <;> simp [misnamed, hc, hnot]
    · have hne : m ≠ l := fun h => hl (h ▸ hm)
      cases hc : c.unknownEase? l <;> simp [misnamed, hc, hne]

end Context

theorem Line.ofSource_blank_of_subset {us : List Line} {source : String}
    (h : us ⊆ ofSource source.toList) :
    ofSource (blank us source).toList =
      (ofSource source.toList).filter fun l => !decide (l ∈ us) := by
  have hnumbers : ((ofSource source.toList).map Line.number).Nodup :=
    List.pairwise_map.mpr ((pairwise_ofRaws 1 _).imp Nat.ne_of_lt)
  rw [ofSource_blank_eq_filter]
  refine List.filter_congr fun l hl => congrArg not ?_
  rw [Bool.eq_iff_iff, List.any_eq_true, decide_eq_true_iff]
  constructor
  · rintro ⟨u, hu, hn⟩
    exact List.inj_on_of_nodup_map hnumbers (h hu) hl (beq_iff_eq.mp hn) ▸ hu
  · exact fun hu => ⟨l, hu, beq_self_eq_true _⟩

/-- Strict rules only remove.  The items are those of the script without the lines that are refused
for their curve alone, unless one of these ends the block of a group that the next of the other
lines would have gone on with; and the diagnostics are those without the rules, on the same lines,
with an error more for each of these lines. -/
theorem readScript_strict (source : String) :
    (¬ Context.Interrupts (· ∈ Line.misnamed α source) (.top .none : Context α)
        (Line.ofSource source.toList) →
      (readScript true source : Findings α).items =
        (readScript false (Line.blank (Line.misnamed α source) source) : Findings α).items) ∧
    Diagnostic.Stricter (Line.misnamed α source)
      (readScript false source : Findings α).diagnostics (readScript true source).diagnostics := by
  refine ⟨fun hgoes => ?_, stricter_readScript source⟩
  let ls := Line.ofSource source.toList
  let us := Line.misnamed α source
  have hnodup : ls.Nodup := (Line.pairwise_ofRaws 1 _).imp fun h e => Nat.ne_of_lt h (congrArg _ e)
  have hblank : Line.ofSource (Line.blank us source).toList = ls.filter fun l => !decide (l ∈ us) :=
    Line.ofSource_blank_of_subset (Context.misnamed_sublist _ ls).subset
  show (Context.reads true (.top .none) ls).items =
    (Context.reads false (.top .none) (Line.ofSource (Line.blank us source).toList)).items
  rw [hblank]
  exact Context.items_reads_strict rfl (Context.marks_misnamed hnodup _) hgoes (.same _)

/-- A group and a statement in it each name an unknown curve, and a call is wrong twice. -/
theorem readScript_strict_group :
    let source := "group g:\n  volume = goto(0 and 1 as nosuch in 1)\n" ++
      "  loop \"a\":\n    volume = 0.5\n    volume = goto(0 and 1 as nosuch in 1)\n" ++
      "    pitch = goto(0 and 1 as nosuch in)\n"
    let us := Line.misnamed Float source
    us.map Line.number = [2, 5] ∧
      ¬ Context.Interrupts (· ∈ us) (.top .none : Context Float) (Line.ofSource source.toList) ∧
      (readScript true source : Findings Float).items =
        (readScript false (Line.blank us source) : Findings Float).items ∧
      Diagnostic.Stricter us (readScript false source : Findings Float).diagnostics
        (readScript true source).diagnostics := by
  intro source us
  have hus : us.map Line.number = [2, 5] := by decide +kernel
  have hgoes : ¬ Context.Interrupts (· ∈ us) (.top .none : Context Float)
      (Line.ofSource source.toList) := by decide +kernel
  obtain ⟨hitems, hds⟩ := readScript_strict (α := Float) source
  exact ⟨hus, hgoes, hitems hgoes, hds⟩

/-- A line directly in a group names an unknown curve, but it ends the statement before it, so the
line after it is one of the group. -/
theorem readScript_strict_endsBody :
    let source := "group g:\n  loop \"a\":\n  volume = goto(0 and 1 as nosuch in 1)\n" ++
      "    overlap = t\n"
    let us := Line.misnamed Float source
    us.map Line.number = [3] ∧
      (readScript true source : Findings Float).items ≠
        (readScript false (Line.blank us source) : Findings Float).items := by
  decide +kernel

end Soundscape
