import Soundscape.Script.Document

/-!
# What is written for a group

The properties of a group come from its own property lines alone.  So a property that the empty ones
have and that no such line breaks holds of all groups of a script
(`Properties.KeptInGroups.readScript`).
-/

namespace Soundscape

variable {α : Type} {Q : Properties α → Prop}

/-- A predicate that holds of a group's properties from the start and after each of its lines. -/
structure Properties.KeptInGroups [Scalar α] (Q : Properties α → Prop) : Prop where
  empty : Q {}
  setting {strict : Bool} {l : Line} {s : Setting α} {p : Properties α} :
    Setting.read strict .group l = .ok s → Q p → Q (p.apply s)

/-- The properties of the open group satisfy a predicate. -/
def Context.GroupProps (Q : Properties α → Prop) : Context α → Prop
  | .inGroup g _ => Q g.group.props
  | _ => True

def Findings.GroupProps (Q : Properties α → Prop) (f : Findings α) : Prop :=
  ∀ g, .group g ∈ f.items → Q g.props

namespace Findings.GroupProps

theorem append {f f' : Findings α} (h : f.GroupProps Q) (h' : f'.GroupProps Q) :
    (f ++ f').GroupProps Q := fun g hg => (List.mem_append.mp hg).elim (h g) (h' g)

theorem only (ds : List (Diagnostic α)) : (Findings.only ds).GroupProps Q :=
  fun _ hg => absurd hg List.not_mem_nil

theorem finished (b : Body α) (ds : List (Diagnostic α)) :
    Findings.GroupProps Q ⟨b.finished.toList.map .statement, ds⟩ := by
  intro g hg
  obtain ⟨d, -, hd⟩ := List.mem_map.mp hg
  cases hd

theorem close {g : OpenGroup α} (h : Q g.group.props) : g.close.GroupProps Q := by
  intro g' hg'
  cases List.mem_singleton.mp hg'
  exact h

end Findings.GroupProps

namespace Properties.KeptInGroups

variable [Scalar α]

theorem outside (hQ : KeptInGroups Q) (l : Line) :
    (Context.outside l).1.GroupProps Q ∧ (Context.outside l).2.GroupProps Q := by
  unfold Context.outside
  cases l.kind with
  | groupStart =>
    dsimp only
    cases l.readHeader (Reader.groupHeader (α := α)) with
    | error d => exact ⟨trivial, .only _⟩
    | ok name => exact ⟨hQ.empty, .only []⟩
  | _ => exact ⟨trivial, .only _⟩

theorem inside (hQ : KeptInGroups Q) (strict : Bool) {g : OpenGroup α} (hg : Q g.group.props)
    (l : Line) :
    (Context.inside strict g l).1.GroupProps Q ∧ (Context.inside strict g l).2.GroupProps Q := by
  obtain ⟨hc, hf⟩ := hQ.outside l
  unfold Context.inside
  split
  · exact ⟨trivial, .close hg⟩
  · split
    · exact ⟨hc, (Findings.GroupProps.close hg).append hf⟩
    · split
      · exact ⟨hg, .only _⟩
      · refine ⟨?_, .only _⟩
        show Q (l.setting strict .group g.group.props).1
        unfold Line.setting
        split
        · next hs => exact hQ.setting hs hg
        · exact hg
      · exact ⟨hg, .only _⟩
      · exact ⟨hg, .only _⟩

theorem step (hQ : KeptInGroups Q) (strict : Bool) {c : Context α} (hc : c.GroupProps Q)
    (l : Line) :
    (Context.step strict c l).1.GroupProps Q ∧ (Context.step strict c l).2.GroupProps Q := by
  obtain ⟨hout, hfound⟩ := hQ.outside l
  cases c with
  | top b =>
    unfold Context.step
    dsimp only
    split
    · exact ⟨trivial, .only _⟩
    · exact ⟨hout, (Findings.GroupProps.finished b []).append hfound⟩
  | inGroup g b =>
    unfold Context.step
    dsimp only
    split
    · exact ⟨hc, .only _⟩
    · exact hQ.inside strict (g := g.adopt b.finished) hc l
  | refusedGroup indent =>
    unfold Context.step
    dsimp only
    split
    · exact ⟨trivial, .only []⟩
    · split
      · exact ⟨trivial, .only []⟩
      · exact ⟨hout, hfound⟩

theorem run (hQ : KeptInGroups Q) (strict : Bool) {c : Context α} (hc : c.GroupProps Q)
    (ls : List Line) :
    (Context.run strict c ls).1.GroupProps Q ∧ (Context.run strict c ls).2.GroupProps Q := by
  induction ls generalizing c with
  | nil => exact ⟨hc, .only []⟩
  | cons l ls ih =>
    obtain ⟨hl, hf⟩ := hQ.step strict hc l
    obtain ⟨hr, hg⟩ := ih hl
    exact ⟨hr, hf.append hg⟩

theorem readScript (hQ : KeptInGroups Q) (strict : Bool) (source : String) :
    (readScript strict source).GroupProps Q := by
  have hc : (Context.top .none : Context α).GroupProps Q := trivial
  obtain ⟨hr, hf⟩ := hQ.run strict hc (Line.ofSource source.toList)
  refine hf.append ?_
  rcases hx : (Context.run strict (Context.top .none : Context α) (Line.ofSource source.toList)).1
    with b | ⟨g, b⟩ | indent <;> rw [hx] at hr
  · exact .finished b []
  · exact .close (g := g.adopt b.finished) hr
  · exact .only []

end Properties.KeptInGroups

end Soundscape
