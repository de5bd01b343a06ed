import Soundscape.Proofs.Voice.Sketch

/-!
# What a voice draws

Whatever happens to a voice, it keeps the interpolations that it was opened with
(`Voice.interpolations_next`, `Voice.interpolations_of_restart`).  Where all their quantities can be
drawn, no step of time and no restart of the voice aborts the program.
-/

namespace Soundscape

variable {α : Type} [Scalar α]

/-! ### Runs -/

namespace Playhead

variable {p : Playhead α}

theorem aborts_settleFate (h : p.spec.fate = .ok ()) (turns : Nat) (s : Source) :
    (settleFate turns p s).aborts = false := by
  induction turns generalizing p s with
  | zero => rfl
  | succ turns ih =>
    have hspec := p.spec_turn s
    unfold settleFate
    generalize p.turn s = x at hspec ⊢
    obtain ⟨q | q | q, u⟩ := x
    · rfl
    · rfl
    · have hq : q.spec = p.spec := hspec
      exact Fate.aborts_seq (Fate.aborts_of_eq_ok h) (ih (hq ▸ h) u)

theorem aborts_advanceFate (h : p.spec.fate = .ok ()) (dt : α) (s : Source) :
    (p.advanceFate dt s).aborts = false := by
  unfold advanceFate
  split
  · exact aborts_settleFate (p := { p with time := p.time + dt }) h _ s
  · rfl

end Playhead

/-! ### Levels -/

namespace Levels

variable {l : Levels α}

/-- All quantities of the interpolations can be drawn. -/
def Drawable (l : Levels α) : Prop := startFate l.interpolations.1 l.interpolations.2 = .ok ()

theorem Drawable.congr {m : Levels α} (h : l.Drawable) (he : m.interpolations = l.interpolations) :
    m.Drawable := by
  unfold Drawable
  rw [he]
  exact h

theorem Drawable.rewindFate (h : l.Drawable) : l.rewindFate = .ok () := by
  obtain ⟨volume, pitch, volumeRun, pitchRun⟩ := l
  unfold Levels.rewindFate
  cases volumeRun with
  | none => rfl
  | some p =>
    dsimp only
    rw [Option.filter_some]
    split
    · exact (Fate.seq_eq_ok.mp h).1
    · rfl

theorem aborts_axisFate {run : Option (Playhead α)}
    (h : (run.map Playhead.spec).forM Interpolation.fate = .ok ()) (dt : α) (s : Source) :
    (axisFate run dt s).aborts = false := by
  cases run with
  | none => rfl
  | some p =>
    unfold axisFate
    dsimp only
    split
    · exact Playhead.aborts_advanceFate h dt s
    · rfl

variable [Easing α]

theorem Drawable.advanceFate (h : l.Drawable) (dt : α) (s : Source) :
    (l.advanceFate dt s).aborts = false := by
  obtain ⟨hvolume, hpitch⟩ := Fate.seq_eq_ok.mp h
  exact Fate.aborts_seq (aborts_axisFate hvolume dt s) (aborts_axisFate hpitch dt _)

end Levels

/-! ### Voices -/

namespace Voice

theorem interpolations_fadeNow (f : PendingFade α) (v : Voice α) :
    (v.fadeNow f).levels.interpolations = v.levels.interpolations := by
  unfold fadeNow beginFadeOut
  split <;> rfl

variable [Easing α] {v : Voice α}

theorem interpolations_stepped (dt : α) (v : Voice α) :
    (v.stepped dt).levels.interpolations = v.levels.interpolations := by
  rw [← v.interpolations_shape dt]
  obtain ⟨-, hv, -⟩ | ⟨-, -, hv, -⟩ | ⟨_, -, -, hv, -⟩ := v.stepped_cases dt <;> rw [hv]

theorem interpolations_next (dt : α) (v : Voice α) :
    (v.next dt).levels.interpolations = v.levels.interpolations := by
  obtain ⟨-, hn, -⟩ | ⟨-, -, hn, -⟩ | ⟨f, _, _, -, -, -, -, -, hn, -⟩ | ⟨f, -, -, -, hn, -⟩ :=
    v.next_cases dt <;> rw [hn]
  · rw [interpolations_stepped]
  · rw [interpolations_stepped, interpolations_fadeNow, interpolations_stepped]
  · rw [interpolations_stepped]
    rfl

theorem interpolations_of_restart {β : Type} [AudioBackend α β] {clip : String} {baseVolume : α}
    {basePitch : Option α} {fadeIn : α} {v' : Voice α} {b b' : β}
    (h : v.restart clip baseVolume basePitch fadeIn b = (.ok (), v', b')) :
    v'.levels.interpolations = v.levels.interpolations := by
  rw [restart_eq] at h
  split at h
  · cases h
  · split at h
    · cases h
    · cases h
      rw [interpolations_stepped]
      exact Levels.interpolations_rewindGoto ..

theorem aborts_advanceFate (h : v.levels.Drawable) (dt : α) :
    (v.advanceFate dt).aborts = false := by
  unfold advanceFate
  split
  · rfl
  · dsimp only
    split
    · exact h.advanceFate ..
    · split
      · refine Fate.aborts_seq (h.advanceFate ..) ?_
        exact (h.congr (v.interpolations_shape _)).advanceFate ..
      · exact h.advanceFate ..

theorem aborts_restartFate {β : Type} [AudioBackend α β] (h : v.levels.Drawable) (clip : String)
    (baseVolume : α) (basePitch : Option α) (fadeIn : α) (b : β) {andThen : Fate}
    (hthen : andThen.aborts = false) :
    (v.restartFate clip baseVolume basePitch fadeIn b andThen).aborts = false := by
  unfold restartFate
  split
  · rfl
  · refine Fate.aborts_seq (Fate.aborts_seq (Fate.aborts_of_eq_ok h.rewindFate) ?_) hthen
    exact (h.congr (v.levels.interpolations_rewindGoto v.source)).advanceFate ..

end Voice

end Soundscape
