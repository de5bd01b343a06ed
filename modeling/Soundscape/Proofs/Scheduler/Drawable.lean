import Soundscape.Proofs.Player.Alone
import Soundscape.Proofs.Scheduler.Fates
import Soundscape.Proofs.Voice.Drawable

/-!
# What aborts a playback

A playback aborts only where a statement asks for a draw that cannot be made: as long as all
quantities of the statements that are spawned can be drawn, no run of a scheduler aborts
(`World.aborts_runFate`).

`Scheduler.Drawable` is what holds after each event.  It comes down to the players, which keep their
statements, and to the voices, which keep the interpolations that they were opened with.
-/

namespace Soundscape

variable {α : Type}

/-! ### Statements -/

/-- The quantities that are drawn for a placement; those that span an area are not. -/
def Movement.drawn : Movement α → List (Quantity α)
  | .still => []
  | .walk _ _ speed => [speed]
  | .fly _ _ _ speed => [speed]
  | .fixed x y z => [x, y, z]

def Interpolation.drawn (i : Interpolation α) : List (Quantity α) := [i.low, i.high, i.duration]

/-- The quantities that are drawn for the instances of a statement. -/
def Statement.drawn (s : Statement α) : List (Quantity α) :=
  [s.startsAt, s.duration, s.every, s.volume, s.pitch, s.fadeIn, s.fadeOut] ++ s.movement.drawn ++
    (s.volumeInterpolation.toList ++ s.pitchInterpolation.toList).flatMap Interpolation.drawn

variable [Scalar α]

/-- All that is drawn for the instances of a statement can be drawn. -/
def Statement.Drawable (s : Statement α) : Prop := ∀ q ∈ s.drawn, q.aborts = false

theorem Interpolation.fate_eq_ok {i : Interpolation α} :
    i.fate = .ok () ↔ ∀ q ∈ i.drawn, q.aborts = false := by
  simp [fate, drawn, Quantity.fate_eq_ok]

theorem Interpolation.forM_fate_eq_ok {i : Option (Interpolation α)} :
    i.forM fate = .ok () ↔ ∀ q ∈ i.toList.flatMap drawn, q.aborts = false := by
  cases i with
  | none => exact iff_of_true rfl nofun
  | some i => simpa using fate_eq_ok (i := i)

theorem Placement.fate_eq_ok {m : Movement α} :
    fate m = .ok () ↔ ∀ q ∈ m.drawn, q.aborts = false := by
  cases m with
  | still => exact iff_of_true rfl nofun
  | walk x z speed => simp [fate, Movement.drawn, Quantity.fate_eq_ok]
  | fly x y z speed => simp [fate, Movement.drawn, Quantity.fate_eq_ok]
  | fixed x y z => simp [fate, Movement.drawn, Quantity.fate_eq_ok]

namespace Statement.Drawable

variable {s : Statement α}

theorem fate_eq_ok (h : s.Drawable) {q : Quantity α} (hq : q ∈ s.drawn) : q.fate = .ok () :=
  Quantity.fate_eq_ok.mpr (h q hq)

theorem newFate (h : s.Drawable) : Player.newFate s = .ok () := h.fate_eq_ok (by simp [drawn])

theorem startFate (h : s.Drawable) :
    Levels.startFate s.volumeInterpolation s.pitchInterpolation = .ok () := by
  refine Fate.seq_eq_ok.mpr ⟨?_, ?_⟩
  · exact Interpolation.forM_fate_eq_ok.mpr fun q hq => h q (by simp [drawn, hq])
  · exact Interpolation.forM_fate_eq_ok.mpr fun q hq => h q (by simp [drawn, hq])

theorem openingFate (h : s.Drawable) : Player.openingFate s = .ok () := by
  have hplacement : Placement.fate s.movement = .ok () :=
    Placement.fate_eq_ok.mpr fun q hq => h q (by simp [drawn, hq])
  have hvolume := h.fate_eq_ok (q := s.volume) (by simp [drawn])
  have hpitch := h.fate_eq_ok (q := s.pitch) (by simp [drawn])
  have hfade := h.fate_eq_ok (q := s.fadeIn) (by simp [drawn])
  simp [Player.openingFate, Player.levelsFate, hplacement, hvolume, hpitch, hfade, h.startFate]

theorem durationFate (h : s.Drawable) : Player.durationFate s = .ok () := by
  have hduration := h.fate_eq_ok (q := s.duration) (by simp [drawn])
  have hfade := h.fate_eq_ok (q := s.fadeOut) (by simp [drawn])
  unfold Player.durationFate
  split
  · exact Fate.seq_eq_ok.mpr ⟨hduration, hfade⟩
  · rfl

theorem cycleFate (h : s.Drawable) : Player.cycleFate s = .ok () :=
  Fate.seq_eq_ok.mpr ⟨h.fate_eq_ok (by simp [drawn]), h.fate_eq_ok (by simp [drawn])⟩

theorem drawRestartFate (h : s.Drawable) (movesPitch : Bool) :
    Player.drawRestartFate s movesPitch = .ok () := by
  have hpitch := h.fate_eq_ok (q := s.pitch) (by simp [drawn])
  have hvolume := h.fate_eq_ok (q := s.volume) (by simp [drawn])
  have hfade := h.fate_eq_ok (q := s.fadeIn) (by simp [drawn])
  cases movesPitch
  · simp [Player.drawRestartFate, hpitch, hvolume, hfade]
  · simp [Player.drawRestartFate, hvolume, hfade]

end Statement.Drawable

/-! ### Players -/

namespace Player

/-- All that the player draws, and the runs of its voice, can be drawn. -/
structure Drawable (p : Player α) : Prop where
  statement : p.statement.Drawable
  voice : ∀ v ∈ p.voice, v.levels.Drawable

variable {s : Statement α} {p : Player α} {β : Type}

theorem drawable_new (id : Nat) (h : s.Drawable) (source : Source) : (new id s source).Drawable :=
  ⟨h, fun v hv => absurd hv (Option.not_mem_none v)⟩

theorem MayOpen.drawable {o : Opening α} (ho : MayOpen s o) (h : s.Drawable) :
    o.2.1.Drawable := by
  obtain ⟨source, rfl⟩ := ho
  unfold Levels.Drawable
  rw [show (drawOpening s source).1.2.1.interpolations = _ from Levels.interpolations_start ..]
  exact h.startFate

variable [Easing α]

theorem Drawable.having_next (h : p.Drawable) (dt : α) :
    (p.having (p.voice.map (Voice.next dt))).Drawable := by
  refine ⟨h.statement, fun v hv => ?_⟩
  obtain ⟨w, hw, rfl⟩ := Option.map_eq_some_iff.mp hv
  exact (h.voice w hw).congr (w.interpolations_next dt)

theorem Progress.aborts_spendFate {x : Progress α β}
    (hv : ∀ v ∈ x.player.voice.toList ++ x.fresh, v.levels.Drawable) (dt : α) :
    (x.spendFate dt).aborts = false :=
  Fate.aborts_forM fun v hmem => Voice.aborts_advanceFate (hv v hmem) dt

variable [AudioBackend α β]

theorem alone_drawable (h : s.Drawable) :
    Alone s fun vs (_ : β) => ∀ v ∈ vs, v.levels.Drawable := by
  refine .each (fun dt hv => ?_) (fun _ _ _ hv => hv) (fun k clip ho => ?_) (fun hr hv => ?_)
  · exact hv.congr (Voice.interpolations_next ..)
  · exact (ho.drawable h).congr (Voice.interpolations_stepped ..)
  · exact hv.congr (Voice.interpolations_of_restart hr)

/-! ### Firing -/

theorem aborts_openFate (h : p.statement.Drawable) (b : β) {andThen : Fate}
    (hthen : andThen = .ok ()) : (p.openFate b andThen).aborts = false := by
  rcases ha : AudioBackend.acquire b p.draws.1.1 with ⟨e | k, b'⟩
  · exact Fate.aborts_of_eq_ok (openFate_of_error ha andThen)
  · rw [openFate_of_ok ha]
    refine Fate.aborts_seq (Fate.aborts_of_eq_ok h.openingFate) ?_
    refine Fate.aborts_seq ?_ (Fate.aborts_of_eq_ok hthen)
    exact (p.mayOpen_draws.drawable h).advanceFate ..

theorem Drawable.restartHeldFate (h : p.Drawable) (b : β) :
    (p.restartHeldFate b).aborts = false := by
  unfold Player.restartHeldFate
  split
  · rfl
  · next v hv =>
    refine Fate.aborts_seq (Fate.aborts_of_eq_ok (h.statement.drawRestartFate _)) ?_
    exact Voice.aborts_restartFate (h.voice v hv) _ _ _ _ _
      (Fate.aborts_of_eq_ok h.statement.cycleFate)

theorem Drawable.fireFate (h : p.Drawable) (b : β) : (p.fireFate b).aborts = false := by
  have hopen {andThen : Fate} (ha : andThen = .ok ()) := aborts_openFate h.statement b ha
  unfold Player.fireFate
  dsimp only
  split
  · exact hopen h.statement.durationFate
  · split
    · exact hopen (h.statement.fate_eq_ok (by simp [Statement.drawn]))
    · split
      · exact hopen h.statement.cycleFate
      · split
        · exact hopen h.statement.cycleFate
        · exact h.restartHeldFate b

/-! ### Steps of time -/

theorem Progress.aborts_turnFate {x : Progress α β} (h : x.player.statement.Drawable)
    (hv : ∀ v ∈ x.player.voice.toList ++ x.fresh, v.levels.Drawable) :
    x.turnFate.aborts = false := by
  have hp : x.player.Drawable :=
    ⟨h, fun v hmem => hv v (List.mem_append_left _ (Option.mem_toList.mpr hmem))⟩
  unfold turnFate
  split
  · exact aborts_spendFate hv _
  · split
    · exact aborts_spendFate hv _
    · refine Fate.aborts_seq (aborts_spendFate hv _) (Drawable.fireFate ?_ _)
      rw [player_spend]
      exact hp.having_next _

theorem Progress.aborts_runFate {i : Instance α} (h : i.statement.Drawable) (fallback : α)
    (turns : Nat) {x : Progress α β} (hi : x.player.identity = i) (hc : x.player.Coherent)
    (hv : ∀ v ∈ x.player.voice.toList ++ x.fresh, v.levels.Drawable) :
    (x.runFate fallback turns).aborts = false := by
  induction turns generalizing x with
  | zero => rfl
  | succ turns ih =>
    have hs : x.player.statement.Drawable := statement_of_identity hi ▸ h
    obtain ⟨hi', hc', hv'⟩ := (alone_drawable h).turn hi hc hv fallback
    unfold runFate
    refine Fate.aborts_seq (aborts_turnFate hs hv) ?_
    generalize x.turn fallback = y at hi' hc' hv' ⊢
    obtain ⟨_ | _, y⟩ := y
    · rfl
    · exact ih hi' hc' hv'

theorem Drawable.advanceFate (h : p.Drawable) (hc : p.Coherent) (dt fallback : α) (b : β) :
    (p.advanceFate dt fallback b).aborts = false := by
  refine Progress.aborts_runFate (i := p.identity) h.statement fallback _ rfl hc fun v hv => ?_
  rw [List.append_nil] at hv
  exact h.voice v (Option.mem_toList.mp hv)

theorem Drawable.advance (h : p.Drawable) (hc : p.Coherent) (dt fallback : α) (b : β) :
    (p.advance dt fallback b).1.Drawable ∧
      ∀ v ∈ (p.advance dt fallback b).2.1, v.levels.Drawable := by
  obtain ⟨hi, -, hv⟩ := (alone_drawable (β := β) h.statement).advancePlayer hc
    (fun v hv => h.voice v (Option.mem_toList.mp hv)) dt fallback (b := b)
  obtain ⟨hheld, hfresh⟩ := List.forall_mem_append.mp hv
  refine ⟨⟨?_, fun v hv => hheld v (Option.mem_toList.mpr hv)⟩, hfresh⟩
  rw [statement_of_identity hi]
  exact h.statement

end Player

/-! ### A scheduler -/

namespace Scheduler

/-- All that the players draw, and the runs of all voices, can be drawn. -/
structure Drawable (s : Scheduler α) : Prop where
  players : ∀ p ∈ s.players, p.Drawable
  voices : ∀ v ∈ s.voices, v.levels.Drawable

variable {s : Scheduler α}

theorem drawable_nil (hp : s.players = []) (hv : s.voices = []) : s.Drawable := by
  refine ⟨?_, ?_⟩
  · rw [hp]
    exact List.forall_mem_nil _
  · rw [hv]
    exact List.forall_mem_nil _

theorem Drawable.spawn (h : s.Drawable) {statements : List (Statement α)}
    (hs : ∀ t ∈ instances statements, t.Drawable) : (s.spawn statements).Drawable := by
  unfold Scheduler.spawn
  rw [foldl_spawnOne]
  refine ⟨List.forall_mem_append.mpr ⟨h.players, fun p hp => ?_⟩, h.voices⟩
  obtain ⟨k, hk, rfl⟩ := List.mem_mapIdx.mp hp
  exact Player.drawable_new _ (hs _ (List.getElem_mem hk)) _

variable [Easing α] {β : Type} [AudioBackend α β] {ps : List (Player α)}

theorem aborts_advanceAllFate (hc : ∀ p ∈ ps, p.Coherent) (h : ∀ p ∈ ps, p.Drawable)
    (dt fallback : α) (b : β) : (advanceAllFate dt fallback ps b).aborts = false := by
  induction ps generalizing b with
  | nil => rfl
  | cons p ps ih =>
    obtain ⟨hcp, hcs⟩ := List.forall_mem_cons.mp hc
    obtain ⟨hp, hps⟩ := List.forall_mem_cons.mp h
    exact Fate.aborts_seq (hp.advanceFate hcp dt fallback b) (ih hcs hps _)

theorem drawable_advanceAll (hc : ∀ p ∈ ps, p.Coherent) (h : ∀ p ∈ ps, p.Drawable)
    (dt fallback : α) (b : β) :
    (∀ p ∈ (advanceAll dt fallback ps b).1, p.Drawable) ∧
      ∀ v ∈ (advanceAll dt fallback ps b).2.1, v.levels.Drawable := by
  induction ps generalizing b with
  | nil => exact ⟨List.forall_mem_nil _, List.forall_mem_nil _⟩
  | cons p ps ih =>
    obtain ⟨hcp, hcs⟩ := List.forall_mem_cons.mp hc
    obtain ⟨hp, hps⟩ := List.forall_mem_cons.mp h
    obtain ⟨hp', hfresh⟩ := hp.advance hcp dt fallback b
    obtain ⟨hps', hmore⟩ := ih hcs hps (p.advance dt fallback b).2.2
    exact ⟨List.forall_mem_cons.mpr ⟨hp', hps'⟩, List.forall_mem_append.mpr ⟨hfresh, hmore⟩⟩

theorem Drawable.tickFate (h : s.Drawable) (hc : ∀ p ∈ s.players, p.Coherent) (dt : α) (b : β) :
    (s.tickFate dt b).aborts = false :=
  Fate.aborts_seq (Fate.aborts_forM fun v hv => Voice.aborts_advanceFate (h.voices v hv) _)
    (aborts_advanceAllFate hc h.players ..)

theorem Drawable.tick (h : s.Drawable) (hc : ∀ p ∈ s.players, p.Coherent) (dt : α) (b : β) :
    (s.tick dt b).1.Drawable := by
  have hall := drawable_advanceAll (β := β) hc h.players (Scalar.larger dt 0) s.fallback
  have hvoices : ∀ v ∈ s.voices.map (Voice.next (Scalar.larger dt 0)), v.levels.Drawable := by
    intro v hv
    obtain ⟨w, hw, rfl⟩ := List.mem_map.mp hv
    exact (h.voices w hw).congr (w.interpolations_next _)
  unfold Scheduler.tick
  simp only [Voice.advanceAll_eq]
  refine ⟨fun p hp => (hall _).1 p (List.mem_filter.mp hp).1, List.forall_mem_append.mpr ⟨?_, ?_⟩⟩
  · exact fun v hv => hvoices v (List.mem_filter.mp hv).1
  · exact fun v hv => (hall _).2 v (List.mem_filter.mp hv).1

end Scheduler

/-! ### Every run -/

namespace World

variable [Easing α] {w : World α}

theorem aborts_fate (hw : w.Sound) (h : w.scheduler.Drawable) {o : Occurrence α}
    (ho : ∀ s ∈ o.instances, s.Drawable) : (w.fate o).aborts = false := by
  cases o with
  | lose clip => rfl
  | event e =>
    cases e with
    | spawn statements =>
      exact Fate.aborts_forM fun s hs => Fate.aborts_of_eq_ok (ho s hs).newFate
    | tick dt => exact h.tickFate hw.crew.coherent dt _
    | hardReset => rfl

theorem drawable_after (hw : w.Sound) (h : w.scheduler.Drawable) {o : Occurrence α}
    (ho : ∀ s ∈ o.instances, s.Drawable) : (w.after o).scheduler.Drawable := by
  cases o with
  | lose clip => exact h
  | event e =>
    cases e with
    | spawn statements => exact h.spawn ho
    | tick dt => exact h.tick hw.crew.coherent dt _
    | hardReset => exact Scheduler.drawable_nil rfl rfl

theorem aborts_runFate_of_drawable (hw : w.Sound) (h : w.scheduler.Drawable)
    {os : List (Occurrence α)} (hos : ∀ o ∈ os, ∀ s ∈ o.instances, s.Drawable) :
    (w.runFate os).aborts = false := by
  induction os generalizing w with
  | nil => rfl
  | cons o os ih =>
    obtain ⟨ho, hos⟩ := List.forall_mem_cons.mp hos
    exact Fate.aborts_seq (aborts_fate hw h ho) (ih (hw.after o) (drawable_after hw h ho) hos)

/-- No run aborts in which only statements are spawned whose quantities can be drawn. -/
theorem aborts_runFate (seed : UInt64) (fallback len : α) (lens : List (String × α))
    (missing : List String) {os : List (Occurrence α)}
    (h : ∀ o ∈ os, ∀ s ∈ o.instances, s.Drawable) :
    ((new seed fallback (.empty len lens missing)).runFate os).aborts = false :=
  aborts_runFate_of_drawable (sound_new seed fallback len lens missing)
    (Scheduler.drawable_nil rfl rfl) h

end World

end Soundscape
