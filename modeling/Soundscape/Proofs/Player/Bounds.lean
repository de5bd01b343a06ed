import Soundscape.Playback.Recording
import Soundscape.Proofs.Player.Listener
import Soundscape.Proofs.Script.Ends
import Soundscape.Proofs.Voice.Bounds

/-!
# Levels that a script allows

On exact fractions all that is written for an instance of a statement lies in the convex hull of
what the statement says: a volume between the ends of the statement's volume, those of its
interpolation, and silence; a pitch between the ends of its pitch and of its interpolation
(`Statement.Performs.within_bounds`).  It makes no difference on which backend the instance plays,
what else happens there, and how its time is cut into steps.
-/

namespace Soundscape

/-! ### What a statement says of its levels -/

def Quantity.ends : Quantity Rat → Set Rat
  | .unset => ∅
  | .fixed v => {v}
  | .range low high => {low, high}

/-- The ends of a quantity, or what stands for it where it is not set. -/
def Quantity.endsOr (default : Rat) (q : Quantity Rat) : Set Rat :=
  if q.isSet then q.ends else {default}

/-- The ends of an interpolation, if there is one. -/
def Interpolation.ends (i : Option (Interpolation Rat)) : Set Rat :=
  {x | ∃ spec ∈ i, x ∈ spec.low.ends ∪ spec.high.ends}

namespace Statement

def bounds (s : Statement Rat) : Bounds where
  volume := convexHull Rat ({0} ∪ s.volume.endsOr 1 ∪ Interpolation.ends s.volumeInterpolation)
  pitch := convexHull Rat (s.pitch.endsOr 1 ∪ Interpolation.ends s.pitchInterpolation)
  convex_volume := convex_convexHull Rat _
  convex_pitch := convex_convexHull Rat _
  silence_mem := subset_convexHull Rat _ (.inl (.inl rfl))

end Statement

/-! ### Draws -/

section Draws

variable {V : Set Rat} {B : Bounds}

theorem Quantity.within_of_ends (hV : Convex Rat V) {q : Quantity Rat} (hq : q.isSet)
    (h : q.ends ⊆ V) : q.Within V := by
  cases q with
  | unset => cases hq
  | fixed v => exact fun _ => h rfl
  | range low high => exact within_range hV (h (.inl rfl)) (h (.inr rfl))

theorem Quantity.sampleOr_mem (hV : Convex Rat V) {q : Quantity Rat} {default : Rat}
    (h : q.endsOr default ⊆ V) (s : Source) : (q.sampleOr default s).1 ∈ V := by
  unfold Quantity.endsOr at h
  unfold Quantity.sampleOr
  split
  · next hq =>
    rw [if_pos hq] at h
    exact q.within_of_ends hV hq h s
  · next hq =>
    rw [if_neg hq] at h
    exact h rfl

theorem Interpolation.within_of_ends (hV : Convex Rat V) {i : Interpolation Rat} (hi : i.Spans)
    (h : ends (some i) ⊆ V) : i.Within V where
  low := i.low.within_of_ends hV hi.low fun _ hx => h ⟨i, rfl, .inl hx⟩
  high := i.high.within_of_ends hV hi.high fun _ hx => h ⟨i, rfl, .inr hx⟩

theorem Playhead.within_start {i : Option (Interpolation Rat)} (h : ∀ spec ∈ i, spec.Within V)
    (s : Source) : ∀ p ∈ (i.mapM start s).1, p.Within V := by
  cases i with
  | none => exact fun p hp => absurd hp (Option.not_mem_none p)
  | some spec =>
    have hp := within_resample (p := ⟨spec, 0, 0, 0, 0, 0, true, false⟩) (h spec rfl) s
    exact fun p hp' => Option.mem_some_iff.mp hp' ▸ hp

theorem Levels.within_start {volume pitch : Rat} {volumeRun pitchRun : Option (Interpolation Rat)}
    (hv : volume ∈ B.volume) (hp : pitch ∈ B.pitch) (hvr : ∀ i ∈ volumeRun, i.Within B.volume)
    (hpr : ∀ i ∈ pitchRun, i.Within B.pitch) (s : Source) :
    (start volume pitch volumeRun pitchRun s).1.Within B where
  baseVolume := hv
  basePitch := hp
  volumeRun := Playhead.within_start hvr s
  pitchRun := Playhead.within_start hpr _

end Draws

/-! ### Voices of a statement -/

theorem Voice.within_lastWords (B : Bounds) (v : Voice Rat) : ∀ c ∈ v.lastWords, c.Within B := by
  intro c hc
  obtain rfl | rfl := Voice.mem_lastWords hc <;> trivial

namespace Statement

variable {s : Statement Rat}

theorem sampleOr_volume_mem (s : Statement Rat) (source : Source) :
    (s.volume.sampleOr 1 source).1 ∈ s.bounds.volume :=
  Quantity.sampleOr_mem s.bounds.convex_volume
    (fun _ hx => subset_convexHull Rat _ (.inl (.inr hx))) source

theorem sampleOr_pitch_mem (s : Statement Rat) (source : Source) :
    (s.pitch.sampleOr 1 source).1 ∈ s.bounds.pitch :=
  Quantity.sampleOr_mem s.bounds.convex_pitch
    (fun _ hx => subset_convexHull Rat _ (.inl hx)) source

theorem Spans.within_volume (h : s.Spans) : ∀ i ∈ s.volumeInterpolation, i.Within s.bounds.volume :=
  fun i hi => i.within_of_ends s.bounds.convex_volume (h.volume i hi) fun _ hx =>
    subset_convexHull Rat _ (.inr (Option.mem_def.mp hi ▸ hx))

theorem Spans.within_pitch (h : s.Spans) : ∀ i ∈ s.pitchInterpolation, i.Within s.bounds.pitch :=
  fun i hi => i.within_of_ends s.bounds.convex_pitch (h.pitch i hi) fun _ hx =>
    subset_convexHull Rat _ (.inr (Option.mem_def.mp hi ▸ hx))

theorem Spans.drawLevels (h : s.Spans) (source : Source) :
    (Player.drawLevels s source).1.Within s.bounds :=
  Levels.within_start (s.sampleOr_volume_mem _) (s.sampleOr_pitch_mem _) h.within_volume
    h.within_pitch _

end Statement

namespace Player

variable {s : Statement Rat}

theorem MayOpen.within {o : Opening Rat} (h : MayOpen s o) (hs : s.Spans) :
    o.2.1.Within s.bounds := by
  obtain ⟨source, rfl⟩ := h
  exact hs.drawLevels _

theorem MayRestart.within {movesPitch : Bool} {clip : String} {volume : Rat} {pitch : Option Rat}
    {fadeIn : Rat} (h : MayRestart s movesPitch clip volume pitch fadeIn) :
    volume ∈ s.bounds.volume ∧ ∀ x ∈ pitch, x ∈ s.bounds.pitch := by
  obtain ⟨source, h⟩ := h
  have hv : (drawRestart s movesPitch source).1.2.2.1 = volume := by rw [h]
  have hp : (drawRestart s movesPitch source).1.2.1 = pitch := by rw [h]
  rw [← hv, ← hp]
  cases movesPitch with
  | false =>
    exact ⟨s.sampleOr_volume_mem _, fun x hx => Option.mem_some_iff.mp hx ▸ s.sampleOr_pitch_mem _⟩
  | true => exact ⟨s.sampleOr_volume_mem _, fun x hx => absurd hx (Option.not_mem_none x)⟩

variable [Easing Rat]

theorem saysOnly_within (hs : s.Spans) :
    SaysOnly s (Voice.Within s.bounds) (Cue.Within s.bounds) where
  stop := trivial
  release := trivial
  next dt hv := hv.next dt
  fade delay length _ hv := hv.scheduleFadeOut delay length _
  opened h clip {o} ho := by
    obtain ⟨hv, ht⟩ := (Voice.Within.unheard (ho.within hs) h clip o.2.2.1 o.2.2.2).stepped le_rfl
    refine ⟨hv, List.forall_mem_cons.mpr ⟨trivial, List.forall_mem_append.mpr ⟨ht, ?_⟩⟩⟩
    exact List.forall_mem_singleton.mpr trivial
  again {v clip volume pitch fadeIn} _ hm hv := by
    obtain ⟨hvolume, hpitch⟩ := hm.within
    obtain ⟨hv', ht⟩ := (hv.reloaded hvolume hpitch clip fadeIn).stepped le_rfl
    exact ⟨hv', List.forall_mem_append.mpr ⟨ht, List.forall_mem_singleton.mpr trivial⟩⟩

end Player

/-! ### Instances at play -/

namespace Statement

section Performs

variable {α : Type} [Scalar α] [Easing α]

/-- What an instance of a statement comes to, whatever is done with it: its player, the voices that
the player has let go, and what handles were told for it.  Each operation may find its backend in
any state, so others may use it in between. -/
inductive Performs (s : Statement α) : Player α → List (Voice α) → List (Cue α) → Prop
  | new (id : Nat) (source : Source) : Performs s (.new id s source) [] []
  | advance {β : Type} [AudioBackend α β] {p p' : Player α} {vs fresh : List (Voice α)}
      {cs : List (Cue α)} {l : Listener α β} (b : β) (dt fallback : α) :
      p.advance dt fallback (Listener.on b : Listener α β) = (p', fresh, l) →
      Performs s p vs cs → Performs s p' (vs ++ fresh) (cs ++ l.heard)
  /-- A voice that it has let go takes a step of time. -/
  | play {β : Type} [AudioBackend α β] {p : Player α} {vs ws : List (Voice α)} {v v' : Voice α}
      {cs : List (Cue α)} {l : Listener α β} (b : β) (dt : α) :
      v.advance dt (Listener.on b : Listener α β) = (v', l) →
      Performs s p (vs ++ v :: ws) cs → Performs s p (vs ++ v' :: ws) (cs ++ l.heard)
  /-- Such a voice is dropped, since it has given its handle back. -/
  | drop {p : Player α} {vs ws : List (Voice α)} {v : Voice α} {cs : List (Cue α)} :
      v.isReleased → Performs s p (vs ++ v :: ws) cs → Performs s p (vs ++ ws) cs
  | kill {β : Type} [AudioBackend α β] {p : Player α} {vs ws : List (Voice α)} {v v' : Voice α}
      {cs : List (Cue α)} {l : Listener α β} (b : β) :
      v.kill (Listener.on b : Listener α β) = (v', l) →
      Performs s p (vs ++ v :: ws) cs → Performs s p (vs ++ v' :: ws) (cs ++ l.heard)
  | cancel {β : Type} [AudioBackend α β] {p p' : Player α} {vs : List (Voice α)}
      {cs : List (Cue α)} {l : Listener α β} (b : β) :
      p.cancel (Listener.on b : Listener α β) = (p', l) →
      Performs s p vs cs → Performs s p' vs (cs ++ l.heard)

end Performs

variable [Easing Rat] {s : Statement Rat} {p : Player Rat} {vs : List (Voice Rat)}
  {cs : List (Cue Rat)}

/-- What is known of an instance at play: its player is that of the statement, and all that was
written, and all that its voices can write, lies within the bounds. -/
structure Keeps (s : Statement Rat) (p : Player Rat) (vs : List (Voice Rat)) (cs : List (Cue Rat)) :
    Prop where
  statement : p.statement = s
  coherent : p.Coherent
  held : ∀ v ∈ p.voice, v.Within s.bounds
  loose : ∀ v ∈ vs, v.Within s.bounds
  told : ∀ c ∈ cs, c.Within s.bounds

theorem Performs.keeps (hs : s.Spans) (h : s.Performs p vs cs) : s.Keeps p vs cs := by
  have hsays := Player.saysOnly_within hs
  induction h with
  | new id source =>
    exact ⟨rfl, Player.coherent_new id s source,
      fun v hv => absurd hv (Option.not_mem_none v), fun v hv => absurd hv List.not_mem_nil,
      fun c hc => absurd hc List.not_mem_nil⟩
  | @advance β _ p p' vs fresh cs l b dt fallback hp h ih =>
    obtain rfl := ih.statement
    have hR : Player.Heard (Voice.Within p.statement.bounds) (Cue.Within p.statement.bounds)
        p.voice.toList (Listener.on b : Listener Rat β) :=
      ⟨fun v hv => ih.held v (Option.mem_toList.mp hv), fun c hc => absurd hc List.not_mem_nil⟩
    obtain ⟨hi, hc, hv, hl⟩ := hsays.alone.advancePlayer ih.coherent hR dt fallback
    rw [hp] at hi hc hv hl
    obtain ⟨hheld, hfresh⟩ := List.forall_mem_append.mp hv
    exact ⟨Player.statement_of_identity hi, hc, fun v hv => hheld v (Option.mem_toList.mpr hv),
      List.forall_mem_append.mpr ⟨ih.loose, hfresh⟩, List.forall_mem_append.mpr ⟨ih.told, hl⟩⟩
  | @play β _ p vs ws v v' cs l b dt hv h ih =>
    obtain ⟨hvs, hvws⟩ := List.forall_mem_append.mp ih.loose
    obtain ⟨hw, hws⟩ := List.forall_mem_cons.mp hvws
    obtain ⟨hn, ht⟩ := hw.next dt
    rw [Voice.advance_eq] at hv
    cases hv
    refine ⟨ih.statement, ih.coherent, ih.held, ?_, ?_⟩
    · exact List.forall_mem_append.mpr ⟨hvs, List.forall_mem_cons.mpr ⟨hn, hws⟩⟩
    · rw [Listener.heard_tellAll]
      exact List.forall_mem_append.mpr ⟨ih.told, ht⟩
  | drop _ h ih =>
    obtain ⟨hvs, hvws⟩ := List.forall_mem_append.mp ih.loose
    exact ⟨ih.statement, ih.coherent, ih.held,
      List.forall_mem_append.mpr ⟨hvs, (List.forall_mem_cons.mp hvws).2⟩, ih.told⟩
  | @kill β _ p vs ws v v' cs l b hv h ih =>
    obtain ⟨hvs, hvws⟩ := List.forall_mem_append.mp ih.loose
    obtain ⟨hw, hws⟩ := List.forall_mem_cons.mp hvws
    have hl := Listener.heard_kill v (Listener.on b : Listener Rat β)
    have hv' := hw.kill (Listener.on b : Listener Rat β)
    rw [hv] at hl hv'
    refine ⟨ih.statement, ih.coherent, ih.held, ?_, ?_⟩
    · exact List.forall_mem_append.mpr ⟨hvs, List.forall_mem_cons.mpr ⟨hv', hws⟩⟩
    · rw [hl]
      exact List.forall_mem_append.mpr ⟨ih.told, v.within_lastWords s.bounds⟩
  | @cancel β _ p p' vs cs l b hp h ih =>
    unfold Player.cancel at hp
    split at hp
    · next v hv =>
      have hl := Listener.heard_kill v (Listener.on b : Listener Rat β)
      cases hp
      refine ⟨ih.statement, rfl, fun v hv => absurd hv (Option.not_mem_none v), ih.loose, ?_⟩
      rw [hl]
      exact List.forall_mem_append.mpr ⟨ih.told, v.within_lastWords s.bounds⟩
    · next hv =>
      cases hp
      exact ⟨ih.statement, hv, ih.held, ih.loose,
        List.forall_mem_append.mpr ⟨ih.told, fun c hc => absurd hc List.not_mem_nil⟩⟩

/-- All that is written for an instance of a statement of a script lies in the convex hull of what
the statement says of it, and of silence for a volume: the volume or the pitch, which is one unless
it is set, and the ends of the interpolation, if there is one. -/
theorem Performs.within_bounds {strict : Bool} {script : String} {draws : Source}
    (hs : s ∈ (compile strict script draws).1.statements) (h : s.Performs p vs cs) :
    (∀ volume, .setVolume volume ∈ cs → volume ∈
      convexHull Rat ({0} ∪ s.volume.endsOr 1 ∪ Interpolation.ends s.volumeInterpolation)) ∧
    ∀ pitch, .setPitch pitch ∈ cs → pitch ∈
      convexHull Rat (s.pitch.endsOr 1 ∪ Interpolation.ends s.pitchInterpolation) := by
  have hk := h.keeps (spans_compile strict script draws s hs)
  exact ⟨fun _ hv => hk.told _ hv, fun _ hv => hk.told _ hv⟩

def swell : Statement Rat where
  kind := .loop
  clip := "sea"
  count := 1
  startsAt := .unset
  duration := .unset
  every := .unset
  volume := .unset
  pitch := .range 1 2
  fadeIn := .fixed 1
  fadeOut := .unset
  overlap := false
  movement := .still
  visuals := []
  volumeInterpolation := some (.plain .gobetween (.fixed (1 / 4)) (.fixed (3 / 4)) (.fixed 2)
    "linear")
  pitchInterpolation := none
  line := 1

omit [Easing Rat] in
/-- On a curve that goes far beyond its end the volume goes no further than the upper end. -/
theorem Performs.within_bounds_swell :
    let _ : Easing Rat := ⟨fun _ x => 3 * x⟩
    let script := "loop \"sea\":\n  volume = gobetween(0.25 and 0.75 as linear in 2)\n" ++
      "  pitch = 1..2\n  fade_in = 1"
    ∃ p vs cs, swell ∈ (compile false script (.ofWords [])).1.statements ∧
      swell.Performs p vs cs ∧ .setVolume (3 / 4) ∈ cs ∧
      (∀ volume, .setVolume volume ∈ cs → volume ∈ convexHull Rat
        ({0} ∪ swell.volume.endsOr 1 ∪ Interpolation.ends swell.volumeInterpolation)) ∧
      ∀ pitch, .setPitch pitch ∈ cs → pitch ∈
        convexHull Rat (swell.pitch.endsOr 1 ∪ Interpolation.ends swell.pitchInterpolation) := by
  intro _ script
  have hs : swell ∈ (compile false script (.ofWords [])).1.statements := by decide +kernel
  have hp : swell.Performs _ _ _ :=
    .advance (Recording.empty 2 [] [] : Recording Rat) (3 / 2) 2 rfl (.new 0 (.ofWords []))
  exact ⟨_, _, _, hs, hp, by decide +kernel, hp.within_bounds hs⟩

end Statement

end Soundscape
