import Soundscape.Playback.Recording
import Soundscape.Proofs.Interpolation.Goto
import Soundscape.Proofs.Voice.Split

/-!
# The volume that a voice opens with

A voice writes one volume and one pitch before its clip is played.  The volume is meant to be where
its `goto` starts, or else silence if there is a fade-in, or else the full level
(`Levels.openingVolume`).  The `goto` has its say in a step of no time first, in which a run without
length is over already; on exact fractions this is all that can keep a new run from starting where
it should (`Voice.opening_volume`).
-/

namespace Soundscape

namespace Playhead

/-- The first level of a `goto` is the end that it starts from: the ends are the same, or the cycle
has not passed and there is no progress yet. -/
def StartsLow [Easing Rat] (p : Playhead Rat) : Prop :=
  p.high = p.low ∨ p.active ∧ p.time < p.duration ∧
    Scalar.clamp (Easing.curve p.spec.ease (p.time / p.duration)) 0 1 = 0

variable [Easing Rat] {p : Playhead Rat}

theorem eased_eq_start (p : Playhead Rat) (start stop share : Rat) :
    p.eased start stop share = start ↔
      stop = start ∨ Scalar.clamp (Easing.curve p.spec.ease share) 0 1 = 0 := by
  unfold eased
  rw [add_eq_left, mul_eq_zero, sub_eq_zero]

theorem advance_zero_of_goto (hg : p.spec.motion = .goto) (s : Source) :
    (p.advance 0 s).1.2 =
      if p.active ∧ p.time < p.duration then p.eased p.low p.high (p.time / p.duration)
      else p.high := by
  rw [advance_of_goto hg]
  by_cases ha : p.active
  · rw [if_pos ha]
    dsimp only
    rw [add_zero, passage]
    by_cases ht : p.duration ≤ p.time
    · rw [if_pos ht, if_neg fun h => absurd h.2 (not_lt.mpr ht)]
    · rw [if_neg ht, if_pos ⟨ha, not_le.mp ht⟩]
  · rw [if_neg ha, if_neg fun h => ha h.1]

theorem advance_zero_eq_low (hg : p.spec.motion = .goto) (s : Source) :
    (p.advance 0 s).1.2 = p.low ↔ p.StartsLow := by
  rw [advance_zero_of_goto hg]
  unfold StartsLow
  by_cases h : p.active ∧ p.time < p.duration
  · rw [if_pos h, eased_eq_start]
    simp only [h.1, h.2, true_and]
  · rw [if_neg h, ← and_assoc]
    simp only [h, false_and, or_false]

/-- On a curve from zero a run that has its cycle ahead starts low if the cycle has a length. -/
theorem startsLow_of_fresh (hcurve : Easing.curve p.spec.ease (0 : Rat) = 0) (ha : p.active)
    (ht : p.time = 0) : p.StartsLow ↔ p.high = p.low ∨ 0 < p.duration := by
  have hclamp : Scalar.clamp (0 : Rat) 0 1 = 0 := by
    rw [Fraction.clamp_eq]
    norm_num
  unfold StartsLow
  rw [ht, zero_div, hcurve, hclamp]
  simp only [ha, true_and, and_true]

end Playhead

namespace Levels

variable {l : Levels Rat}

theorem isGoto_iff {p : Playhead Rat} : isGoto p ↔ p.spec.motion = .goto := by
  simp [isGoto]

theorem fresh_rewindGoto (l : Levels Rat) (s : Source) :
    ∀ p ∈ (l.rewindGoto s).1.volumeRun, isGoto p → p.active ∧ p.time = 0 := by
  obtain ⟨volume, pitch, volumeRun, pitchRun⟩ := l
  unfold rewindGoto
  cases volumeRun with
  | none =>
    intro p hp
    cases hp
  | some p =>
    dsimp only
    by_cases hg : isGoto p
    · rw [if_pos hg]
      rintro _ ⟨⟩ -
      exact ⟨rfl, rfl⟩
    · rw [if_neg hg]
      rintro _ ⟨⟩ h
      exact absurd h hg

variable [Easing Rat]

/-- The volume that a sound is meant to open with. -/
def openingVolume (l : Levels Rat) (fadeIn : Rat) (s : Source) : Rat :=
  match l.gotoStart with
  | some low => low
  | none => if tolerance < fadeIn then 0 else (l.volume 0 s).1.2

/-- The volume's `goto`, if there is one, starts low. -/
def StartsLow (l : Levels Rat) : Prop := ∀ p ∈ l.volumeRun, isGoto p → p.StartsLow

theorem volume_of_goto {p : Playhead Rat} (hp : l.volumeRun = some p) (hg : isGoto p) (s : Source) :
    (l.volume 0 s).1.2 = (p.advance 0 s).1.2 := by
  unfold volume axis
  rw [hp]
  dsimp only
  rw [if_pos (by rw [hg]; rfl)]
  rfl

end Levels

namespace Gain

theorem level_fadeIn_advance_zero {length : Rat} (h : tolerance < length) :
    ((fadeIn length : Gain Rat).advance 0).level = 0 := by
  have hpos : 0 < length := Fraction.tolerance_pos.trans h
  have hramp : (fadeIn length : Gain Rat).ramp = some ⟨0, 1, length, 0⟩ := by
    show some (⟨0, 1, Scalar.larger length 0, 0⟩ : Ramp Rat) = _
    rw [Fraction.larger_of_nonneg hpos.le]
  rw [advance_of_under_way hramp (by rw [not_or, not_le, not_le]; constructor <;> linarith)]
  simp

end Gain

namespace Voice

section Opening

variable [Easing Rat] {v : Voice Rat}

/-- A step of no time writes what the levels say, under the gain that the sound starts with. -/
theorem volume_stepped_zero (hs : v.state = .playing) :
    (v.stepped 0).volume = (v.levels.volume 0 v.source).1.2 * (v.gain.advance 0).level := by
  obtain ⟨hn, -, -⟩ | ⟨-, -, he, -⟩ | ⟨release, hn, -, -⟩ := v.stepped_cases 0
  · rw [hs] at hn
    cases hn
  · rw [he]
    rfl
  · rw [hs] at hn
    cases hn

/-- The opening volume is right if and only if the `goto` starts low. -/
theorem volume_stepped_zero_eq {fadeIn : Rat} (hs : v.state = .playing)
    (hg : v.gain = openingGain v.levels fadeIn) :
    (v.stepped 0).volume = v.levels.openingVolume fadeIn v.source ↔ v.levels.StartsLow := by
  rw [volume_stepped_zero hs, hg]
  unfold Levels.openingVolume Levels.StartsLow openingGain
  generalize v.levels = l
  cases hrun : l.volumeRun.filter Levels.isGoto with
  | some p =>
    obtain ⟨hp, hgoto⟩ := Option.filter_eq_some_iff.mp hrun
    have hstart : l.gotoStart = some p.low := by
      rw [Levels.gotoStart, hrun]
      rfl
    have hunity : (Gain.unity.advance 0 : Gain Rat).level = 1 := rfl
    rw [hstart, if_pos (.inl rfl), Levels.volume_of_goto hp hgoto, hunity, mul_one]
    dsimp only
    rw [Playhead.advance_zero_eq_low (Levels.isGoto_iff.mp hgoto)]
    constructor
    · intro h q hq _
      rwa [← Option.some.inj (hp.symm.trans hq)]
    · intro h
      exact h p hp hgoto
  | none =>
    have hstart : l.gotoStart = none := by
      rw [Levels.gotoStart, hrun]
      rfl
    have hlow : ∀ p ∈ l.volumeRun, Levels.isGoto p → p.StartsLow := by
      intro p hp hgoto
      exact absurd hgoto (Option.filter_eq_none_iff.mp hrun p hp)
    rw [hstart, iff_true_right hlow]
    dsimp only
    by_cases hf : tolerance < fadeIn
    · rw [if_pos hf, if_neg (by simp [not_le.mpr hf]), Gain.level_fadeIn_advance_zero hf, mul_zero]
    · have hunity : (Gain.unity.advance 0 : Gain Rat).level = 1 := rfl
      rw [if_neg hf, if_pos (.inr (not_lt.mp hf)), hunity, mul_one]

variable {β : Type} [AudioBackend Rat β]

/-- Before its clip is played a voice that starts writes one volume and one pitch, and so does one
that is started again once its clip is loaded.  On curves from zero the volume is the one that the
sound is meant to open with if and only if the `goto`, if there is one, starts low, which a new run
does whose cycle has a length. -/
theorem opening_volume (hcurve : ∀ e : Ease, Easing.curve e (0 : Rat) = 0) :
    (∀ (h : Handle) (clip : String) (levels : Levels Rat) (fadeIn : Rat) (looped : Bool)
        (source : Source) (b b' : β) (v : Voice Rat),
      start h clip levels fadeIn looped source b = (v, b') →
        b' = tellAll b h [.setVolume v.volume, .setPitch v.pitch, .play looped] ∧
          (v.volume = levels.openingVolume fadeIn source ↔ levels.StartsLow)) ∧
    (∀ (v w : Voice Rat) (clip : String) (volume : Rat) (pitch : Option Rat) (fadeIn : Rat)
        (b b' : β),
      v.restart clip volume pitch fadeIn b = (.ok (), w, b') →
        ∃ c, AudioBackend.loadClip (tellAll b v.handle v.hush) v.handle clip = (.ok (), c) ∧
          b' = tellAll c v.handle [.setVolume w.volume, .setPitch w.pitch, .play false] ∧
          let rewound := v.reloaded clip volume pitch fadeIn
          (w.volume = rewound.levels.openingVolume fadeIn rewound.source ↔
            ∀ p ∈ rewound.levels.volumeRun, Levels.isGoto p → p.high = p.low ∨ 0 < p.duration)) ∧
    ∀ (p : Playhead Rat) (s : Source), Levels.isGoto p →
      ((p.advance 0 s).1.2 = p.low ↔ p.StartsLow) ∧
        (p.active → p.time = 0 → (p.StartsLow ↔ p.high = p.low ∨ 0 < p.duration)) := by
  refine ⟨?_, ?_, ?_⟩
  · intro h clip levels fadeIn looped source b b' v hv
    rw [start_eq, stepTells_of_playing (v := unheard h clip levels fadeIn source) rfl] at hv
    cases hv
    exact ⟨rfl, volume_stepped_zero_eq (v := unheard h clip levels fadeIn source) rfl rfl⟩
  · intro v w clip volume pitch fadeIn b b' hw
    rw [restart_eq] at hw
    split at hw
    · cases hw
    · split at hw
      · cases hw
      · next c hload =>
        rw [stepTells_of_playing (v := v.reloaded clip volume pitch fadeIn) rfl] at hw
        cases hw
        refine ⟨c, hload, rfl, ?_⟩
        dsimp only
        rw [volume_stepped_zero_eq (v := v.reloaded clip volume pitch fadeIn) rfl rfl]
        -- the rewound run has its cycle ahead
        have hfresh : ∀ p ∈ (v.reloaded clip volume pitch fadeIn).levels.volumeRun,
            Levels.isGoto p → p.active ∧ p.time = 0 :=
          Levels.fresh_rewindGoto _ v.source
        refine forall_congr' fun p => forall_congr' fun hp => forall_congr' fun hg => ?_
        obtain ⟨ha, ht⟩ := hfresh p hp hg
        exact Playhead.startsLow_of_fresh (hcurve p.spec.ease) ha ht
  · intro p s hg
    refine ⟨Playhead.advance_zero_eq_low (Levels.isGoto_iff.mp hg) s, ?_⟩
    intro ha ht
    exact Playhead.startsLow_of_fresh (hcurve p.spec.ease) ha ht

end Opening

/-- A voice with a `goto` is started again in the middle of a fade-out. -/
theorem opening_volume_again :
    let _ : Easing Rat := ⟨fun _ x => x⟩
    let i : Interpolation Rat :=
      ⟨.goto, .fixed (1 / 5), .fixed (4 / 5), .fixed 2, "linear", .linear, 1, false⟩
    let levels := (Levels.start 1 1 (some i) none (.ofWords [])).1
    let r : Recording Rat := .empty 2 [] []
    let x := start ⟨1⟩ "clip" levels 3 false (.ofWords []) (r.acquire "clip").2
    let y := (x.1.scheduleFadeOut 0 2 false).advance 1 x.2
    let z := y.1.restart "clip" 1 none 3 y.2
    (∀ e : Ease, Easing.curve e (0 : Rat) = 0) ∧ y.1.state = .fadingOut false ∧
      z = (.ok (), z.2) ∧ z.2.1.volume = 1 / 5 := by
  intro _ i levels r x y z
  have hcurve : ∀ e : Ease, Easing.curve e (0 : Rat) = 0 := fun _ => rfl
  have hs : y.1.state = .fadingOut false := by decide +kernel
  have hz : z = (.ok (), z.2) := Prod.ext (by decide +kernel) rfl
  refine ⟨hcurve, hs, hz, ?_⟩
  obtain ⟨-, hrestart, -⟩ := opening_volume (β := Recording Rat) hcurve
  obtain ⟨c, -, -, hvolume⟩ := hrestart y.1 z.2.1 "clip" 1 none 3 y.2 z.2.2 hz
  have hlength : (y.1.reloaded "clip" 1 none 3).levels.volumeRun.map Playhead.duration = some 2 := by
    decide +kernel
  rw [hvolume.mpr ?_]
  · decide +kernel
  · intro p hp _
    rw [hp] at hlength
    exact .inr (by rw [Option.some.inj hlength]; norm_num)

/-- A `goto` without length is over in the step that writes the opening volume, so the voice opens
where the `goto` ends. -/
theorem opening_volume_atEnd :
    let _ : Easing Rat := ⟨fun _ x => x⟩
    let i : Interpolation Rat :=
      ⟨.goto, .fixed (1 / 5), .fixed (4 / 5), .fixed 0, "linear", .linear, 1, false⟩
    let levels := (Levels.start 1 1 (some i) none (.ofWords [])).1
    let r : Recording Rat := .empty 2 [] []
    let x := start ⟨1⟩ "clip" levels 0 false (.ofWords []) (r.acquire "clip").2
    (∀ e : Ease, Easing.curve e (0 : Rat) = 0) ∧ levels.gotoStart = some (1 / 5) ∧
      x.1.volume = 4 / 5 ∧ x.1.volume ≠ levels.openingVolume 0 (.ofWords []) := by
  intro _ i levels r x
  refine ⟨fun _ => rfl, ?_, ?_, ?_⟩ <;> decide +kernel

end Voice

end Soundscape
