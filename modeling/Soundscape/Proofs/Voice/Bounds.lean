import Mathlib.Analysis.Convex.Hull
import Soundscape.Proofs.Interpolation.LeastDraw
import Soundscape.Proofs.Voice.Split

/-!
# Between which levels a voice stays

On exact fractions a level lies between the ends it moves between, whatever the curve, since the
progress along the curve is clamped; and a gain lies between silence and full level.  So a voice
whose levels are drawn from convex sets writes levels of those sets only (`Voice.Within.next`), the
volumes with silence among them.
-/

namespace Soundscape

/-- Where the volumes and the pitches of a sound lie. -/
structure Bounds where
  volume : Set Rat
  pitch : Set Rat
  convex_volume : Convex Rat volume
  convex_pitch : Convex Rat pitch
  silence_mem : 0 ∈ volume

/-- A level that is written lies where it should. -/
def Cue.Within (B : Bounds) : Cue Rat → Prop
  | .setVolume v => v ∈ B.volume
  | .setPitch v => v ∈ B.pitch
  | _ => True

/-! ### Draws -/

/-- Every number of the quantity lies in a set. -/
def Quantity.Within (V : Set Rat) (q : Quantity Rat) : Prop := ∀ s, (q.sample s).1 ∈ V

/-- The ends of an interpolation are drawn from a set. -/
structure Interpolation.Within (V : Set Rat) (i : Interpolation Rat) : Prop where
  low : i.low.Within V
  high : i.high.Within V

variable {V : Set Rat} {B : Bounds}

theorem Quantity.within_range (hV : Convex Rat V) {low high : Rat} (hl : low ∈ V) (hh : high ∈ V) :
    (Quantity.range low high).Within V := by
  intro s
  -- the number is some steps from the one end and some from the other, and all steps are alike
  obtain ⟨n, m, hn, hm⟩ := Playhead.exists_sample_eq low high s
  generalize ((Quantity.range low high).sample s).1 = x at hn hm
  generalize Playhead.drawStep low high = step at hn hm
  have hwidth : high - low = (n + m) * step := by linarith
  by_cases h0 : (n : Rat) + m = 0
  · have hn0 : (n : Rat) = 0 := by
      exact_mod_cast (Nat.add_eq_zero_iff.mp (by exact_mod_cast h0 : n + m = 0)).1
    rw [hn, hn0, zero_mul, zero_add]
    exact hl
  · have hpos : 0 < (n : Rat) + m := by positivity
    have hx : x = low + (n / (n + m) : Rat) • (high - low) := by
      rw [hn, hwidth, smul_eq_mul]
      field_simp
      ring
    rw [hx]
    refine hV.add_smul_sub_mem hl hh ⟨by positivity, ?_⟩
    rw [div_le_one hpos]
    exact le_add_of_nonneg_right (Nat.cast_nonneg m)

/-! ### Playheads -/

namespace Playhead

/-- The ends of a run lie in a set, and so do those it may draw. -/
structure Within (V : Set Rat) (p : Playhead Rat) : Prop where
  low : p.low ∈ V
  high : p.high ∈ V
  spec : p.spec.Within V

variable {p : Playhead Rat}

theorem within_resample (h : p.spec.Within V) (s : Source) : (p.resample s).1.Within V :=
  ⟨h.low _, h.high _, h⟩

theorem Within.reset (h : p.Within V) (s : Source) : (p.reset s).1.Within V :=
  within_resample (p := { p with time := 0, completed := 0, active := true, returning := false })
    h.spec s

/-- What a turn comes to has its ends in a set. -/
def Turn.Within (V : Set Rat) : Turn Rat → Prop
  | .within p | .over p | .passed p => p.Within V

theorem Within.turn (h : p.Within V) (s : Source) : (p.turn s).1.Within V := by
  have hpassed (q : Playhead Rat) (hq : q.spec = p.spec) :
      ((do return Turn.passed (← q.resample) : Draw (Turn Rat)) s).1.Within V :=
    within_resample (hq ▸ h.spec) s
  unfold Playhead.turn
  split
  · split
    · exact ⟨h.low, h.high, h.spec⟩
    · dsimp only
      split
      · exact hpassed _ rfl
      · split
        · exact ⟨h.low, h.high, h.spec⟩
        · exact hpassed _ rfl
  · exact h

theorem Within.settle (h : p.Within V) (turns : Nat) (s : Source) :
    (settle turns p s).1.Within V := by
  induction turns generalizing p s with
  | zero => exact h
  | succ turns ih =>
    have ht := h.turn s
    unfold Playhead.settle
    rcases hq : p.turn s with ⟨q | q | q, s'⟩ <;> rw [hq] at ht
    · exact ht
    · exact ht
    · exact ih ht s'

variable [Easing Rat]

/-- A level lies between the ends, since the progress is clamped. -/
theorem eased_mem (hV : Convex Rat V) {start stop : Rat} (hs : start ∈ V) (ht : stop ∈ V)
    (p : Playhead Rat) (share : Rat) : p.eased start stop share ∈ V := by
  have hmem := hV.add_smul_sub_mem hs ht
    ⟨Fraction.clamp_nonneg (Easing.curve p.spec.ease share) zero_le_one,
      Fraction.clamp_le (Easing.curve p.spec.ease share) 1⟩
  rwa [smul_eq_mul, mul_comm] at hmem

theorem Within.level (h : p.Within V) (hV : Convex Rat V) :
    p.level.1.Within V ∧ p.level.2 ∈ V := by
  unfold Playhead.level
  split
  · split
    · exact ⟨⟨h.low, h.high, h.spec⟩, p.eased_mem hV h.low h.high _⟩
    · exact ⟨⟨h.low, h.high, h.spec⟩, p.eased_mem hV h.high h.low _⟩
  · exact ⟨h, p.eased_mem hV h.low h.high _⟩

theorem Within.advance (h : p.Within V) (hV : Convex Rat V) (dt : Rat) (s : Source) :
    (p.advance dt s).1.1.Within V ∧ (p.advance dt s).1.2 ∈ V := by
  have hlater : ({ p with time := p.time + dt } : Playhead Rat).Within V := ⟨h.low, h.high, h.spec⟩
  have hsettle := hlater.settle ({ p with time := p.time + dt } : Playhead Rat).turnBound s
  unfold Playhead.advance
  split
  · dsimp only
    split
    · next q s' hq =>
      rw [hq] at hsettle
      exact hsettle.level hV
    · next q s' hq =>
      rw [hq] at hsettle
      exact hsettle.level hV
    · next q s' hq =>
      rw [hq] at hsettle
      refine ⟨hsettle, ?_⟩
      show q.cycleEnd ∈ V
      unfold cycleEnd
      split
      · exact hsettle.low
      · exact hsettle.high
  · refine ⟨h, ?_⟩
    show p.restingValue ∈ V
    unfold restingValue
    split
    · exact h.high
    · exact h.low

end Playhead

/-! ### Gains -/

namespace Gain

/-- The gain lies between silence and full level, and so it does as long as it glides. -/
structure Within (g : Gain Rat) : Prop where
  level : g.level ∈ Set.Icc 0 1
  ramp : ∀ r ∈ g.ramp, r.start ∈ Set.Icc 0 1 ∧ r.target ∈ Set.Icc 0 1 ∧ 0 ≤ r.elapsed

variable {g : Gain Rat}

theorem within_unity : (unity : Gain Rat).Within := ⟨⟨zero_le_one, le_rfl⟩, nofun⟩

theorem Within.fadeTo (h : g.Within) {target : Rat} (ht : target ∈ Set.Icc (0 : Rat) 1)
    (length : Rat) : (g.fadeTo target length).Within := by
  refine ⟨h.level, ?_⟩
  rintro _ ⟨⟩
  exact ⟨h.level, ht, le_rfl⟩

theorem within_fadeIn (length : Rat) : (fadeIn length : Gain Rat).Within :=
  Within.fadeTo (g := ⟨0, none⟩) ⟨⟨le_rfl, zero_le_one⟩, nofun⟩ ⟨zero_le_one, le_rfl⟩ length

theorem Within.advance (h : g.Within) {dt : Rat} (hdt : 0 ≤ dt) : (g.advance dt).Within := by
  cases hr : g.ramp with
  | none =>
    rw [advance_of_isSettled (by simp [isSettled, hr])]
    exact h
  | some r =>
    obtain ⟨hstart, htarget, helapsed⟩ := h.ramp r hr
    by_cases hd : r.length ≤ 0 ∨ r.length ≤ r.elapsed + dt + tolerance
    · rw [advance_of_arrived hr hd]
      exact ⟨htarget, fun r hr => absurd hr (Option.not_mem_none r)⟩
    · rw [advance_of_under_way hr hd]
      rw [not_or, not_le, not_le] at hd
      have hsum : 0 ≤ r.elapsed + dt := add_nonneg helapsed hdt
      refine ⟨?_, ?_⟩
      · have hshare : (r.elapsed + dt) / r.length ∈ Set.Icc (0 : Rat) 1 := by
          refine ⟨div_nonneg hsum hd.1.le, (div_le_one hd.1).mpr ?_⟩
          linarith [hd.2, Fraction.tolerance_pos]
        have hmem := (convex_Icc (0 : Rat) 1).add_smul_sub_mem hstart htarget hshare
        rwa [smul_eq_mul, mul_comm] at hmem
      · rintro _ ⟨⟩
        exact ⟨hstart, htarget, hsum⟩

end Gain

/-! ### Levels -/

namespace Levels

/-- The levels have their base values in their bounds, and so are the ends of their runs. -/
structure Within (B : Bounds) (l : Levels Rat) : Prop where
  baseVolume : l.baseVolume ∈ B.volume
  basePitch : l.basePitch ∈ B.pitch
  volumeRun : ∀ p ∈ l.volumeRun, p.Within B.volume
  pitchRun : ∀ p ∈ l.pitchRun, p.Within B.pitch

variable {l : Levels Rat}

theorem Within.rewindGoto (h : l.Within B) (s : Source) : (l.rewindGoto s).1.Within B := by
  obtain ⟨volume, pitch, volumeRun, pitchRun⟩ := l
  unfold Levels.rewindGoto
  cases volumeRun with
  | none => exact h
  | some p =>
    have hp := (h.volumeRun p rfl).reset s
    dsimp only
    split
    · exact ⟨h.baseVolume, h.basePitch, fun q hq => Option.mem_some_iff.mp hq ▸ hp, h.pitchRun⟩
    · exact h

variable [Easing Rat]

theorem axis_mem {run : Option (Playhead Rat)} {base : Rat} (hV : Convex Rat V)
    (hr : ∀ p ∈ run, p.Within V) (hb : base ∈ V) (dt : Rat) (s : Source) :
    (∀ p ∈ (axis run base dt s).1.1, p.Within V) ∧ (axis run base dt s).1.2 ∈ V := by
  unfold axis
  cases run with
  | none => exact ⟨hr, hb⟩
  | some p =>
    obtain ⟨hp, hv⟩ := (hr p rfl).advance hV dt s
    dsimp only
    split
    · exact ⟨fun q hq => Option.mem_some_iff.mp hq ▸ hp, hv⟩
    · exact ⟨hr, hb⟩

theorem Within.volume (h : l.Within B) (dt : Rat) (s : Source) :
    (l.volume dt s).1.1.Within B ∧ (l.volume dt s).1.2 ∈ B.volume := by
  obtain ⟨hr, hv⟩ := axis_mem B.convex_volume h.volumeRun h.baseVolume dt s
  exact ⟨⟨h.baseVolume, h.basePitch, hr, h.pitchRun⟩, hv⟩

theorem Within.pitch (h : l.Within B) (dt : Rat) (s : Source) :
    (l.pitch dt s).1.1.Within B ∧ (l.pitch dt s).1.2 ∈ B.pitch := by
  obtain ⟨hr, hv⟩ := axis_mem B.convex_pitch h.pitchRun h.basePitch dt s
  exact ⟨⟨h.baseVolume, h.basePitch, h.volumeRun, hr⟩, hv⟩

end Levels

/-! ### Voices -/

namespace Voice

/-- The levels and the gain of a voice keep to their bounds, and no fade-out lies behind. -/
structure Within (B : Bounds) (v : Voice Rat) : Prop where
  levels : v.levels.Within B
  gain : v.gain.Within
  ahead : ∀ f ∈ v.pending, 0 ≤ f.delay

namespace Within

variable {v : Voice Rat}

theorem within_openingGain (levels : Levels Rat) (fadeIn : Rat) :
    (openingGain levels fadeIn).Within := by
  unfold openingGain
  split
  · exact Gain.within_unity
  · exact Gain.within_fadeIn fadeIn

theorem scheduleFadeOut (h : v.Within B) (delay length : Rat) (release : Bool) :
    (v.scheduleFadeOut delay length release).Within B := by
  refine ⟨h.levels, h.gain, ?_⟩
  rintro _ ⟨⟩
  show 0 ≤ Scalar.larger delay 0
  rw [Fraction.larger_eq]
  exact le_max_right delay 0

theorem fadeNow (h : v.Within B) (f : PendingFade Rat) : (v.fadeNow f).Within B := by
  have hclear (g : PendingFade Rat) : g ∈ none → 0 ≤ g.delay := fun hg =>
    absurd hg (Option.not_mem_none g)
  by_cases hs : v.state = .playing
  · rw [fadeNow_of_playing hs]
    exact ⟨h.levels, h.gain.fadeTo ⟨le_rfl, zero_le_one⟩ f.length, hclear⟩
  · have he : v.fadeNow f = { v with pending := none } := by
      simp [Voice.fadeNow, beginFadeOut, hs]
    rw [he]
    exact ⟨h.levels, h.gain, hclear⟩

theorem fadeSooner (h : v.Within B) {f : PendingFade Rat} {dt : Rat} (hf : dt ≤ f.delay) :
    (v.fadeSooner f dt).Within B := by
  refine ⟨h.levels, h.gain, ?_⟩
  rintro _ ⟨⟩
  exact sub_nonneg.mpr hf

theorem kill {β : Type} [AudioBackend Rat β] (h : v.Within B) (b : β) :
    (v.kill b).1.Within B := by
  unfold Voice.kill
  split
  · exact h
  · exact ⟨h.levels, h.gain, nofun⟩

theorem unheard {levels : Levels Rat} (h : levels.Within B) (handle : Handle) (clip : String)
    (fadeIn : Rat) (source : Source) : (unheard handle clip levels fadeIn source).Within B :=
  ⟨h, within_openingGain levels fadeIn, nofun⟩

theorem reloaded (h : v.Within B) {volume : Rat} {pitch : Option Rat} (hv : volume ∈ B.volume)
    (hp : ∀ x ∈ pitch, x ∈ B.pitch) (clip : String) (fadeIn : Rat) :
    (v.reloaded clip volume pitch fadeIn).Within B := by
  have hbase : ({ v.levels with
      baseVolume := volume, basePitch := pitch.getD v.levels.basePitch } : Levels Rat).Within B :=
    { baseVolume := hv
      basePitch := by
        cases pitch with
        | none => exact h.levels.basePitch
        | some x => exact hp x rfl
      volumeRun := h.levels.volumeRun
      pitchRun := h.levels.pitchRun }
  exact ⟨hbase.rewindGoto v.source, within_openingGain _ fadeIn, nofun⟩

variable [Easing Rat]

theorem shape (h : v.Within B) {dt : Rat} (hdt : 0 ≤ dt) :
    (v.shape dt).1.Within B ∧ (v.shape dt).2.1 ∈ B.volume ∧ (v.shape dt).2.2 ∈ B.pitch := by
  obtain ⟨hl, hv⟩ := h.levels.volume dt v.source
  obtain ⟨hl', hp⟩ := hl.pitch dt (v.levels.volume dt v.source).2
  have hg := h.gain.advance hdt
  refine ⟨⟨hl', hg, h.ahead⟩, ?_, hp⟩
  have hmem := B.convex_volume.smul_mem_of_zero_mem B.silence_mem hv hg.level
  rwa [smul_eq_mul, mul_comm] at hmem

theorem stepped (h : v.Within B) {dt : Rat} (hdt : 0 ≤ dt) :
    (v.stepped dt).Within B ∧ ∀ c ∈ v.stepTells dt, c.Within B := by
  obtain ⟨hs, hv, hp⟩ := h.shape hdt
  obtain ⟨-, he, ht⟩ | ⟨-, -, he, ht⟩ | ⟨release, -, -, he, ht⟩ := v.stepped_cases dt <;>
    rw [he, ht]
  · exact ⟨hs, fun c hc => absurd hc List.not_mem_nil⟩
  · exact ⟨⟨hs.levels, hs.gain, hs.ahead⟩, by simp [Cue.Within, hv, hp]⟩
  · refine ⟨⟨hs.levels, hs.gain, hs.ahead⟩, ?_⟩
    cases release <;> simp [Cue.farewell, Cue.Within, hv, hp]

theorem next (h : v.Within B) (dt : Rat) :
    (v.next dt).Within B ∧ ∀ c ∈ v.tells dt, c.Within B := by
  have hdt : 0 ≤ Scalar.larger dt 0 := by
    rw [Fraction.larger_eq]
    exact le_max_right dt 0
  obtain ⟨-, he, ht⟩ | ⟨-, -, he, ht⟩ | ⟨f, before, rest, -, hf, -, hb, hr, he, ht⟩ |
      ⟨f, -, hf, hd, he, ht⟩ := v.next_cases dt <;> rw [he, ht]
  · exact ⟨h, fun c hc => absurd hc List.not_mem_nil⟩
  · exact h.stepped hdt
  · have hbefore : 0 ≤ before := by
      rw [hb, Fraction.smaller_eq]
      exact le_min (h.ahead f hf) hdt
    have hrest : 0 ≤ rest := by
      rw [hr, Fraction.larger_eq]
      exact le_max_right _ _
    obtain ⟨h₁, ht₁⟩ := h.stepped hbefore
    obtain ⟨h₂, ht₂⟩ := (h₁.fadeNow f).stepped hrest
    exact ⟨h₂, List.forall_mem_append.mpr ⟨ht₁, ht₂⟩⟩
  · have htol := Fraction.tolerance_pos
    exact (h.fadeSooner (by linarith [not_le.mp hd])).stepped hdt

end Within

end Voice

end Soundscape
