import Soundscape.Interpolation.Levels
import Soundscape.Proofs.Interpolation.Elapsed

/-!
# Two levels on one source

The runs of volume and pitch draw from one source, so the words that one of them gets depend on how
many the other has taken by then.  A step cut in two gives the same as the whole one if the pitch
draws nothing in the first part or the volume nothing in the second; else the runs may swap words
and everything drawn after that differs.
-/

namespace Soundscape

/-! ## Computations that draw nothing -/

theorem Source.skip_succ_ne_self (n : Nat) (s : Source) : s.skip (n + 1) ≠ s := by
  have hstream (key : ChaCha.Key) (n i : Nat) :
      (Source.stream key i).skip n = .stream key (i + 2 * n) := by
    induction n generalizing i with
    | zero => rfl
    | succ n ih =>
      rw [Source.skip, Source.next, ih]
      congr 1
      omega
  have hscript (words : List UInt64) (n i : Nat) :
      (Source.script words i).skip n = .script words (i + n) := by
    induction n generalizing i with
    | zero => rfl
    | succ n ih =>
      rw [Source.skip, Source.next, ih]
      congr 1
      omega
  intro h
  cases s with
  | stream key i =>
    rw [hstream] at h
    injection h with _ h
    omega
  | script words i =>
    rw [hscript] at h
    injection h with _ h
    omega

namespace Draw

variable {A B : Type}

/-- From every source the computation takes some words in turn, and where it takes none its result
is the one that it has from any source. -/
def InTurn (f : Draw A) : Prop :=
  ∀ s, ∃ n, (f s).2 = s.skip n ∧ (n = 0 → ∀ u, f u = ((f s).1, u))

namespace InTurn

theorem pure (a : A) : InTurn (Pure.pure a : Draw A) :=
  fun _ => ⟨0, rfl, fun _ _ => rfl⟩

theorem bind {f : Draw A} {g : A → Draw B} (hf : InTurn f) (hg : ∀ a, InTurn (g a)) :
    InTurn (f >>= g) := by
  intro s
  obtain ⟨n, hn, hf⟩ := hf s
  obtain ⟨m, hm, hg⟩ := hg (f s).1 (f s).2
  refine ⟨n + m, ?_, fun h u => ?_⟩
  · show (g (f s).1 (f s).2).2 = _
    rw [hm, hn, Source.skip_add]
  · show g (f u).1 (f u).2 = ((g (f s).1 (f s).2).1, u)
    rw [hf (by omega) u, hg (by omega) u]

theorem ite {c : Prop} [Decidable c] {f g : Draw A} (hf : InTurn f) (hg : InTurn g) :
    InTurn (if c then f else g) := by
  split
  · exact hf
  · exact hg

theorem eq_of_still {f : Draw A} (hf : InTurn f) {s : Source} (h : (f s).2 = s) (u : Source) :
    f u = ((f s).1, u) := by
  obtain ⟨n, hn, hf⟩ := hf s
  cases n with
  | zero => exact hf rfl u
  | succ n => exact absurd (hn.symm.trans h) (Source.skip_succ_ne_self n s)

end InTurn

end Draw

open Draw (InTurn)

section Runs

variable {α : Type} [Scalar α]

theorem Quantity.inTurn_sample (q : Quantity α) : InTurn q.sample := by
  cases q with
  | unset => exact .pure _
  | fixed v => exact .pure _
  | range low high => exact .ite (fun s => ⟨1, rfl, nofun⟩) (.pure _)

namespace Playhead

theorem inTurn_resample (p : Playhead α) : InTurn p.resample :=
  p.spec.low.inTurn_sample.bind fun _ => p.spec.high.inTurn_sample.bind fun _ =>
    p.spec.duration.inTurn_sample.bind fun _ => .pure _

theorem inTurn_turn (p : Playhead α) : InTurn p.turn := by
  have hnext (q : Playhead α) : InTurn (do return Turn.passed (← q.resample)) :=
    q.inTurn_resample.bind fun _ => .pure _
  exact .ite (.ite (.pure _) (.ite (hnext _) (.ite (.pure _) (hnext _)))) (.pure _)

def Turn.carryOn (f : Playhead α → Draw (Turn α)) : Turn α → Draw (Turn α)
  | .passed q => f q
  | outcome => pure outcome

theorem inTurn_settle (n : Nat) (p : Playhead α) : InTurn (settle n p) := by
  induction n generalizing p with
  | zero => exact .pure _
  | succ n ih =>
    have heq : settle (n + 1) p = p.turn >>= Turn.carryOn (settle n) := by
      funext s
      show settle (n + 1) p s = Turn.carryOn (settle n) (p.turn s).1 (p.turn s).2
      unfold settle
      generalize p.turn s = x
      obtain ⟨q | q | q, u⟩ := x <;> rfl
    rw [heq]
    refine p.inTurn_turn.bind fun outcome => ?_
    obtain q | q | q := outcome
    · exact .pure _
    · exact .pure _
    · exact ih q

theorem inTurn_advance [Easing α] (p : Playhead α) (d : α) : InTurn (p.advance d) := by
  have heq : p.advance d = if p.active then
        settle { p with time := p.time + d }.turnBound { p with time := p.time + d } >>= fun
        | .within q | .passed q => pure q.level
        | .over q => pure (q, q.cycleEnd)
      else pure (p, p.restingValue) := by
    funext s
    unfold advance
    split
    · show _ = (match (settle _ _ s).1 with
        | .within q | .passed q => pure q.level
        | .over q => pure (q, q.cycleEnd) : Draw (Playhead α × α)) (settle _ _ s).2
      dsimp only
      generalize settle { p with time := p.time + d }.turnBound { p with time := p.time + d } s = x
      obtain ⟨q | q | q, u⟩ := x <;> rfl
    · rfl
  rw [heq]
  refine .ite ((inTurn_settle _ _).bind fun outcome => ?_) (.pure _)
  cases outcome <;> exact .pure _

end Playhead

end Runs

/-! ## Endless runs -/

namespace Playhead

/-- A run that is on and never ends, because all its cycles have a length and it has no last one. -/
structure Endless (p : Playhead Rat) : Prop where
  active : p.active = true
  forever : p.spec.forever = true
  roams : p.spec.motion ≠ .goto
  long : 0 < p.duration
  longer : ∀ s, 0 < (p.spec.duration.sample s).1
  begun : 0 ≤ p.time

variable {p q : Playhead Rat} {s u : Source} {t d e : Rat} {k : Nat}

theorem Endless.not_over (h : Endless p) : ¬ Over p s t k q u := by
  intro ho
  have hlong : 0 < q.duration := by
    rw [ho.duration]
    cases k with
    | zero => exact h.long
    | succ k =>
      obtain ⟨s', hs'⟩ := exists_duration_eq p k s
      exact hs' ▸ h.longer s'
  exact Bool.false_ne_true ((ho.done ⟨h.roams, hlong⟩).1.symm.trans h.forever)

variable [Easing Rat]

theorem Endless.exists_under (h : Endless p) (hd : 0 ≤ d) :
    ∃ r v i, p.advance d s = (r.level, v) ∧ Under p s (p.time + d) i r v ∧
      p.time + d < p.span s (i + 1) := by
  obtain h' | ⟨r, x, v, i, -, hr⟩ := (onCourse_self h.active h.begun).advance hd
  · exact h'
  · exact absurd hr h.not_over

theorem Endless.active_advance (h : Endless p) (hd : 0 ≤ d) (s : Source) :
    (p.advance d s).1.1.active = true := by
  obtain ⟨r, v, i, heq, hr, -⟩ := h.exists_under (s := s) hd
  rw [heq]
  exact hr.level.active

theorem Endless.advance_advance (h : Endless p) (hd : 0 ≤ d) (he : 0 ≤ e) (s : Source) :
    (p.advance d s).1.1.advance e (p.advance d s).2 = p.advance (d + e) s := by
  obtain ⟨q, u, i, hq, hunder, -⟩ := h.exists_under (s := s) hd
  obtain ⟨r, v, j, hr, hr', hlt⟩ := h.exists_under (s := s) (add_nonneg hd he)
  have hon : OnCourse p s (p.time + d) q.level.1 u := ⟨i, .inl hunder.level⟩
  rw [hq, hr]
  obtain ⟨r', v', j', heq, hr'', hlt'⟩ | ⟨_, _, _, _, -, ho⟩ := hon.advance he
  · rw [add_assoc] at hr'' hlt'
    obtain rfl := Stands.unique (.inl ⟨hr', hlt⟩) (.inl ⟨hr'', hlt'⟩)
    rw [heq, hr'.level_congr hr'', hr'.source, hr''.source]
  · exact absurd ho h.not_over

end Playhead

/-! ## Both levels -/

namespace Levels

/-- The levels after a step of time, the volume's first. -/
def both {α : Type} [Scalar α] [Easing α] (l : Levels α) (d : α) : Draw (Levels α × α × α) := do
  let (l, v) ← l.volume d
  let (l, w) ← l.pitch d
  pure (l, v, w)

open Playhead (Endless)

section Steps

variable [Easing Rat] {p q : Playhead Rat} {base base' d e : Rat} {s : Source}

theorem axis_of_active (h : p.active = true) (base d : Rat) (s : Source) :
    axis (some p) base d s =
      ((some (p.advance d s).1.1, (p.advance d s).1.2), (p.advance d s).2) := by
  unfold axis
  dsimp only
  rw [h, Bool.or_true, if_pos rfl]
  rfl

theorem volume_of_active (h : p.active = true) (r : Option (Playhead Rat)) (d : Rat) (s : Source) :
    (Levels.mk base base' (some p) r).volume d s =
      ((⟨base, base', some (p.advance d s).1.1, r⟩, (p.advance d s).1.2), (p.advance d s).2) := by
  have heq : (Levels.mk base base' (some p) r).volume d s =
      let x := axis (some p) base d s
      ((⟨base, base', x.1.1, r⟩, x.1.2), x.2) := rfl
  rw [heq, axis_of_active h]

theorem pitch_of_active (h : q.active = true) (r : Option (Playhead Rat)) (d : Rat) (s : Source) :
    (Levels.mk base base' r (some q)).pitch d s =
      ((⟨base, base', r, some (q.advance d s).1.1⟩, (q.advance d s).1.2), (q.advance d s).2) := by
  have heq : (Levels.mk base base' r (some q)).pitch d s =
      let x := axis (some q) base' d s
      ((⟨base, base', r, x.1.1⟩, x.1.2), x.2) := rfl
  rw [heq, axis_of_active h]

theorem both_of_active (hp : p.active = true) (hq : q.active = true) (d : Rat) (s : Source) :
    (Levels.mk base base' (some p) (some q)).both d s =
      let x := p.advance d s
      let y := q.advance d x.2
      ((⟨base, base', some x.1.1, some y.1.1⟩, x.1.2, y.1.2), y.2) := by
  have heq : (Levels.mk base base' (some p) (some q)).both d s =
      let x := (Levels.mk base base' (some p) (some q)).volume d s
      let y := x.1.1.pitch d x.2
      ((y.1.1, x.1.2, y.1.2), y.2) := rfl
  rw [heq, volume_of_active hp]
  dsimp only
  rw [pitch_of_active hq]

/-- Two endless runs over a step cut in two come to the same as over the whole step, if the pitch
draws nothing in the first part or the volume nothing in the second. -/
theorem both_both (hp : Endless p) (hq : Endless q) (hd : 0 ≤ d) (he : 0 ≤ e) :
    let l : Levels Rat := ⟨base, base', some p, some q⟩
    let x := l.volume d s
    let y := x.1.1.pitch d x.2
    y.2 = x.2 ∨ (y.1.1.volume e y.2).2 = y.2 →
      (l.both d s).1.1.both e (l.both d s).2 = l.both (d + e) s := by
  intro l x y hstill
  have hp' := hp.active_advance hd s
  have hq' := hq.active_advance hd (p.advance d s).2
  unfold y x l at hstill
  rw [volume_of_active hp.active] at hstill
  dsimp only at hstill
  rw [pitch_of_active hq.active] at hstill
  dsimp only at hstill
  rw [volume_of_active hp'] at hstill
  rw [both_of_active hp.active hq.active, both_of_active hp' hq',
    both_of_active hp.active hq.active, ← hp.advance_advance hd he s]
  dsimp only at hstill ⊢
  -- The pitch and the second part of the volume may change places where one of them draws nothing.
  rcases hstill with hstill | hstill
  · rw [hstill, ← hq.advance_advance hd he,
      (q.inTurn_advance d).eq_of_still hstill ((p.advance d s).1.1.advance e (p.advance d s).2).2]
  · have hvolume := ((p.advance d s).1.1.inTurn_advance e).eq_of_still hstill (p.advance d s).2
    rw [hstill, hvolume, ← hq.advance_advance hd he]

end Steps

/-- The volume begins a cycle in each part of the step, the pitch none in the first. -/
theorem both_both_longPitch :
    let _ : Easing Rat := ⟨fun _ x => x⟩
    let i : Interpolation Rat :=
      ⟨.interpolate, .range 0 1, .fixed 1, .fixed 1, "linear", .linear, 1, true⟩
    let l := (start 1 1 (some i) (some { i with duration := .fixed 2 }) (.ofWords [0, 5, 7])).1
    let s := (start 1 1 (some i) (some { i with duration := .fixed 2 }) (.ofWords [0, 5, 7])).2
    let x := l.volume (3 / 2) s
    (∀ p ∈ l.volumeRun, Endless p) ∧ (∀ p ∈ l.pitchRun, Endless p) ∧
      (x.1.1.pitch (3 / 2) x.2).2 = x.2 ∧
      (l.both (3 / 2) s).1.1.both 1 (l.both (3 / 2) s).2 = l.both (3 / 2 + 1) s := by
  intro _ i l s x
  have hp : Endless (Playhead.start i (.ofWords [0, 5, 7])).1 :=
    ⟨rfl, rfl, nofun, rfl, fun _ => rfl, le_rfl⟩
  have hq : Endless (Playhead.start { i with duration := .fixed 2 }
      (Playhead.start i (.ofWords [0, 5, 7])).2).1 :=
    ⟨rfl, rfl, nofun, rfl, fun _ => rfl, le_rfl⟩
  have hstill : (x.1.1.pitch (3 / 2) x.2).2 = x.2 := by decide +kernel
  exact ⟨fun _ h => Option.some_inj.mp h ▸ hp, fun _ h => Option.some_inj.mp h ▸ hq, hstill,
    both_both hp hq (by norm_num) (by norm_num) (.inl hstill)⟩

/-- Both levels begin a cycle each second.  Over two steps of a second the volume begins its second
cycle with the word that the pitch takes for its first over one step of two seconds. -/
theorem both_both_swapped :
    let _ : Easing Rat := ⟨fun _ x => x⟩
    let i : Interpolation Rat :=
      ⟨.interpolate, .range 0 1, .fixed 1, .fixed 1, "linear", .linear, 1, true⟩
    let x := start 1 1 (some i) (some i) (.ofWords [0, 0, 0, 0xffffffffffffffff])
    let y := x.1.both 1 x.2
    let z := y.1.1.both 1 y.2
    let w := x.1.both (1 + 1) x.2
    (∀ p ∈ x.1.volumeRun, Endless p) ∧ (∀ p ∈ x.1.pitchRun, Endless p) ∧
      (z.1.1.volumeRun.map Playhead.low, z.1.2) = (some 0, 0, 0) ∧
      (w.1.1.volumeRun.map Playhead.low, w.1.2) = (some 1, 1, 0) := by
  intro _ i x y z w
  refine ⟨fun p hp => ?_, fun p hp => ?_, by decide +kernel, by decide +kernel⟩
  · obtain rfl := Option.some_inj.mp hp
    exact ⟨rfl, rfl, nofun, rfl, fun _ => rfl, le_rfl⟩
  · obtain rfl := Option.some_inj.mp hp
    exact ⟨rfl, rfl, nofun, rfl, fun _ => rfl, le_rfl⟩

end Levels

end Soundscape
