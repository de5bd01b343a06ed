import Soundscape.Proofs.Player.Listener
import Soundscape.Proofs.Player.Turns
import Soundscape.Proofs.Voice.Sketch

/-!
# The timeline of a one-shot

When a one-shot that repeats should fire is a matter of its statement and its seed alone
(`Statement.timeline`): for each firing it draws its sound and then its wait, whatever the backend
answers.  A player in its n-th wait has drawn just what the timeline has drawn by then
(`Player.Ready`), and its firing takes it one place on, unless the clip cannot be had
(`Player.Ready.fire`).  This is so for sounds that are let go and for a sound that is held.
-/

namespace Soundscape

/-! ### Cues that play -/

def Cue.isPlay {α : Type} : Cue α → Bool
  | .play _ => true
  | _ => false

def Listener.plays {α β : Type} (l : Listener α β) : Nat := l.heard.countP Cue.isPlay

theorem Listener.plays_tellAll {α β : Type} [AudioBackend α β] (l : Listener α β) (h : Handle)
    (cs : List (Cue α)) : (tellAll l h cs).plays = l.plays + cs.countP Cue.isPlay := by
  rw [plays, heard_tellAll, List.countP_append]
  rfl

namespace Voice

variable {α : Type}

theorem countP_hush (v : Voice α) : v.hush.countP Cue.isPlay = 0 :=
  List.countP_eq_zero.mpr fun c hc => by simp [mem_hush hc, Cue.isPlay]

variable [Scalar α] [Easing α]

theorem countP_stepTells (dt : α) (v : Voice α) : (v.stepTells dt).countP Cue.isPlay = 0 := by
  obtain ⟨-, -, ht⟩ | ⟨-, -, -, ht⟩ | ⟨release, -, -, -, ht⟩ := v.stepped_cases dt <;> rw [ht]
  · rfl
  · rfl
  · cases release <;> rfl

theorem countP_tells (dt : α) (v : Voice α) : (v.tells dt).countP Cue.isPlay = 0 := by
  obtain ⟨-, -, ht⟩ | ⟨-, -, -, ht⟩ | ⟨f, before, rest, -, -, -, -, -, -, ht⟩ |
    ⟨f, -, -, -, -, ht⟩ := v.next_cases dt <;> rw [ht]
  · rfl
  · exact countP_stepTells _ v
  · rw [List.countP_append, countP_stepTells, countP_stepTells]
  · exact countP_stepTells _ _

/-! ### Whether an interpolation moves the pitch -/

theorem movesPitch_stepped (dt : α) (v : Voice α) :
    (v.stepped dt).levels.movesPitch = v.levels.movesPitch := by
  rw [← (v.shape_kinds dt).2]
  obtain ⟨-, hv, -⟩ | ⟨-, -, hv, -⟩ | ⟨_, -, -, hv, -⟩ := v.stepped_cases dt <;> rw [hv]

omit [Easing α] in
theorem levels_fadeNow (f : PendingFade α) (v : Voice α) : (v.fadeNow f).levels = v.levels := by
  unfold fadeNow beginFadeOut
  split <;> rfl

theorem movesPitch_next (dt : α) (v : Voice α) :
    (v.next dt).levels.movesPitch = v.levels.movesPitch := by
  obtain ⟨-, hn, -⟩ | ⟨-, -, hn, -⟩ | ⟨f, before, rest, -, -, -, -, -, hn, -⟩ |
      ⟨f, -, -, -, hn, -⟩ := v.next_cases dt <;> rw [hn]
  · exact movesPitch_stepped _ v
  · rw [movesPitch_stepped, levels_fadeNow, movesPitch_stepped]
  · exact movesPitch_stepped _ _

omit [Easing α] in
theorem movesPitch_reloaded (clip : String) (volume : α) (pitch : Option α) (fadeIn : α)
    (v : Voice α) :
    (v.reloaded clip volume pitch fadeIn).levels.movesPitch = v.levels.movesPitch :=
  congrArg Sketch.movesPitch (v.sketch_reloaded clip volume pitch fadeIn)

end Voice

/-! ### The timeline of a statement -/

theorem Draw.bind_apply {A B : Type} (x : Draw A) (f : A → Draw B) (source : Source) :
    (x >>= f) source = f (x source).1 (x source).2 := rfl

namespace Statement

variable {α : Type} [Scalar α]

/-- What is drawn for the n-th sound of a one-shot, counted from zero: a sound that is held is
opened once, and then started again. -/
def drawSound (s : Statement α) (n : Nat) : Draw Unit := do
  if s.overlap ∨ n = 0 then
    let _ ← Clip.resolve s.clip
    let _ ← Player.drawOpening s
  else
    let _ ← Player.drawRestart s s.pitchInterpolation.isSome
  let _ ← s.fadeOut.sampleOr 0

/-- What is drawn as a one-shot fires for the n-th time: all that its sound needs, and then the time
until it fires again. -/
def drawWait (s : Statement α) (n : Nat) : Draw α := do
  s.drawSound n
  let wait ← s.every.sample
  pure (Scalar.larger wait Player.shortestCycle)

/-- When a one-shot fires for the n-th time, counted from zero, and where its draws then come
from: after its start, and as many waits. -/
def timeline (s : Statement α) (source : Source) : Nat → α × Source
  | 0 =>
    let (delay, source) := s.startsAt.sampleOr 0 source
    (Scalar.larger delay 0, source)
  | n + 1 =>
    let (time, source) := s.timeline source n
    let (wait, source) := s.drawWait n source
    (time + wait, source)

theorem drawSound_of_opening {s : Statement α} {n : Nat} (h : s.overlap ∨ n = 0)
    (source : Source) :
    (s.drawSound n source).2 = (s.fadeOut.sampleOr 0
      (Player.drawOpening s (Clip.resolve s.clip source).2).2).2 := by
  unfold drawSound
  rw [if_pos h, Draw.bind_apply, Draw.bind_apply]
  rfl

theorem drawSound_of_restart {s : Statement α} {n : Nat} (h : ¬ (s.overlap ∨ n = 0))
    (source : Source) :
    (s.drawSound n source).2 =
      (s.fadeOut.sampleOr 0 (Player.drawRestart s s.pitchInterpolation.isSome source).2).2 := by
  unfold drawSound
  rw [if_neg h, Draw.bind_apply]
  rfl

end Statement

namespace Player

variable {α : Type} [Scalar α]

/-- A player whose sound was drawn waits for as long as is drawn next. -/
theorem waitForNext_of_drawn {s : Statement α} {n : Nat} {source : Source} {p : Player α}
    (hs : p.statement = s) (hp : p.source = (s.drawSound n source).2) :
    p.waitForNext = { p with
      state := .waitingForNext (s.drawWait n source).1, source := (s.drawWait n source).2 } := by
  subst hs
  unfold waitForNext
  rw [hp]
  rfl

theorem movesPitch_drawOpening (s : Statement α) (source : Source) :
    (drawOpening s source).1.2.1.movesPitch = s.pitchInterpolation.isSome := by
  have hstart (volume pitch : α) (volumeRun pitchRun : Option (Interpolation α)) (r : Source) :
      (Levels.start volume pitch volumeRun pitchRun r).1.movesPitch = pitchRun.isSome := by
    cases pitchRun <;> rfl
  exact hstart _ _ s.volumeInterpolation s.pitchInterpolation _

theorem fadeCycle_cases {β : Type} [AudioBackend α β] (fallback : α) (p : Player α) (v : Voice α)
    (b : β) :
    ∃ f, MakesDue false f ∧ p.fadeCycle fallback v b =
      ({ p with source := (p.statement.fadeOut.sampleOr 0 p.source).2 }, f v) := by
  by_cases hd : (p.statement.fadeOut.sampleOr 0 p.source).1 ≤ 0
  · exact ⟨_, .nothing, if_pos hd⟩
  · exact ⟨_, .fade _ _, if_neg hd⟩

theorem MakesDue.fades {release : Bool} {f : Voice α → Voice α} (hf : MakesDue release f)
    {v : Voice α} (hs : v.state = .playing) (hp : v.pending = none) : (f v).Fades release := by
  cases hf with
  | nothing => exact .of_playing hs fun g hg => by simp [hp] at hg
  | fade delay length => exact .scheduleFadeOut hs delay length

theorem MakesDue.levels {release : Bool} {f : Voice α → Voice α} (hf : MakesDue release f)
    (v : Voice α) : (f v).levels = v.levels := by
  cases hf <;> rfl

/-! ### Firing -/

/-- A player that has fired some times, all as the timeline of its statement says, and waits to fire
again. -/
structure Ready (s : Statement α) (source : Source) (n : Nat) (p : Player α) : Prop where
  statement : p.statement = s
  draws : p.source = (s.timeline source n).2
  state : ∃ r, p.state = if n = 0 then .waitingToStart r else .waitingForNext r
  /-- It holds no sound if it has not fired, or lets its sounds go. -/
  empty : s.overlap ∨ n = 0 → p.voice = none
  /-- A sound that it holds never gives its handle back. -/
  holds : ¬ (s.overlap ∨ n = 0) → ∃ v, p.voice = some v ∧ v.Fades false ∧
    v.levels.movesPitch = s.pitchInterpolation.isSome

variable {s : Statement α} {source : Source} {n : Nat} {p : Player α}

theorem ready_new (id : Nat) (s : Statement α) (source : Source) :
    (new id s source).Ready s source 0 where
  statement := rfl
  draws := rfl
  state := ⟨_, rfl⟩
  empty _ := rfl
  holds h := absurd (.inr rfl) h

variable [Easing α] {β : Type} [AudioBackend α β] {l : Listener α β}

/-- What a firing comes to: its clip cannot be had, or the player is ready for the next one. -/
inductive Fires (s : Statement α) (source : Source) (n : Nat) (l : Listener α β) :
    Player α → Listener α β → Prop where
  | refused {p : Player α} {l' : Listener α β} :
    l.refusals.length < l'.refusals.length → Fires s source n l p l'
  | fired {p : Player α} {l' : Listener α β} : p.Ready s source (n + 1) →
    p.wait? = some (s.drawWait n (s.timeline source n).2).1 → l'.plays = l.plays + 1 →
    l'.refusals = l.refusals → Fires s source n l p l'

omit [Easing α] [AudioBackend α β] in
theorem Fires.waitForNext (h : p.Ready s source n) {q : Player α} {l' : Listener α β}
    (hs : q.statement = s) (hq : q.source = (s.drawSound n p.source).2)
    (hv : if s.overlap then q.voice = none else ∃ v, q.voice = some v ∧ v.Fades false ∧
      v.levels.movesPitch = s.pitchInterpolation.isSome)
    (hplays : l'.plays = l.plays + 1) (hrefusals : l'.refusals = l.refusals) :
    Fires s source n l q.waitForNext l' := by
  rw [h.draws] at hq
  rw [waitForNext_of_drawn hs hq]
  refine .fired ⟨hs, rfl, ⟨_, rfl⟩, fun ho => ?_, fun ho => ?_⟩ rfl hplays hrefusals
  · rwa [if_pos (ho.resolve_right n.succ_ne_zero)] at hv
  · rwa [if_neg fun h => ho (.inl h)] at hv

theorem openVoice_cases (p : Player α) (l : Listener α β) :
    (∃ q l', p.openVoice false l = (q, none, l') ∧ l.refusals.length < l'.refusals.length) ∨
    ∃ v l', p.openVoice false l = ({ p with source := p.draws.2.2 }, some v, l') ∧
      v.state = .playing ∧ v.pending = none ∧
      v.levels.movesPitch = p.statement.pitchInterpolation.isSome ∧
      l'.plays = l.plays + 1 ∧ l'.refusals = l.refusals := by
  have hheard := l.heard_acquire p.draws.1.1
  rcases ha : AudioBackend.acquire l p.draws.1.1 with ⟨e | h, l'⟩ <;> rw [ha] at hheard
  · refine .inl ⟨_, l', openVoice_of_error ha false, ?_⟩
    rw [Listener.refusals_of_error ha, List.length_append]
    exact Nat.lt_add_of_pos_right Nat.one_pos
  · refine .inr ⟨_, _, openVoice_of_ok ha false, opened_state .., opened_pending .., ?_, ?_, ?_⟩
    · exact (Voice.movesPitch_stepped 0 _).trans (movesPitch_drawOpening _ _)
    · have hcount : (overture h p.draws.1.1 p.draws.2.1 false).countP Cue.isPlay = 1 := by
        rw [overture_eq]
        rfl
      rw [Listener.plays_tellAll, hcount, Listener.plays, hheard]
      rfl
    · rw [Listener.refusals_tellAll, Listener.refusals_of_ok ha]

theorem restart_cases {clip : String} {volume : α} {pitch : Option α} {fadeIn : α} {v v' : Voice α}
    {e : Except BackendError Unit} {l' : Listener α β} (hv : v.Fades false)
    (h : v.restart clip volume pitch fadeIn l = (e, v', l')) :
    ((∃ x, e = .error x) ∧ l.refusals.length < l'.refusals.length) ∨
    (e = .ok () ∧ v'.state = .playing ∧ v'.pending = none ∧
      v'.levels.movesPitch = v.levels.movesPitch ∧ l'.plays = l.plays + 1 ∧
      l'.refusals = l.refusals) := by
  obtain ⟨hr, -⟩ | ⟨-, x, he, -, -, hl⟩ | ⟨-, he, rfl, hheard, hl⟩ := Listener.restart_cases h
  · have hfalse := hv.released (by simpa [Voice.isReleased] using hr)
    cases hfalse
  · refine .inl ⟨⟨x, he⟩, ?_⟩
    rw [hl, List.length_append]
    exact Nat.lt_add_of_pos_right Nat.one_pos
  · refine .inr ⟨he, Voice.stepped_state_of_playing rfl 0, Voice.stepped_pending .., ?_, ?_, hl⟩
    · rw [Voice.movesPitch_stepped, Voice.movesPitch_reloaded]
    · rw [Listener.plays, hheard, List.countP_append, List.countP_append, List.countP_append,
        Voice.countP_hush, Voice.countP_stepTells, zero_add, zero_add]
      rfl

theorem Ready.fire_overlap (h : p.Ready s source n) (hk : s.kind = .oneshot) (he : s.every.isSet)
    (ho : s.overlap) (fallback : α) (l : Listener α β) :
    Fires s source n l (p.fire fallback l).1 (p.fire fallback l).2.2 := by
  obtain rfl := h.statement
  have hfire : p.fire fallback l =
      (if (p.openTransient fallback l).2.1.isSome then (p.openTransient fallback l).1.waitForNext
        else (p.openTransient fallback l).1.terminate,
        (p.openTransient fallback l).2.1, (p.openTransient fallback l).2.2) := by
    simp only [fire, hk, he, ho, Bool.not_true, Bool.false_eq_true, if_false, if_true]
  rw [hfire]
  obtain ⟨q, l', hopen, hr⟩ | ⟨v, l', hopen, -, -, -, hplays, hrefusals⟩ := p.openVoice_cases l
  · simp only [openTransient, hopen]
    exact .refused hr
  · simp only [openTransient, hopen]
    refine .waitForNext h rfl ?_ ?_ hplays hrefusals
    · exact (Statement.drawSound_of_opening (.inl ho) p.source).symm
    · rw [if_pos ho]
      exact h.empty (.inl ho)

theorem Ready.fire_first (h : p.Ready s source 0) (hk : s.kind = .oneshot) (he : s.every.isSet)
    (ho : s.overlap = false) (fallback : α) (l : Listener α β) :
    Fires s source 0 l (p.fire fallback l).1 (p.fire fallback l).2.2 := by
  obtain rfl := h.statement
  obtain ⟨r, hstate⟩ := h.state
  have hfire : p.fire fallback l =
      ((p.startHeld fallback l).1, none, (p.startHeld fallback l).2) := by
    simp only [fire, hk, he, ho, hstate, Bool.not_true, Bool.false_eq_true, if_false, if_true]
  rw [hfire]
  obtain ⟨q, l', hopen, hr⟩ | ⟨v, l', hopen, hs, hp, hm, hplays, hrefusals⟩ := p.openVoice_cases l
  · simp only [startHeld, hopen]
    exact .refused hr
  · obtain ⟨f, hf, hfade⟩ := fadeCycle_cases fallback { p with source := p.draws.2.2 } v l'
    simp only [startHeld, hopen, hfade]
    refine .waitForNext h rfl ?_ ?_ hplays hrefusals
    · exact (Statement.drawSound_of_opening (.inr rfl) p.source).symm
    · rw [if_neg (by simp [ho])]
      exact ⟨f v, rfl, hf.fades hs hp, by rw [hf.levels, hm]⟩

theorem Ready.fire_again (h : p.Ready s source (n + 1)) (hk : s.kind = .oneshot)
    (he : s.every.isSet) (ho : s.overlap = false) (fallback : α) (l : Listener α β) :
    Fires s source (n + 1) l (p.fire fallback l).1 (p.fire fallback l).2.2 := by
  obtain rfl := h.statement
  obtain ⟨r, hstate⟩ := h.state
  have hheld : ¬ (p.statement.overlap = true ∨ n + 1 = 0) := by simp [ho]
  obtain ⟨v, hvoice, hfades, hm⟩ := h.holds hheld
  have hfire : p.fire fallback l =
      ((p.restartHeld fallback l).1, none, (p.restartHeld fallback l).2) := by
    simp only [fire, hk, he, ho, hstate, Bool.not_true, Bool.false_eq_true, if_false,
      n.succ_ne_zero]
  have hdrawn := Statement.drawSound_of_restart hheld p.source
  rw [← hm] at hdrawn
  have hp : p.having (some v) = p := by rw [← hvoice, having_self]
  rw [hfire, ← hp]
  rcases hd : p.drawsAgain v with ⟨⟨clip, pitch, volume, fadeIn⟩, spent⟩
  rcases hr : v.restart clip volume pitch fadeIn l with ⟨x, v', l'⟩
  obtain ⟨⟨e, rfl⟩, hl⟩ | ⟨rfl, hs', hp', hm', hplays, hrefusals⟩ := restart_cases hfades hr
  · rw [restartHeld_of_error hd hr]
    refine .refused ?_
    rwa [Listener.refusals_kill]
  · obtain ⟨f, hf, hfade⟩ :=
      fadeCycle_cases fallback ({ p with source := spent }.having (some v)) v' l'
    rw [restartHeld_of_ok hd hr]
    simp only [hfade, ← waitForNext_having]
    refine .waitForNext h rfl ?_ ?_ hplays hrefusals
    · rw [hdrawn, show drawRestart p.statement v.levels.movesPitch p.source = _ from hd]
      rfl
    · rw [if_neg (by simp [ho])]
      exact ⟨f v', rfl, hf.fades hs' hp', by rw [hf.levels, hm', hm]⟩

/-- A firing takes the player one place on, unless its clip cannot be had. -/
theorem Ready.fire (h : p.Ready s source n) (hk : s.kind = .oneshot) (he : s.every.isSet)
    (fallback : α) (l : Listener α β) :
    Fires s source n l (p.fire fallback l).1 (p.fire fallback l).2.2 := by
  cases ho : s.overlap with
  | true => exact h.fire_overlap hk he ho fallback l
  | false =>
    cases n with
    | zero => exact h.fire_first hk he ho fallback l
    | succ n => exact h.fire_again hk he ho fallback l

end Player

end Soundscape
