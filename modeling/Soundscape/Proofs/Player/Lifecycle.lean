import Soundscape.Proofs.Player.Seam

/-!
# The states of a player

Each way to play a clip goes through some of the states only, and the state says whether the player
has a voice (`Player.InOrder`).  `Player.Steady` is what a turn of a step keeps (`Steady.turn`): it
adds to `Coherent` how the fade-outs of the voice end, and that a player that plays or fades out is
where its voice is.  So a new player is in order whatever is done with it and whatever the backend
answers, and when it starts its held voice again there is one that has its handle still
(`Player.inOrder_throughout`).
-/

namespace Soundscape

variable {α : Type}

/-- The state of a player whose looping voice is in the state. -/
def VoiceState.asPlayer? : VoiceState → Option (PlayerState α)
  | playing => some .playing
  | fadingOut _ => some .fadingOut
  | stopped | released => none

namespace Player

/-- The state of a player is one that its statement goes through, and fits its voice. -/
structure InOrder (s : Statement α) (p : Player α) : Prop where
  loop : s.kind = .loop → ∀ r, p.state ≠ .waitingForNext r
  loopVoice : s.kind = .loop → (p.voice.isSome ↔ p.state = .playing ∨ p.state = .fadingOut)
  loopState : s.kind = .loop → ∀ v ∈ p.voice, v.state.asPlayer? = some p.state
  oneshot : s.kind = .oneshot → p.state ≠ .playing ∧ p.state ≠ .fadingOut
  held : s.isHeld → (p.voice.isSome ↔ ∃ r, p.state = .waitingForNext r)
  heldState : s.isHeld → ∀ v ∈ p.voice, v.state ≠ .released
  free : s.kind = .oneshot → s.isHeld = false → p.voice = none
  ended : p.state = .terminated → p.voice = none

/-- A player that plays or fades out is where its voice is. -/
def Follows (p : Player α) : Prop :=
  ∀ v ∈ p.voice, (p.state = .playing → v.state = .playing) ∧
    (p.state = .fadingOut → ∃ release, v.state = .fadingOut release)

/-- What is kept from one turn of a step to the next. -/
structure Steady (i : Instance α) (p : Player α) : Prop where
  identity : p.identity = i
  coherent : p.Coherent
  fades : ∀ v ∈ p.voice, v.Fades (!i.statement.isHeld)
  follows : p.Follows

variable {i : Instance α} {p : Player α}

theorem follows_of_voice (h : p.voice = none) : p.Follows := by
  intro v hv
  rw [h] at hv
  cases hv

theorem follows_of_state (hp : p.state ≠ .playing) (hf : p.state ≠ .fadingOut) : p.Follows :=
  fun _ _ => ⟨fun h => absurd h hp, fun h => absurd h hf⟩

theorem follows_of_wait (h : p.wait?.isSome) : p.Follows := by
  apply follows_of_state <;>
  · intro hs
    simp [wait?, hs] at h

theorem Steady.statement (h : p.Steady i) : p.statement = i.statement :=
  statement_of_identity h.identity

theorem Steady.inOrder (h : p.Steady i) : p.InOrder i.statement := by
  have hst := h.statement
  have hc := h.coherent
  unfold Coherent at hc
  rw [hst] at hc
  have hheld := @Statement.isHeld_iff α i.statement
  cases hs : p.state with
  | waitingToStart r =>
    rw [hs] at hc
    constructor <;> simp [hs, show p.voice = none from hc]
  | terminated =>
    rw [hs] at hc
    constructor <;> simp [hs, show p.voice = none from hc]
  | waitingForNext r =>
    rw [hs] at hc
    obtain ⟨hk, he, ho⟩ := hc
    constructor
    · simp [hk]
    · simp [hk]
    · simp [hk]
    · simp [hs]
    · intro hh
      have hv : p.voice.isNone = false := ho.symm.trans (hheld.mp hh).2.2
      simp [hs, ← Option.not_isNone, hv]
    · -- the fade-outs of a held voice leave it silent
      intro hh v hv hr
      have hrelease := (h.fades v hv).released hr
      simp [hh] at hrelease
    · intro _ hn
      have ho' : i.statement.overlap = true := by
        simpa [Statement.isHeld, hk, he] using hn
      rw [ho'] at ho
      exact Option.isNone_iff_eq_none.mp ho.symm
    · simp [hs]
  | playing =>
    rw [hs] at hc
    obtain ⟨hk, v, hv, -⟩ := hc
    have hvs := (h.follows v hv).1 hs
    constructor <;> simp_all [VoiceState.asPlayer?]
  | fadingOut =>
    rw [hs] at hc
    obtain ⟨hk, v, hv, -⟩ := hc
    obtain ⟨release, hvs⟩ := (h.follows v hv).2 hs
    constructor <;> simp_all [VoiceState.asPlayer?]

variable [Scalar α]

theorem Landed.follows (h : p.Landed) : p.Follows := by
  cases h with
  | ends hs => exact follows_of_state (by simp [hs]) (by simp [hs])
  | waits wait hs => exact follows_of_state (by simp [hs]) (by simp [hs])
  | plays v hs hv hplays =>
    intro w hw
    obtain rfl : v = w := Option.some.inj (hv.symm.trans hw)
    refine ⟨fun _ => hplays, fun hf => ?_⟩
    rw [hs] at hf
    cases hf

theorem steady_new (id : Nat) (s : Statement α) (source : Source) :
    (new id s source).Steady ⟨id, s⟩ where
  identity := rfl
  coherent := coherent_new id s source
  fades _ hv := by cases hv
  follows := follows_of_voice rfl

variable [Easing α]

theorem alone_fades {β : Type} [AudioBackend α β] (s : Statement α) :
    Alone s fun vs (_ : β) => ∀ v ∈ vs, v.Fades (!s.isHeld) := by
  refine .each (fun dt h => h.next dt) (fun delay length hs _ => .scheduleFadeOut hs delay length)
    (fun h clip _ => .of_playing (opened_state ..) ?_)
    (fun hr _ => .of_playing (Voice.state_of_restart hr) ?_)
  · intro f hf
    rw [opened_pending] at hf
    cases hf
  · intro f hf
    rw [Voice.pending_of_restart hr] at hf
    cases hf

/-- A looping voice at the end of a step has begun a fade-out, or ended one, or goes on as it did;
it does not fall silent and stay. -/
theorem Follows.followed (hf : p.Follows) (hc : p.Coherent) (hw : p.wait? = none)
    (hfades : ∀ v ∈ p.voice, v.Fades (!p.statement.isHeld)) (dt : α) :
    (p.having (p.voice.map (Voice.next dt))).followed.Follows := by
  cases hv : p.voice with
  | none =>
    obtain h | ⟨-, v, hnone, -⟩ := (p.having (none : Option (Voice α))).followed_cases
    · rw [Option.map_none, h]
      exact follows_of_voice rfl
    · cases hnone
  | some v =>
    have hfade : v.Fades true := by
      have h := hfades v hv
      rwa [hc.isHeld_of_not_waiting hw hv] at h
    have hnext := hfade.next dt
    have ht : p.isTerminated = false := by
      by_contra h
      rw [hc.voice_of_isTerminated (by simpa using h)] at hv
      cases hv
    have hq : (p.having (some (v.next dt))).isTerminated = false := ht
    rw [Option.map_some]
    cases hs : (v.next dt).state with
    | playing =>
      have he : (p.having (some (v.next dt))).followed = p.having (some (v.next dt)) := by
        simp only [Player.followed, hq, followVoice, having_voice, hs]
        rfl
      rw [he]
      rintro _ ⟨⟩
      refine ⟨fun _ => hs, fun hfading => ?_⟩
      -- a fade-out that has begun is not taken back
      obtain ⟨release, hv'⟩ := (hf v hv).2 hfading
      obtain h | h := hfade.state_next_of_fading hv' dt <;> rw [hs] at h <;> cases h
    | fadingOut release =>
      rw [followed_of_fading hq rfl hs]
      rintro _ ⟨⟩
      refine ⟨fun h => ?_, fun _ => ⟨release, hs⟩⟩
      cases h
    | stopped =>
      -- only a held voice stays silent
      cases hnext.stopped hs
    | released =>
      rw [followed_of_released hq rfl hs]
      exact follows_of_voice rfl

variable {β : Type} [AudioBackend α β] {fallback : α} {x : Progress α β}

/-! ### The turns of a step -/

/-- What is kept, and how the fade-outs of the voices that were let go in the step end. -/
structure Progress.Steady (i : Instance α) (x : Progress α β) : Prop where
  player : x.player.Steady i
  fresh : ∀ v ∈ x.fresh, v.Fades (!i.statement.isHeld)

theorem Steady.follows_turn (h : x.player.Steady i) : (x.turn fallback).2.player.Follows := by
  obtain ⟨hlast, ht⟩ | ⟨r, hw, -, ht⟩ := x.turn_cases fallback
  · rw [ht]
    cases hw : x.player.wait? with
    | none =>
      rw [Progress.finished_eq_followed hw]
      have hfades : ∀ v ∈ x.player.voice, v.Fades (!x.player.statement.isHeld) := by
        rw [h.statement]
        exact h.fades
      have hf := h.follows.followed h.coherent hw hfades x.budget
      rwa [← Progress.player_spend] at hf
    | some r =>
      rw [Progress.finished_of_waiting hw]
      apply follows_of_wait
      dsimp only
      rw [wait?_waited, Progress.player_spend, wait?_having, hw]
      rfl
  · rw [ht, Progress.fired_eq]
    exact (landed_fire ..).follows

theorem Progress.Steady.turn (h : x.Steady i) (fallback : α) : (x.turn fallback).2.Steady i := by
  have hall : ∀ v ∈ x.player.voice.toList ++ x.fresh, v.Fades (!i.statement.isHeld) := by
    intro v hv
    obtain hv | hv := List.mem_append.mp hv
    · exact h.player.fades v (Option.mem_toList.mp hv)
    · exact h.fresh v hv
  obtain ⟨hi, hc, hfades⟩ :=
    (alone_fades i.statement).turn h.player.identity h.player.coherent hall fallback
  constructor
  · constructor
    · exact hi
    · exact hc
    · intro v hv
      exact hfades v (List.mem_append_left _ (Option.mem_toList.mpr hv))
    · exact h.player.follows_turn
  · intro v hv
    exact hfades v (List.mem_append_right _ hv)

theorem Progress.Steady.trail (h : x.Steady i) (fallback : α) (n : Nat) :
    ∀ y ∈ Progress.trail fallback n x, y.Steady i := by
  induction n generalizing x with
  | zero =>
    intro y hy
    cases hy
  | succ n ih =>
    have hturn := h.turn fallback
    intro y hy
    unfold Progress.trail at hy
    rcases List.mem_cons.mp hy with rfl | hy
    · exact h
    · rcases ht : x.turn fallback with ⟨_ | _, z⟩ <;> rw [ht] at hy hturn
      · cases hy
      · exact ih hturn y hy

theorem Progress.Steady.run (h : x.Steady i) (fallback : α) (n : Nat) :
    (x.run fallback n).Steady i := by
  induction n generalizing x with
  | zero => exact h
  | succ n ih =>
    have hturn := h.turn fallback
    unfold Progress.run
    rcases ht : x.turn fallback with ⟨_ | _, z⟩ <;> rw [ht] at hturn
    · exact hturn
    · exact ih hturn

omit [Scalar α] [Easing α] [AudioBackend α β] in
theorem Steady.beginning (h : p.Steady i) (dt : α) (b : β) :
    (⟨dt, p, [], b⟩ : Progress α β).Steady i := by
  refine ⟨h, ?_⟩
  intro v hv
  cases hv

theorem Steady.advance (h : p.Steady i) (dt fallback : α) (b : β) :
    (p.advance dt fallback b).1.Steady i :=
  ((h.beginning (Scalar.larger dt 0) b).run fallback _).player

omit [Scalar α] [Easing α] in
theorem Steady.cancel (h : p.Steady i) (b : β) : (p.cancel b).1.Steady i := by
  have hover {q : Player α} (hi : q.identity = i) (hv : q.voice = none)
      (hs : q.state = .terminated) : q.Steady i := by
    refine ⟨hi, ?_, by simp [hv], follows_of_voice hv⟩
    unfold Coherent
    rw [hs]
    exact hv
  unfold Player.cancel
  cases hv : p.voice with
  | none => exact hover h.identity hv rfl
  | some v => exact hover h.identity rfl rfl

/-! ### Whatever is done with a player -/

/-- What is done with a player from outside, on a backend in any state. -/
inductive Operation (α β : Type) where
  | advance (dt fallback : α) (b : β)
  | cancel (b : β)

def operated (p : Player α) : Operation α β → Player α
  | .advance dt fallback b => (p.advance dt fallback b).1
  | .cancel b => (p.cancel b).1

/-- The states in which the turns of a step begin. -/
def turns (dt fallback : α) (p : Player α) (b : β) : List (Progress α β) :=
  let dt := Scalar.larger dt 0
  Progress.trail fallback (turnBound dt) ⟨dt, p, [], b⟩

theorem Steady.operated (h : p.Steady i) (ops : List (Operation α β)) :
    (ops.foldl Player.operated p).Steady i := by
  induction ops generalizing p with
  | nil => exact h
  | cons op ops ih =>
    apply ih
    cases op with
    | advance dt fallback b => exact h.advance dt fallback b
    | cancel b => exact h.cancel b

omit [Scalar α] [Easing α] in
theorem cancel_of_isTerminated (ht : p.isTerminated) (hv : p.voice = none) (b : β) :
    p.cancel b = (p, b) := by
  obtain ⟨id, s, state, source, voice⟩ := p
  obtain rfl : voice = none := hv
  cases state <;> first | rfl | cases ht

/-- The player has a voice that has its handle still, so only the answer of `loadClip` can keep it
from starting again. -/
def HoldsLive (β : Type) [AudioBackend α β] (p : Player α) : Prop :=
  ∃ v, p.voice = some v ∧ v.isReleased = false ∧
    ∀ (clip : String) (volume : α) (pitch : Option α) (fadeIn : α) (b : β),
      (v.restart clip volume pitch fadeIn b).1 =
        (AudioBackend.loadClip (tellAll b v.handle v.hush) v.handle clip).1

theorem Steady.holdsLive_spend {x : Progress α β} (h : x.player.Steady i)
    (hh : i.statement.isHeld) (dt : α) {r : α} (hs : (x.spend dt).player.state = .waitingForNext r) :
    (x.spend dt).player.HoldsLive β := by
  rw [Progress.player_spend] at hs ⊢
  have hvoice : x.player.voice.isSome := (h.inOrder.held hh).mpr ⟨r, hs⟩
  obtain ⟨v, hv⟩ := Option.isSome_iff_exists.mp hvoice
  have hr : (v.next dt).isReleased = false := by
    by_contra hr
    have hreleased := ((h.fades v hv).next dt).released (by simpa [Voice.isReleased] using hr)
    simp [hh] at hreleased
  refine ⟨v.next dt, by rw [hv]; rfl, hr, ?_⟩
  intro clip volume pitch fadeIn b
  rw [Voice.restart_eq, hr]
  rcases AudioBackend.loadClip (tellAll b (v.next dt).handle (v.next dt).hush) (v.next dt).handle
    clip with ⟨e | ⟨⟩, b'⟩ <;> rfl

/-- A new player is in order after all operations and before each turn of a step; once it is over it
is left alone, and so is the backend; and when its held voice is started again in a step there is
one, whose handle was not given back. -/
theorem inOrder_throughout (id : Nat) (s : Statement α) (source : Source)
    (ops : List (Operation α β)) :
    let p := ops.foldl operated (new id s source)
    p.InOrder s ∧
      (p.isTerminated → ∀ (dt fallback : α) (b : β),
        p.advance dt fallback b = (p, [], b) ∧ p.cancel b = (p, b)) ∧
      ∀ (dt fallback : α) (b : β), ∀ x ∈ p.turns dt fallback b, x.player.InOrder s ∧
        (s.isHeld → ∀ t r, (x.spend t).player.state = .waitingForNext r →
          (x.spend t).player.HoldsLive β) := by
  intro p
  have hp : p.Steady ⟨id, s⟩ := (steady_new id s source).operated ops
  refine ⟨hp.inOrder, ?_, ?_⟩
  · intro ht dt fallback b
    have hv : p.voice = none := hp.coherent.voice_of_isTerminated ht
    exact ⟨advance_of_isTerminated ht hv dt fallback b, cancel_of_isTerminated ht hv b⟩
  · intro dt fallback b x hx
    have hx := ((hp.beginning (Scalar.larger dt 0) b).trail fallback _ x hx).player
    refine ⟨hx.inOrder, ?_⟩
    intro hh t r hs
    exact hx.holdsLive_spend hh t hs

end Player

end Soundscape
