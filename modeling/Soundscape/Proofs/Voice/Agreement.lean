import Soundscape.Proofs.Recording.Replay

/-!
# Whether a voice knows what its handle does

`Voice.Agrees` says that a voice is sounding, silent or over exactly when its handle plays, is
silent or was given back.  An operation keeps it unless it is to start a sounding voice again with
a clip that is missing: then the handle is stopped, but the voice takes itself for sounding still
(`Agrees.apply_iff`).  So the two agree through a whole run if and only if it has no such operation
(`Voice.agrees_run_iff`).
-/

namespace Soundscape

variable {α : Type}

/-- What the handle of a voice in the state does: whether it plays, if it is live. -/
def VoiceState.playing? (s : VoiceState) : Option Bool := s.stage.playing?

theorem VoiceState.playing?_of_isSounding {s : VoiceState} (h : s.isSounding) :
    s.playing? = some true := by
  cases s <;> simp_all [isSounding, playing?, Stage.playing?]

def Channel.playing? (c : Channel α) : Option Bool := c.state.map HandleState.playing

/-- What is told to a handle, as far as it plays or not. -/
def Cue.hear : Cue α → Option Bool → Option Bool
  | .play _, s => s.map fun _ => true
  | .stop, s => s.map fun _ => false
  | .release, _ => none
  | .setVolume _, s | .setPitch _, s | .place _, s => s

namespace Channel

variable (c : Channel α)

theorem playing?_tell (h : Handle) (q : Cue α) : (tell c h q).playing? = q.hear c.playing? := by
  rw [playing?, playing?, state_tell]
  cases q <;> cases c.state <;> rfl

theorem playing?_tellAll (h : Handle) (qs : List (Cue α)) :
    (tellAll c h qs).playing? = qs.foldl (fun s q => q.hear s) c.playing? := by
  induction qs generalizing c with
  | nil => rfl
  | cons q qs ih => rw [tellAll_cons, ih, playing?_tell, List.foldl_cons]

variable {c} in
theorem loadClip_of_playing? {p : Bool} (hc : c.playing? = some p) (h : Handle) {clip : String}
    (hm : c.missing.contains clip = false) :
    (c.loadClip h clip).1 = .ok () ∧ (c.loadClip h clip).2.state.isSome := by
  obtain ⟨missing, _ | state, deeds⟩ := c
  · cases hc
  · rw [loadClip_live hm]
    exact ⟨rfl, rfl⟩

end Channel

namespace Voice

/-- The voice is sounding, stopped or released exactly when its handle plays, is live but does not
play, or is not live. -/
structure Agrees (v : Voice α) (r : Recording α) : Prop where
  sounding : v.state.isSounding ↔ ∃ s, r.live.find? v.handle = some s ∧ s.playing = true
  stopped : v.state = .stopped ↔ ∃ s, r.live.find? v.handle = some s ∧ s.playing = false
  released : v.state = .released ↔ r.live.find? v.handle = none

theorem agrees_iff {v : Voice α} {r : Recording α} :
    v.Agrees r ↔ (r.channel v.handle).playing? = v.state.playing? := by
  have hfind : (r.channel v.handle).playing? =
      (r.live.find? v.handle).map HandleState.playing := rfl
  rw [hfind]
  constructor
  · rintro ⟨hsound, hstop, hover⟩
    rcases hs : r.live.find? v.handle with _ | s
    · rw [hover.mpr hs]
      rfl
    · rcases hp : s.playing with _ | _
      · rw [hstop.mpr ⟨s, hs, hp⟩, Option.map_some, hp]
        rfl
      · rw [VoiceState.playing?_of_isSounding (hsound.mpr ⟨s, hs, hp⟩), Option.map_some, hp]
  · intro h
    constructor <;> rcases hs : r.live.find? v.handle with _ | s <;> rw [hs] at h <;>
      cases hv : v.state <;> simp_all [VoiceState.playing?, Stage.playing?, VoiceState.isSounding]

section Channel

variable {v : Voice α} {c : Channel α}

theorem playing?_write (hc : c.playing? = some true) (h : Handle) (volume pitch : α) :
    (tellAll c h [.setVolume volume, .setPitch pitch]).playing? = some true := by
  rw [Channel.playing?_tellAll, hc]
  rfl

theorem playing?_kill (hc : c.playing? = v.state.playing?) (h : Handle) :
    (tellAll c h v.lastWords).playing? = none := by
  rw [Channel.playing?_tellAll]
  rcases hs : v.state with _ | r | _ | _
  · rw [lastWords_of_isSounding (by rw [hs]; rfl)]
    rfl
  · rw [lastWords_of_isSounding (by rw [hs]; rfl)]
    rfl
  · rw [lastWords_of_stopped hs]
    rfl
  · rw [lastWords_of_isReleased (by simp [isReleased, hs]), hc, hs]
    rfl

theorem playing?_hush (hc : c.playing? = v.state.playing?) (hr : v.isReleased = false)
    (h : Handle) : (tellAll c h v.hush).playing? = some false := by
  rw [Channel.playing?_tellAll, hc, hush]
  rcases hs : v.state with _ | r | _ | _ <;>
    simp_all [isReleased, VoiceState.playing?, Stage.playing?, Cue.hear]

variable [Scalar α]

theorem playing?_fadeNow (f : PendingFade α) : (v.fadeNow f).state.playing? = v.state.playing? := by
  by_cases hs : v.state = .playing
  · rw [fadeNow_of_playing hs, hs]
    rfl
  · simp [fadeNow, beginFadeOut, hs]

variable [Easing α]

theorem playing?_stepped (hc : c.playing? = v.state.playing?) (h : Handle) (dt : α) :
    (tellAll c h (v.stepTells dt)).playing? = (v.stepped dt).state.playing? := by
  obtain ⟨-, hv, ht⟩ | ⟨hs, -, hv, ht⟩ | ⟨release, hs, -, hv, ht⟩ := v.stepped_cases dt
  · rw [hv, ht]
    exact hc
  · rw [VoiceState.playing?_of_isSounding hs] at hc
    rw [hv, ht, playing?_write hc]
    exact (VoiceState.playing?_of_isSounding hs).symm
  · rw [hv, ht, Channel.playing?_tellAll, hc, hs]
    cases release <;> rfl

theorem playing?_next (hc : c.playing? = v.state.playing?) (h : Handle) (dt : α) :
    (tellAll c h (v.tells dt)).playing? = (v.next dt).state.playing? := by
  obtain ⟨-, hn, ht⟩ | ⟨-, -, hn, ht⟩ | ⟨f, before, rest, -, -, -, -, -, hn, ht⟩ |
      ⟨f, -, -, -, hn, ht⟩ := v.next_cases dt <;> rw [hn, ht]
  · exact hc
  · exact playing?_stepped hc h _
  · rw [tellAll_append]
    apply playing?_stepped
    rw [playing?_fadeNow]
    exact playing?_stepped hc h before
  · exact playing?_stepped (v := v.fadeSooner f (Scalar.larger dt 0)) hc h _

theorem playing?_opening (hs : v.state = .playing) (hc : c.state.isSome) (h : Handle)
    (looped : Bool) :
    (tellAll c h (v.stepTells 0 ++ [.play looped])).playing? = (v.stepped 0).state.playing? := by
  obtain ⟨s, hs'⟩ := Option.isSome_iff_exists.mp hc
  rw [stepped_state_of_playing hs, stepTells_of_playing hs, Channel.playing?_tellAll,
    Channel.playing?, hs']
  rfl

end Channel

@[simp] theorem reloaded_handle [Scalar α] (clip : String) (baseVolume : α) (basePitch : Option α)
    (fadeIn : α) (v : Voice α) : (v.reloaded clip baseVolume basePitch fadeIn).handle = v.handle :=
  rfl

/-- What can be done with a voice. -/
inductive Operation (α : Type) where
  | advance (dt : α)
  | scheduleFadeOut (delay length : α) (release : Bool)
  | restart (clip : String) (baseVolume : α) (basePitch : Option α) (fadeIn : α)
  | kill

variable [Scalar α] [Easing α]

/-- The voice and the recording after an operation. -/
def Operation.apply : Operation α → Voice α × Recording α → Voice α × Recording α
  | .advance dt, (v, r) => v.advance dt r
  | .scheduleFadeOut delay length release, (v, r) => (v.scheduleFadeOut delay length release, r)
  | .restart clip baseVolume basePitch fadeIn, (v, r) =>
    (v.restart clip baseVolume basePitch fadeIn r).2
  | .kill, (v, r) => v.kill r

/-- The operation is to start a sounding voice again, but the clip is missing. -/
def Operation.IsInVain : Operation α → Voice α × Recording α → Prop
  | .restart clip _ _ _, (v, r) => v.state.isSounding ∧ clip ∈ r.missing
  | _, _ => False

/-- The voice and the recording after operations, one after the other. -/
def operate (ops : List (Operation α)) (x : Voice α × Recording α) : Voice α × Recording α :=
  ops.foldl (fun x o => o.apply x) x

namespace Agrees

variable {v : Voice α} {r : Recording α}

omit [Scalar α] [Easing α] in
theorem kill (h : v.Agrees r) : (v.kill r).1.Agrees (v.kill r).2 := by
  have hv : (v.kill r).1.handle = v.handle ∧ (v.kill r).1.state = .released := by
    unfold Voice.kill
    split
    · next hr => exact ⟨rfl, isReleased_iff.mp hr⟩
    · exact ⟨rfl, rfl⟩
  rw [agrees_iff, hv.1, hv.2, kill_eq, Recording.channel_tellAll]
  exact playing?_kill (agrees_iff.mp h) _

theorem advance (h : v.Agrees r) (dt : α) : (v.advance dt r).1.Agrees (v.advance dt r).2 := by
  rw [advance_eq, agrees_iff, next_handle, Recording.channel_tellAll]
  exact playing?_next (agrees_iff.mp h) _ dt

/-- A handle that is started again plays, unless the clip is missing; then it is silent. -/
theorem restart_iff (h : v.Agrees r) (clip : String) (baseVolume : α) (basePitch : Option α)
    (fadeIn : α) :
    (v.restart clip baseVolume basePitch fadeIn r).2.1.Agrees
        (v.restart clip baseVolume basePitch fadeIn r).2.2 ↔
      ¬ (v.state.isSounding ∧ clip ∈ r.missing) := by
  cases hr : v.isReleased with
  | true =>
    have hs : v.state = .released := isReleased_iff.mp hr
    rw [restart_eq, if_pos hr]
    exact iff_of_true h fun hv => by simp [hs, VoiceState.isSounding] at hv
  | false =>
    have hhush : ((tellAll r v.handle v.hush).channel v.handle).playing? = some false := by
      rw [Recording.channel_tellAll]
      exact playing?_hush (agrees_iff.mp h) hr v.handle
    generalize hb : tellAll r v.handle v.hush = b at hhush
    have hmissing : b.missing = r.missing := by
      rw [← hb]
      exact (r.kin_tellAll _ _).missing
    rw [restart_eq, if_neg (by simp [hr]), hb,
      show AudioBackend.loadClip b v.handle clip = b.loadClip v.handle clip from rfl]
    -- the voice was hushed first: its handle is live and silent, whatever it did before
    by_cases hm : clip ∈ r.missing
    · have hload : b.loadClip v.handle clip = (.error (Recording.notFound clip), b) :=
        if_pos (by simpa [hmissing] using hm)
      have hstate : ({ v with pending := none } : Voice α).state = v.state := rfl
      rw [hload, agrees_iff, hhush, hstate]
      cases hs : v.state <;>
        simp_all [isReleased, VoiceState.playing?, Stage.playing?, VoiceState.isSounding]
    · have hm' : (b.channel v.handle).missing.contains clip = false := by
        rw [Recording.channel_missing, hmissing]
        simpa using hm
      obtain ⟨hok, hlive⟩ := Channel.loadClip_of_playing? hhush v.handle hm'
      rw [← Recording.loadClip_fst] at hok
      rw [← (b.channel_loadClip v.handle clip v.handle).trans (if_pos rfl)] at hlive
      rcases hx : b.loadClip v.handle clip with ⟨e | ⟨⟩, b'⟩ <;> rw [hx] at hok hlive
      · cases hok
      · refine iff_of_true ?_ fun hv => hm hv.2
        rw [agrees_iff, stepped_handle, ← reloaded_handle clip baseVolume basePitch fadeIn v,
          Recording.channel_tellAll]
        apply playing?_opening rfl
        rw [reloaded_handle]
        exact hlive

/-- What is done with a voice leaves the two in agreement, unless it is in vain. -/
theorem apply_iff (h : v.Agrees r) (o : Operation α) :
    (o.apply (v, r)).1.Agrees (o.apply (v, r)).2 ↔ ¬ o.IsInVain (v, r) := by
  cases o with
  | advance dt => exact iff_of_true (h.advance dt) id
  | scheduleFadeOut delay length release => exact iff_of_true ⟨h.sounding, h.stopped, h.released⟩ id
  | restart clip baseVolume basePitch fadeIn => exact h.restart_iff clip baseVolume basePitch fadeIn
  | kill => exact iff_of_true h.kill id

/-- Two that agree go on to agree exactly as long as no operation is in vain. -/
theorem operate_iff (h : v.Agrees r) (ops : List (Operation α)) :
    (∀ n, (operate (ops.take n) (v, r)).1.Agrees (operate (ops.take n) (v, r)).2) ↔
      ∀ (n : Nat) (o : Operation α), ops[n]? = some o →
        ¬ o.IsInVain (operate (ops.take n) (v, r)) := by
  induction ops generalizing v r with
  | nil => simpa [operate] using h
  | cons o ops ih =>
    constructor
    · -- they agree after the first operation, so it was not in vain; the rest is by induction
      intro ha n p hn
      have hnext := h.apply_iff o |>.mp (ha 1)
      cases n with
      | zero =>
        obtain rfl : o = p := by simpa using hn
        exact hnext
      | succ n =>
        have ho := (h.apply_iff o).mpr hnext
        exact (ih ho).mp (fun m => ha (m + 1)) n p (by simpa using hn)
    · intro hv n
      have ho := (h.apply_iff o).mpr (hv 0 o rfl)
      cases n with
      | zero => exact h
      | succ n => exact (ih ho).mpr (fun m p hm => hv (m + 1) p (by simpa using hm)) n

end Agrees

theorem agrees_start {clip : String} {h : Handle} {r r' : Recording α}
    (ha : r.acquire clip = (.ok h, r')) (levels : Levels α) (fadeIn : α) (looped : Bool)
    (source : Source) :
    (start h clip levels fadeIn looped source r').1.Agrees
      (start h clip levels fadeIn looped source r').2 := by
  have hlive : (r'.channel h).state.isSome := by
    rw [Recording.acquire_eq] at ha
    split at ha <;> cases ha
    rw [← Recording.mem_liveHandles, Recording.liveHandles_opened]
    exact List.mem_append_right _ List.mem_cons_self
  rw [start_eq, agrees_iff, stepped_handle, show (unheard h clip levels fadeIn source).handle = h
    from rfl, Recording.channel_tellAll]
  exact playing?_opening rfl hlive h looped

/-- A voice that is started on a handle agrees with the recording after every operation if and only
if none of the operations is to start it again, while it sounds, with a clip that is missing. -/
theorem agrees_run_iff {clip : String} {h : Handle} {r r' : Recording α}
    (ha : r.acquire clip = (.ok h, r')) (levels : Levels α) (fadeIn : α) (looped : Bool)
    (source : Source) (ops : List (Operation α)) :
    let x := start h clip levels fadeIn looped source r'
    (∀ n, (operate (ops.take n) x).1.Agrees (operate (ops.take n) x).2) ↔
      ∀ (n : Nat) (o : Operation α), ops[n]? = some o → ¬ o.IsInVain (operate (ops.take n) x) :=
  (agrees_start ha levels fadeIn looped source).operate_iff ops

/-- A voice fades out, is started again, takes a step of time and is killed. -/
theorem agrees_run_again :
    let _ : Easing Rat := ⟨fun _ x => x⟩
    let r : Recording Rat := .empty 2 [] ["gone"]
    let x := start (.nth 0) "clip" ⟨1, 1, none, none⟩ 0 false (.ofWords []) (r.opened "clip")
    let ops : List (Operation Rat) :=
      [.scheduleFadeOut 0 0 false, .advance 1, .restart "gone" 1 none 0, .restart "clip" 1 none 0,
        .advance 1, .kill]
    r.acquire "clip" = (.ok (.nth 0), r.opened "clip") ∧
      ∀ n, (operate (ops.take n) x).1.Agrees (operate (ops.take n) x).2 := by
  intro _ r x ops
  refine ⟨rfl, (agrees_run_iff (r := r) rfl ⟨1, 1, none, none⟩ 0 false (.ofWords []) ops).mpr ?_⟩
  intro n o hn
  rcases n with _ | _ | _ | _ | _ | _ | n <;> cases hn <;> try exact id
  · rintro ⟨hs, -⟩
    revert hs
    decide +kernel
  · rintro ⟨-, hm⟩
    revert hm
    decide +kernel

/-- A voice that plays is to be started again with a clip that is missing.  It takes itself for
playing still, but its handle was stopped. -/
theorem restart_gone :
    let _ : Easing Rat := ⟨fun _ x => x⟩
    let r : Recording Rat := .empty 2 [] ["gone"]
    let x := start (.nth 0) "clip" ⟨1, 1, none, none⟩ 0 false (.ofWords []) (r.opened "clip")
    let y := operate [.restart "gone" 1 none 0] x
    r.acquire "clip" = (.ok (.nth 0), r.opened "clip") ∧ y.1.state = .playing ∧
      (y.2.live.find? y.1.handle).map HandleState.playing = some false ∧ ¬ y.1.Agrees y.2 := by
  intro _ r x y
  have hs : y.1.state = .playing := by decide +kernel
  have hp : (y.2.live.find? y.1.handle).map HandleState.playing = some false := by decide +kernel
  refine ⟨rfl, hs, hp, fun h => ?_⟩
  have hplays := (agrees_iff.mp h).symm.trans hp
  rw [hs] at hplays
  cases hplays

end Voice

end Soundscape
