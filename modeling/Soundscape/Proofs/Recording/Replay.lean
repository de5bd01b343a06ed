import Soundscape.Proofs.Player.Alone
import Soundscape.Proofs.Recording.Mirror

/-!
# What the calls on a handle make of it

The state of a handle can be told from the calls on it alone: `Deed.replay` is the state that some
deeds leave a handle in.  `Recording.Replayed` says of a recording that each of its handles is in
the state that its deeds leave it in.  An empty recording is such (`Replayed.empty`) and no call
ends it (`Replayed.stable`); what no call ends, no operation of a voice and no step of a player ends
(`Recording.Stable.restart`, `Recording.Stable.alone`).
-/

namespace Soundscape

variable {α : Type}

/-- The state of a handle after it was told something. -/
def Cue.change : Cue α → Option (HandleState α) → Option (HandleState α)
  | .setVolume v, s => s.map fun s => { s with volume := some v }
  | .setPitch v, s => s.map fun s => { s with pitch := some v }
  | .play _, s => s.map fun s => { s with playing := true }
  | .stop, s => s.map fun s => { s with playing := false }
  | .release, _ => none
  | .place _, s => s

namespace Deed

/-- The state of a handle after something was done with it. -/
def change : Deed α → Option (HandleState α) → Option (HandleState α)
  | .acquire clip, _ => some ⟨clip, none, none, false⟩
  | .loadClip clip, s => s.map fun s => { s with clip, playing := false }
  | .told q, s => q.change s

def replay (ds : List (Deed α)) : Option (HandleState α) := ds.foldl (fun s d => d.change s) none

theorem replay_append (ds es : List (Deed α)) :
    replay (ds ++ es) = es.foldl (fun s d => d.change s) (replay ds) :=
  List.foldl_append

theorem replay_concat (ds : List (Deed α)) (d : Deed α) :
    replay (ds ++ [d]) = d.change (replay ds) :=
  replay_append ds [d]

end Deed

/-- Whether a handle plays at a stage of its life, if it is live. -/
def Stage.playing? : Stage → Option Bool
  | sounding => some true
  | silent => some false
  | ended => none

namespace Channel

/-- The handle is in the state that its deeds leave it in. -/
def Replayed (c : Channel α) : Prop := c.state = Deed.replay c.deeds

theorem state_tell (c : Channel α) (h : Handle) (q : Cue α) :
    (tell c h q).state = q.change c.state := by
  obtain ⟨missing, _ | state, deeds⟩ := c <;> cases q <;> rfl

namespace Replayed

theorem silent (missing : List String) : (silent missing : Channel α).Replayed := rfl

variable {c : Channel α}

theorem tell (hc : c.Replayed) (h : Handle) (q : Cue α) : (tell c h q).Replayed := by
  cases hs : c.state with
  | none => rwa [tell_of_not_live hs]
  | some s =>
    have hd : c.state = Deed.replay c.deeds := hc
    rw [Replayed, state_tell, deeds_tell (by simp [hs]), Deed.replay_concat, hd]
    rfl

theorem loadClip (hc : c.Replayed) (h : Handle) (clip : String) :
    (c.loadClip h clip).2.Replayed := by
  obtain ⟨missing, state, deeds⟩ := c
  obtain rfl : state = Deed.replay deeds := hc
  unfold Channel.loadClip onLive
  cases hs : Deed.replay deeds with
  | none => split <;> exact hs.symm
  | some s =>
    split
    · exact hs.symm
    · rw [Replayed, Deed.replay_concat, hs]
      rfl

end Replayed

end Channel

namespace Recording

/-- Each handle is in the state that its deeds leave it in, and no handle was used before it was
acquired. -/
structure Replayed (r : Recording α) : Prop where
  unissued : r.Unissued
  channel : ∀ h, (r.channel h).Replayed

namespace Replayed

theorem empty (len : α) (lens : List (String × α)) (missing : List String) :
    (empty len lens missing).Replayed :=
  ⟨fun _ _ => rfl, fun _ => .silent missing⟩

variable {r r' : Recording α}

theorem of_touched (hr : r.Replayed) {h : Handle} (hk : r.Kin r')
    (ho : ∀ k, k ≠ h → r'.channel k = r.channel k) (hh : (r'.channel h).Replayed)
    (hs : (r.channel h).state = none → r'.channel h = r.channel h) : r'.Replayed where
  unissued k hn := by
    -- the handle that has changed may not be acquired itself; then it has not changed
    have hk' := hr.unissued k (hk.acquired ▸ hn)
    by_cases he : k = h
    · subst he
      rw [hs (by rw [hk']; rfl), hk', hk.missing]
    · rw [ho k he, hk', hk.missing]
  channel k := by
    by_cases he : k = h
    · exact he ▸ hh
    · rw [ho k he]
      exact hr.channel k

theorem tell (hr : r.Replayed) (h : Handle) (q : Cue α) : (tell r h q).Replayed := by
  refine hr.of_touched (h := h) (r.kin_tell h q) (fun k hk => ?_) ?_ fun hs => ?_
  · rw [channel_tell, if_neg hk]
  · rw [channel_tell, if_pos rfl]
    exact (hr.channel h).tell h q
  · rw [channel_tell, if_pos rfl, Channel.tell_of_not_live hs]

theorem loadClip (hr : r.Replayed) (h : Handle) (clip : String) :
    (r.loadClip h clip).2.Replayed := by
  refine hr.of_touched (h := h) (r.kin_loadClip h clip) (fun k hk => ?_) ?_ fun hs => ?_
  · rw [channel_loadClip, if_neg hk]
  · rw [channel_loadClip, if_pos rfl]
    exact (hr.channel h).loadClip h clip
  · rw [channel_loadClip, if_pos rfl]
    simp only [Channel.loadClip, Channel.onLive, hs]
    split <;> rfl

theorem opened (hr : r.Replayed) (clip : String) : (r.opened clip).Replayed where
  unissued := Mirrors.unissued_opened hr.unissued clip
  channel k := by
    rw [channel_opened hr.unissued.nextHandle]
    split
    · rfl
    · exact hr.channel k

theorem lose (hr : r.Replayed) (clip : String) :
    { r with missing := clip :: r.missing }.Replayed where
  unissued h hn :=
    congrArg (fun c : Channel α => { c with missing := clip :: c.missing }) (hr.unissued h hn)
  channel := hr.channel

end Replayed

/-! ### What no call ends -/

/-- No call on a recording ends the property. -/
structure Stable (P : Recording α → Prop) : Prop where
  tell : ∀ {r} h q, P r → P (tell r h q)
  loadClip : ∀ {r} h clip, P r → P (r.loadClip h clip).2
  opened : ∀ {r} clip, P r → P (r.opened clip)

namespace Stable

variable {P : Recording α → Prop} {r : Recording α}

theorem tellAll (hP : Stable P) (hr : P r) (h : Handle) (qs : List (Cue α)) :
    P (tellAll r h qs) := by
  induction qs generalizing r with
  | nil => exact hr
  | cons q qs ih => exact ih (hP.tell h q hr)

theorem tellEach (hP : Stable P) (hr : P r) (f : Voice α → List (Cue α)) (vs : List (Voice α)) :
    P (Voice.tellEach f vs r) := by
  induction vs generalizing r with
  | nil => exact hr
  | cons v vs ih => exact ih (hP.tellAll hr v.handle (f v))

theorem kill (hP : Stable P) (hr : P r) (v : Voice α) : P (v.kill r).2 := by
  rw [Voice.kill_eq]
  exact hP.tellAll hr v.handle v.lastWords

variable [Scalar α] [Easing α]

theorem restart (hP : Stable P) (hr : P r) (clip : String) (volume : α) (pitch : Option α)
    (fadeIn : α) (v : Voice α) : P (v.restart clip volume pitch fadeIn r).2.2 := by
  have hload := hP.loadClip v.handle clip (hP.tellAll hr v.handle v.hush)
  rw [Voice.restart_eq]
  generalize Soundscape.tellAll r v.handle v.hush = b at hload
  rw [show AudioBackend.loadClip b v.handle clip = b.loadClip v.handle clip from rfl]
  by_cases hv : v.isReleased
  · rw [if_pos hv]
    exact hr
  · rw [if_neg hv]
    rcases hx : b.loadClip v.handle clip with ⟨e | ⟨⟩, b'⟩ <;> rw [hx] at hload
    · exact hload
    · exact hP.tellAll hload _ _

/-- Nothing that a player does with its voices ends it. -/
theorem alone (hP : Stable P) (s : Statement α) :
    Alone s fun (_ : List (Voice α)) (r : Recording α) => P r where
  perm _ hr := hr
  advance dt hr := hP.tellAll hr _ _
  drop _ hr := hr
  fade _ _ _ hr := hr
  refused {vs r r' clip e} ha hr := by
    rw [show AudioBackend.acquire r clip = r.acquire clip from rfl, acquire_eq] at ha
    split at ha <;> cases ha
    exact hr
  opening {vs r r' clip h} o _ ha hr := by
    rw [show AudioBackend.acquire r clip = r.acquire clip from rfl, acquire_eq] at ha
    split at ha <;> cases ha
    exact hP.tellAll (hP.opened clip hr) _ _
  restart {v v' vs r r' clip volume pitch fadeIn} _ _ h hr := by
    have hrestart := hP.restart hr clip volume pitch fadeIn v
    rwa [h] at hrestart
  giveUp {v v' vs r r' clip volume pitch fadeIn e} _ _ h hr := by
    have hrestart := hP.restart hr clip volume pitch fadeIn v
    rw [h] at hrestart
    exact hP.kill hrestart v'

end Stable

end Recording

end Soundscape
