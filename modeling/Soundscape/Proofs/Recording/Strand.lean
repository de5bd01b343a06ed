import Soundscape.Proofs.Recording.Mirror
import Soundscape.Proofs.Voice.Sketch

/-!
# A recording without its levels

A channel without its levels hears no more than the lifecycle of its voice
(`Channel.sketch_tellAll`).  A strand is a voice together with the channel of its handle, both
without their levels.  It moves by itself (`Recording.strand_tellEach`), so two recordings on which
a voice has the same strand show the same lifecycle calls on its handle
(`Recording.lifecycle_eq`).
-/

namespace Soundscape

variable {α : Type}

/-- Whether the deed is more than an update of a level. -/
def Deed.isLifecycle : Deed α → Bool
  | .told q => !q.isWrite
  | _ => true

/-- What is known of a live handle, but for its levels. -/
def HandleState.sketch (s : HandleState α) : HandleState α :=
  { s with volume := none, pitch := none }

namespace Channel

def sketch (c : Channel α) : Channel α :=
  ⟨c.missing, c.state.map HandleState.sketch, c.deeds.filter Deed.isLifecycle⟩

theorem sketch_onLive (c : Channel α) {d : Deed α} (hd : d.isLifecycle)
    {change : HandleState α → HandleState α} (hc : ∀ s, (change s).sketch = change s.sketch) :
    (c.onLive d change).sketch = c.sketch.onLive d change := by
  obtain ⟨missing, _ | s, deeds⟩ := c
  · rfl
  · simp [onLive, sketch, hd, hc]

theorem sketch_onLive_of_write (c : Channel α) {d : Deed α} (hd : d.isLifecycle = false)
    {change : HandleState α → HandleState α} (hc : ∀ s, (change s).sketch = s.sketch) :
    (c.onLive d change).sketch = c.sketch := by
  obtain ⟨missing, _ | s, deeds⟩ := c
  · rfl
  · simp [onLive, sketch, hd, hc]

theorem sketch_tell (c : Channel α) (h : Handle) (q : Cue α) :
    (tell c h q).sketch = if q.isWrite then c.sketch else tell c.sketch h q := by
  cases q with
  | setVolume v => exact c.sketch_onLive_of_write rfl fun _ => rfl
  | setPitch v => exact c.sketch_onLive_of_write rfl fun _ => rfl
  | play looped => exact c.sketch_onLive rfl fun _ => rfl
  | stop => exact c.sketch_onLive rfl fun _ => rfl
  | place p => exact c.sketch_onLive rfl fun _ => rfl
  | release =>
    obtain ⟨missing, _ | s, deeds⟩ := c
    · rfl
    · simp [tell, AudioBackend.release, release, sketch, Cue.isWrite, Deed.isLifecycle]

theorem sketch_tellAll (c : Channel α) (h : Handle) (qs : List (Cue α)) :
    (tellAll c h qs).sketch = tellAll c.sketch h (Cue.lifecycle qs) := by
  induction qs generalizing c with
  | nil => rfl
  | cons q qs ih =>
    rw [tellAll_cons, ih, sketch_tell]
    cases hq : q.isWrite <;> simp [Cue.lifecycle, hq]

/-- Another clip is had or not, whatever the levels are. -/
theorem sketch_loadClip (c : Channel α) (h : Handle) (clip : String) :
    (c.loadClip h clip).1 = (c.sketch.loadClip h clip).1 ∧
      (c.loadClip h clip).2.sketch = (c.sketch.loadClip h clip).2 := by
  have hm : c.sketch.missing = c.missing := rfl
  have hs : c.sketch.state.isSome = c.state.isSome := Option.isSome_map
  unfold loadClip
  rw [hm, hs]
  split
  · exact ⟨rfl, rfl⟩
  · exact ⟨rfl, c.sketch_onLive rfl fun _ => rfl⟩

end Channel

/-! ### Voices on their channels -/

/-- A voice and the channel of its handle, both without their levels. -/
structure Strand (α : Type) where
  voice : Sketch α
  channel : Channel α

def Strand.next [Scalar α] (dt : α) (s : Strand α) : Strand α :=
  ⟨s.voice.next dt, tellAll s.channel s.voice.handle (s.voice.tells dt)⟩

theorem Voice.handles_next [Scalar α] [Easing α] (dt : α) (vs : List (Voice α)) :
    (vs.map (next dt)).map handle = vs.map handle := by
  rw [List.map_map]
  exact List.map_congr_left fun v _ => v.next_handle dt

namespace Recording

/-- A voice and what the recording knows of its handle, both without their levels. -/
def strand (r : Recording α) (v : Voice α) : Strand α := ⟨v.sketch, (r.channel v.handle).sketch⟩

variable {f : Voice α → List (Cue α)} {vs : List (Voice α)} {v : Voice α} {r : Recording α}

theorem kin_tellEach (f : Voice α → List (Cue α)) (vs : List (Voice α)) (r : Recording α) :
    r.Kin (Voice.tellEach f vs r) := by
  induction vs generalizing r with
  | nil => exact .rfl
  | cons v vs ih => exact (r.kin_tellAll v.handle (f v)).trans (ih _)

theorem channel_tellEach_of_not_mem {h : Handle} (hh : h ∉ vs.map Voice.handle) :
    (Voice.tellEach f vs r).channel h = r.channel h := by
  induction vs generalizing r with
  | nil => rfl
  | cons v vs ih =>
    rw [List.map_cons, List.mem_cons, not_or] at hh
    exact (ih hh.2).trans (r.channel_tellAll_of_ne hh.1 (f v))

theorem channel_tellEach (hd : (vs.map Voice.handle).Nodup) (hv : v ∈ vs) :
    (Voice.tellEach f vs r).channel v.handle = tellAll (r.channel v.handle) v.handle (f v) := by
  induction vs generalizing r with
  | nil => cases hv
  | cons w vs ih =>
    obtain ⟨hw, hd⟩ := List.nodup_cons.mp hd
    obtain rfl | hv := List.mem_cons.mp hv
    · exact (channel_tellEach_of_not_mem hw).trans (r.channel_tellAll v.handle (f v))
    · have hne : v.handle ≠ w.handle := fun he => hw (he ▸ List.mem_map_of_mem hv)
      rw [← r.channel_tellAll_of_ne hne (f w)]
      exact ih hd hv

/-- Voices take a step of time on handles of their own. -/
theorem strand_tellEach [Scalar α] [Easing α] (hd : (vs.map Voice.handle).Nodup) (hv : v ∈ vs)
    (dt : α) :
    (Voice.tellEach (Voice.tells dt) vs r).strand (v.next dt) = (r.strand v).next dt := by
  obtain ⟨hs, ht⟩ := v.next_sketch dt
  unfold strand Strand.next
  rw [Voice.next_handle, channel_tellEach hd hv, Channel.sketch_tellAll, hs, ht]
  rfl

end Recording

/-- The recording after something was done with one handle. -/
structure Recording.Told (h : Handle) (r r' : Recording α) : Prop where
  kin : r.Kin r'
  others : ∀ k, k ≠ h → r'.channel k = r.channel k

namespace Recording.Told

variable {h : Handle} {r r' r'' : Recording α}

theorem refl (h : Handle) (r : Recording α) : Told h r r := ⟨.rfl, fun _ _ => rfl⟩

theorem trans (h₁ : Told h r r') (h₂ : Told h r' r'') : Told h r r'' :=
  ⟨h₁.kin.trans h₂.kin, fun k hk => (h₂.others k hk).trans (h₁.others k hk)⟩

theorem tellAll (h : Handle) (r : Recording α) (qs : List (Cue α)) : Told h r (tellAll r h qs) :=
  ⟨r.kin_tellAll h qs, fun _ hk => r.channel_tellAll_of_ne hk qs⟩

theorem loadClip (h : Handle) (r : Recording α) (clip : String) :
    Told h r (r.loadClip h clip).2 :=
  ⟨r.kin_loadClip h clip, fun k hk => by rw [channel_loadClip, if_neg hk]⟩

end Recording.Told

/-- Handles that were never acquired stay so, whatever is done with the others. -/
theorem Recording.Unissued.of_kin {r r' : Recording α} (hu : r.Unissued) (hk : r.Kin r')
    (ho : ∀ h : Handle, r.acquired < h.number → r'.channel h = r.channel h) : r'.Unissued := by
  intro h hn
  rw [hk.acquired] at hn
  rw [ho h hn, hu h hn, hk.missing]

/-! ### Calls -/

/-- The call that does something with a handle. -/
def Deed.call (h : Handle) : Deed α → Call α
  | .acquire clip => .acquire h clip
  | .loadClip clip => .loadClip h clip
  | .told q => q.call h

theorem Call.call_deed (c : Call α) : c.deed.call c.handle = c := by
  cases c <;> rfl

theorem Call.isLifecycle_deed (c : Call α) : c.deed.isLifecycle = c.isLifecycle := by
  cases c <;> rfl

/-- The lifecycle calls on a handle can be read off its channel without the levels. -/
theorem Recording.lifecycle_eq (r : Recording α) (h : Handle) :
    r.lifecycle.filter (fun c => c.handle = h) = (r.channel h).sketch.deeds.map (Deed.call h) := by
  have hcalls : ((r.calls.toList.filter fun c => c.handle = h).filter Call.isLifecycle).map
      (Deed.call h ∘ Call.deed) =
      (r.calls.toList.filter fun c => c.handle = h).filter Call.isLifecycle := by
    refine (List.map_congr_left fun c hc => ?_).trans (List.map_id _)
    obtain rfl : c.handle = h := by simpa using (List.mem_filter.mp (List.mem_filter.mp hc).1).2
    exact c.call_deed
  have hdeeds : Deed.isLifecycle ∘ Call.deed = Call.isLifecycle (α := α) :=
    funext Call.isLifecycle_deed
  unfold lifecycle channel Channel.sketch
  dsimp only
  rw [List.filter_map, List.map_map, hdeeds, hcalls, List.filter_filter, List.filter_filter]
  simp only [Bool.and_comm]

end Soundscape
