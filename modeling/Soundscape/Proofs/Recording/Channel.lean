import Soundscape.Playback.Recording
import Soundscape.Proofs.Voice.Cue

/-!
# A recording, one handle at a time

The channel of a handle is all that a recording knows of it: its state while it is live, and what
was done with it, in order.  A channel is itself a backend, and a handle that is told something
changes its own channel as that backend does (`Recording.channel_tellAll`) and no other
(`Recording.channel_tellAll_of_ne`).
-/

namespace Soundscape

/-- What can be done with a handle. -/
inductive Deed (α : Type) where
  | acquire (clip : String)
  | loadClip (clip : String)
  | told (c : Cue α)
  deriving Repr, DecidableEq

/-- What a call does with the handle it is for. -/
def Call.deed {α : Type} : Call α → Deed α
  | .acquire _ clip => .acquire clip
  | .loadClip _ clip => .loadClip clip
  | .setVolume _ v => .told (.setVolume v)
  | .setPitch _ v => .told (.setPitch v)
  | .play _ looped => .told (.play looped)
  | .stop _ => .told .stop
  | .release _ => .told .release
  | .place _ p => .told (.place p)

/-- What a recording knows of one handle. -/
structure Channel (α : Type) where
  missing : List String
  /-- The state of the handle, while it is live. -/
  state : Option (HandleState α)
  deeds : List (Deed α)

namespace Channel

variable {α : Type}

def silent (missing : List String) : Channel α := ⟨missing, none, []⟩

/-- The channel after something was done with its handle, if it is live. -/
def onLive (c : Channel α) (d : Deed α) (change : HandleState α → HandleState α) : Channel α :=
  match c.state with
  | some s => { c with state := some (change s), deeds := c.deeds ++ [d] }
  | none => c

def loadClip (c : Channel α) (h : Handle) (clip : String) : Except BackendError Unit × Channel α :=
  if c.missing.contains clip then (.error (Recording.notFound clip), c)
  else
    (if c.state.isSome then .ok () else .error (.unknownHandle h),
      c.onLive (.loadClip clip) fun s => { s with clip, playing := false })

def release (c : Channel α) : Channel α :=
  if c.state.isSome then { c with state := none, deeds := c.deeds ++ [.told .release] } else c

instance : AudioBackend α (Channel α) where
  acquire c clip := (.error (Recording.notFound clip), c)
  loadClip := loadClip
  setVolume c _ v := c.onLive (.told (.setVolume v)) fun s => { s with volume := some v }
  setPitch c _ v := c.onLive (.told (.setPitch v)) fun s => { s with pitch := some v }
  play c _ looped := c.onLive (.told (.play looped)) fun s => { s with playing := true }
  stop c _ := c.onLive (.told .stop) fun s => { s with playing := false }
  release c _ := c.release
  clipLength _ _ := none
  place c _ p := c.onLive (.told (.place p)) id

theorem isSome_tell {c : Channel α} (hc : c.state.isSome) (h : Handle) {q : Cue α}
    (hq : q ≠ .release) : (tell c h q).state.isSome := by
  obtain ⟨s, hs⟩ := Option.isSome_iff_exists.mp hc
  cases q <;> simp_all [tell, AudioBackend.setVolume, AudioBackend.setPitch, AudioBackend.play,
    AudioBackend.stop, AudioBackend.place, onLive]

theorem tell_of_not_live {c : Channel α} (hc : c.state = none) (h : Handle) (q : Cue α) :
    tell c h q = c := by
  cases q <;> simp [tell, AudioBackend.setVolume, AudioBackend.setPitch, AudioBackend.play,
    AudioBackend.stop, AudioBackend.release, AudioBackend.place, onLive, release, hc]

theorem tellAll_of_not_live {c : Channel α} (hc : c.state = none) (h : Handle) (qs : List (Cue α)) :
    tellAll c h qs = c := by
  induction qs with
  | nil => rfl
  | cons q qs ih => rw [tellAll_cons, tell_of_not_live hc, ih]

end Channel

def Handle.nth (n : Nat) : Handle := ⟨n + 1⟩

theorem Handle.nth_inj {m n : Nat} : nth m = nth n ↔ m = n := by
  simp [nth]

namespace Recording

variable {α : Type}

def channel (r : Recording α) (h : Handle) : Channel α :=
  ⟨r.missing, r.live.find? h, (r.calls.toList.filter fun c => c.handle = h).map Call.deed⟩

theorem holds_eq_channel (r : Recording α) (h : Handle) :
    r.live.holds h = (r.channel h).state.isSome := rfl

@[simp] theorem channel_missing (r : Recording α) (h : Handle) :
    (r.channel h).missing = r.missing := rfl

/-! ### Calls on a handle -/

theorem channel_onLive (r : Recording α) (h : Handle) (call : Call α) (hc : call.handle = h)
    (change : HandleState α → HandleState α) (k : Handle) :
    (r.onLive h call change).channel k =
      if k = h then (r.channel h).onLive call.deed change else r.channel k := by
  cases hl : r.live.find? h with
  | none =>
    have hn : r.live.holds h = false := by simp [LiveHandles.holds, hl]
    by_cases hk : k = h
    · subst hk
      simp [onLive, hn, channel, Channel.onLive, hl]
    · simp [onLive, hn, channel, hk]
  | some s =>
    have hn : r.live.holds h = true := by simp [LiveHandles.holds, hl]
    by_cases hk : k = h
    · subst hk
      simp [onLive, hn, channel, Channel.onLive, hl, LiveHandles.find?_update, hc]
    · have hne : ¬ h = k := fun e => hk e.symm
      simp [onLive, hn, channel, LiveHandles.find?_update, hk, hc, hne]

theorem channel_release (r : Recording α) (h k : Handle) :
    (r.release h).channel k = if k = h then (r.channel h).release else r.channel k := by
  cases hl : r.live.find? h with
  | none =>
    have hn : r.live.holds h = false := by simp [LiveHandles.holds, hl]
    by_cases hk : k = h
    · subst hk
      simp [release, hn, channel, Channel.release, hl]
    · simp [release, hn, channel, hk]
  | some s =>
    have hn : r.live.holds h = true := by simp [LiveHandles.holds, hl]
    by_cases hk : k = h
    · subst hk
      simp [release, hn, channel, Channel.release, hl, LiveHandles.find?_erase, Call.handle,
        Call.deed]
    · have hne : ¬ h = k := fun e => hk e.symm
      simp [release, hn, channel, LiveHandles.find?_erase, hk, hne, Call.handle]

theorem channel_tell (r : Recording α) (h : Handle) (q : Cue α) (k : Handle) :
    (tell r h q).channel k = if k = h then tell (r.channel h) h q else r.channel k := by
  cases q with
  | release => exact channel_release r h k
  | setVolume v => exact channel_onLive r h (.setVolume h v) rfl _ k
  | setPitch v => exact channel_onLive r h (.setPitch h v) rfl _ k
  | play looped => exact channel_onLive r h (.play h looped) rfl _ k
  | stop => exact channel_onLive r h (.stop h) rfl _ k
  | place p => exact channel_onLive r h (.place h p) rfl _ k

theorem channel_tellAll (r : Recording α) (h : Handle) (qs : List (Cue α)) :
    (tellAll r h qs).channel h = tellAll (r.channel h) h qs := by
  induction qs generalizing r with
  | nil => rfl
  | cons q qs ih => rw [tellAll_cons, tellAll_cons, ih, channel_tell, if_pos rfl]

theorem channel_tellAll_of_ne (r : Recording α) {h k : Handle} (hk : k ≠ h) (qs : List (Cue α)) :
    (tellAll r h qs).channel k = r.channel k := by
  induction qs generalizing r with
  | nil => rfl
  | cons q qs ih => rw [tellAll_cons, ih, channel_tell, if_neg hk]

theorem loadClip_fst (r : Recording α) (h : Handle) (clip : String) :
    (r.loadClip h clip).1 = ((r.channel h).loadClip h clip).1 := by
  by_cases hm : r.missing.contains clip = true
  · simp only [loadClip, Channel.loadClip, channel_missing, hm, if_true]
  · simp only [loadClip, Channel.loadClip, channel_missing, hm, if_false, holds_eq_channel,
      Bool.false_eq_true]
    rfl

theorem channel_loadClip (r : Recording α) (h : Handle) (clip : String) (k : Handle) :
    (r.loadClip h clip).2.channel k =
      if k = h then ((r.channel h).loadClip h clip).2 else r.channel k := by
  by_cases hm : r.missing.contains clip = true
  · simp only [loadClip, Channel.loadClip, channel_missing, hm, if_true]
    split
    · next hk => rw [hk]
    · rfl
  · simp only [loadClip, Channel.loadClip, channel_missing, hm, if_false, Bool.false_eq_true]
    exact channel_onLive r h (.loadClip h clip) rfl _ k

/-! ### What stays as it is -/

/-- Two recordings that differ in no more than calls on handles that both have. -/
structure Kin (r r' : Recording α) : Prop where
  defaultLength : r'.defaultLength = r.defaultLength
  lengths : r'.lengths = r.lengths
  missing : r'.missing = r.missing
  acquired : r'.acquired = r.acquired

theorem Kin.rfl {r : Recording α} : Kin r r := ⟨Eq.refl _, Eq.refl _, Eq.refl _, Eq.refl _⟩

theorem Kin.trans {r s t : Recording α} (h : Kin r s) (h' : Kin s t) : Kin r t :=
  ⟨h'.defaultLength.trans h.defaultLength, h'.lengths.trans h.lengths, h'.missing.trans h.missing,
    h'.acquired.trans h.acquired⟩

/-- Which clips there are, and how long they are. -/
def tables (r : Recording α) : α × List (String × α) × List String :=
  (r.defaultLength, r.lengths, r.missing)

theorem Kin.tables {r r' : Recording α} (h : Kin r r') : r'.tables = r.tables := by
  rw [Recording.tables, h.defaultLength, h.lengths, h.missing]
  rfl

theorem kin_onLive (r : Recording α) (h : Handle) (call : Call α)
    (change : HandleState α → HandleState α) : Kin r (r.onLive h call change) := by
  unfold onLive
  split <;> exact ⟨rfl, rfl, rfl, rfl⟩

theorem kin_tell (r : Recording α) (h : Handle) (q : Cue α) : Kin r (tell r h q) := by
  cases q with
  | release =>
    show Kin r (r.release h)
    unfold release
    split <;> exact ⟨rfl, rfl, rfl, rfl⟩
  | _ => exact r.kin_onLive h _ _

theorem kin_tellAll (r : Recording α) (h : Handle) (qs : List (Cue α)) :
    Kin r (tellAll r h qs) := by
  induction qs generalizing r with
  | nil => exact Kin.rfl
  | cons q qs ih => exact (r.kin_tell h q).trans (ih _)

theorem kin_loadClip (r : Recording α) (h : Handle) (clip : String) :
    Kin r (r.loadClip h clip).2 := by
  unfold loadClip
  split
  · exact Kin.rfl
  · exact r.kin_onLive h _ _

theorem tables_perform (r : Recording α) (q : Request α) :
    (AudioBackend.perform r q).2.tables = r.tables := by
  cases q with
  | acquire clip =>
    rw [AudioBackend.perform_acquire_snd]
    show (r.acquire clip).2.tables = r.tables
    unfold acquire
    split <;> rfl
  | loadClip h clip =>
    rw [AudioBackend.perform_loadClip_snd]
    exact (r.kin_loadClip h clip).tables
  | setVolume h v => exact (r.kin_tell h (.setVolume v)).tables
  | setPitch h v => exact (r.kin_tell h (.setPitch v)).tables
  | play h looped => exact (r.kin_tell h (.play looped)).tables
  | stop h => exact (r.kin_tell h .stop).tables
  | release h => exact (r.kin_tell h .release).tables
  | place h p => exact (r.kin_tell h (.place p)).tables
  | clipLength h => rfl

theorem tables_performAll (r : Recording α) (qs : List (Request α)) :
    (AudioBackend.performAll r qs).2.tables = r.tables := by
  induction qs generalizing r with
  | nil => rfl
  | cons q qs ih => exact (ih _).trans (r.tables_perform q)

theorem lengthOf_congr {r r' : Recording α} (h : r'.tables = r.tables) (clip : String) :
    r'.lengthOf clip = r.lengthOf clip := by
  obtain ⟨hd, h⟩ := Prod.mk.inj h
  rw [lengthOf, lengthOf, hd, (Prod.mk.inj h).1]

/-! ### The live handles -/

/-- The live handles, in the order they were acquired. -/
def liveHandles (r : Recording α) : List Handle := r.live.map Prod.fst

theorem mem_liveHandles {r : Recording α} {h : Handle} :
    h ∈ r.liveHandles ↔ (r.channel h).state.isSome := by
  simp [liveHandles, channel, LiveHandles.find?, List.lookup_isSome_iff]

theorem liveHandles_onLive (r : Recording α) (h : Handle) (call : Call α)
    (change : HandleState α → HandleState α) :
    (r.onLive h call change).liveHandles = r.liveHandles := by
  unfold onLive
  split
  · simp only [liveHandles, LiveHandles.update, List.map_map]
    exact List.map_congr_left fun x _ => by dsimp only [Function.comp]; split <;> rfl
  · rfl

theorem liveHandles_tell_sublist (r : Recording α) (h : Handle) (q : Cue α) :
    (tell r h q).liveHandles.Sublist r.liveHandles := by
  cases q with
  | release =>
    show (r.release h).liveHandles.Sublist r.liveHandles
    unfold release
    split
    · exact List.filter_sublist.map _
    · exact List.Sublist.refl _
  | _ => exact (r.liveHandles_onLive h _ _) ▸ List.Sublist.refl _

theorem liveHandles_tellAll_sublist (r : Recording α) (h : Handle) (qs : List (Cue α)) :
    (tellAll r h qs).liveHandles.Sublist r.liveHandles := by
  induction qs generalizing r with
  | nil => exact List.Sublist.refl _
  | cons q qs ih => exact (ih _).trans (r.liveHandles_tell_sublist h q)

/-! ### Calls on handles that are not live -/

theorem stale_tell {r : Recording α} {h : Handle} (hl : (r.channel h).state.isSome) (q : Cue α) :
    (tell r h q).stale = r.stale := by
  rw [← holds_eq_channel] at hl
  cases q with
  | release =>
    show (r.release h).stale = r.stale
    simp [release, hl]
  | _ => exact (r.onLive_stale h _ _).trans (if_pos hl)

theorem stale_tellAll {r : Recording α} {h : Handle} {qs : List (Cue α)}
    (hl : (r.channel h).state.isSome) (hq : ∀ q ∈ qs.dropLast, q ≠ .release) :
    (tellAll r h qs).stale = r.stale := by
  induction qs generalizing r with
  | nil => rfl
  | cons q qs ih =>
    rw [tellAll_cons]
    cases qs with
    | nil => exact stale_tell hl q
    | cons p ps =>
      rw [ih, stale_tell hl]
      · rw [channel_tell, if_pos rfl]
        exact Channel.isSome_tell hl h (hq q (by simp))
      · exact fun x hx => hq x (by simp [hx])

/-! ### Acquiring -/

def nextHandle (r : Recording α) : Handle := .nth r.acquired

/-- The recording after its next handle was acquired with a clip. -/
def opened (r : Recording α) (clip : String) : Recording α :=
  { r with
    acquired := r.acquired + 1
    live := r.live ++ [(r.nextHandle, ⟨clip, none, none, false⟩)]
    calls := r.calls.push (.acquire r.nextHandle clip) }

@[simp] theorem opened_acquired (r : Recording α) (clip : String) :
    (r.opened clip).acquired = r.acquired + 1 := rfl

theorem liveHandles_opened (r : Recording α) (clip : String) :
    (r.opened clip).liveHandles = r.liveHandles ++ [r.nextHandle] :=
  List.map_append

theorem acquire_eq (r : Recording α) (clip : String) :
    r.acquire clip =
      if r.missing.contains clip then (.error (notFound clip), r)
      else (.ok r.nextHandle, r.opened clip) := rfl

theorem find?_push (live : LiveHandles (HandleState α)) (h k : Handle) (s : HandleState α) :
    (live ++ [(h, s)] : LiveHandles (HandleState α)).find? k =
      (live.find? k).or (if k = h then some s else none) := by
  rw [LiveHandles.find?, List.lookup_append]
  exact congrArg (Option.or _) (LiveHandles.find?_cons (h, s) [] k)

theorem channel_opened {r : Recording α} (hn : r.channel r.nextHandle = .silent r.missing)
    (clip : String) (k : Handle) :
    (r.opened clip).channel k =
      if k = r.nextHandle then
        ⟨r.missing, some ⟨clip, none, none, false⟩, [.acquire clip]⟩
      else r.channel k := by
  have hl : r.live.find? r.nextHandle = none := congrArg Channel.state hn
  have hd : (r.calls.toList.filter fun c => c.handle = r.nextHandle).map Call.deed = [] :=
    congrArg Channel.deeds hn
  by_cases hk : k = r.nextHandle
  · subst hk
    have hp : ((r.calls.push (.acquire r.nextHandle clip)).toList.filter fun c =>
        c.handle = r.nextHandle).map Call.deed = [.acquire clip] := by
      rw [Array.toList_push, List.filter_append, List.map_append, hd]
      simp [Call.handle, Call.deed]
    rw [if_pos rfl, opened, channel, hp, find?_push, hl, if_pos rfl]
    rfl
  · have hne : ¬ r.nextHandle = k := fun e => hk e.symm
    simp [opened, channel, find?_push, hk, hne, Call.handle]

end Recording

end Soundscape
