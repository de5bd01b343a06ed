import Mathlib.Data.List.Forall2
import Soundscape.Playback.Wav
import Soundscape.Proofs.Recording.Channel

/-!
# A dry run against the files

A recording stands in for a backend over WAV files when it is told which clips are missing and how
long the others are (`Recording.Foretells`).  Whatever the two are then asked for, they answer alike
and have the same handles live, with clips of the same length (`Recording.dryRun_alike`).

The two keep lengths in different places: the recording looks a clip up whenever it is asked, the
backend has one length for each clip it read (`Wav.probe_eq`: the one that reading it again would
give) and another for each live handle.  What ties them is `Recording.Shadows`; every call keeps it
(`Recording.Shadows.perform`).
-/

namespace Soundscape

open AudioBackend

variable {α : Type}

/-! ### Answers of the same kind -/

/-- The same clip is missing, wherever it was looked for, or the same handle is not live. -/
inductive BackendError.Alike : BackendError → BackendError → Prop where
  | clipNotFound (clip path path' : String) :
    Alike (.clipNotFound clip path) (.clipNotFound clip path')
  | unknownHandle (h : Handle) : Alike (.unknownHandle h) (.unknownHandle h)

/-- The same answer, up to where a missing clip was looked for. -/
inductive Reply.Alike : Reply α → Reply α → Prop where
  | nothing : Alike .nothing .nothing
  | handle (h : Handle) : Alike (.handle h) (.handle h)
  | loaded : Alike .loaded .loaded
  | refused {e e' : BackendError} (h : e.Alike e') : Alike (.refused e) (.refused e')
  | length (seconds : Option α) : Alike (.length seconds) (.length seconds)

def Request.clip? : Request α → Option String
  | .acquire clip | .loadClip _ clip => some clip
  | _ => none

/-! ### The files -/

namespace Wav

/-- Where the clips are, and what reading them gives. -/
def files (w : Wav α) : String × Store := (w.root, w.store)

theorem clipLength_change [Scalar α] (w : Wav α) (h k : Handle) (f : WavHandle α → WavHandle α) :
    clipLength (w.change h f) k =
      if k = h then (w.live.find? k).map fun s => (f s).length else clipLength w k := by
  show ((w.live.update h f).find? k).map _ = _
  rw [LiveHandles.find?_update]
  split
  · rw [Option.map_map]
    rfl
  · rfl

theorem clipLength_release [Scalar α] (w : Wav α) (h k : Handle) :
    clipLength (release w h) k = if k = h then none else clipLength w k := by
  show ((w.live.erase h).find? k).map _ = _
  rw [LiveHandles.find?_erase]
  split <;> rfl

theorem clipLength_push [Scalar α] (w : Wav α) (acquired : Nat) (h k : Handle) (s : WavHandle α) :
    clipLength { w with acquired, live := w.live ++ [(h, s)] } k =
      (clipLength w k).or (if k = h then some s.length else none) := by
  show (List.lookup k (w.live ++ [(h, s)])).map _ = _
  rw [List.lookup_append, Option.map_or]
  refine congrArg _ ((congrArg _ (LiveHandles.find?_cons (h, s) [] k)).trans ?_)
  split <;> rfl

variable [Scalar α] {w w' : Wav α}

theorem readLength_congr (h : w'.files = w.files) (clip : String) :
    w'.readLength clip = w.readLength clip := by
  obtain ⟨hr, hs⟩ := Prod.mk.inj h
  simp only [readLength, clipPath, hr, hs]

/-- The lengths that are kept are those that the files still tell. -/
def Current (w : Wav α) : Prop :=
  ∀ clip l, w.lengths.lookup clip = some l → w.readLength clip = .ok l

/-- Whether a clip was read before or not, its length is the one that its file tells. -/
theorem probe_eq (hw : w.Current) (clip : String) :
    ∃ looked lengths, let w' := { w with looked, lengths }
      w.probe clip = (w.readLength clip, w') ∧ w'.Current := by
  cases hc : w.lengths.lookup clip with
  | some l => exact ⟨w.looked, w.lengths, by simp only [probe, hc, hw clip l hc], hw⟩
  | none =>
    have hr : readLength { w with looked := w.clipPath clip :: w.looked } clip =
        w.readLength clip := rfl
    cases hl : w.readLength clip with
    | error e =>
      exact ⟨w.clipPath clip :: w.looked, w.lengths, by simp only [probe, hc, hr, hl], hw⟩
    | ok l =>
      refine ⟨w.clipPath clip :: w.looked, (clip, l) :: w.lengths, by simp only [probe, hc, hr, hl],
        fun c m hm => ?_⟩
      rw [List.lookup_cons] at hm
      by_cases e : c = clip
      · subst e
        rw [beq_self_eq_true] at hm
        exact Option.some.inj hm ▸ hl
      · rw [beq_eq_false_iff_ne.mpr e] at hm
        exact hw c m hm

end Wav

/-! ### A recording in place of the files -/

namespace Recording

theorem clipLength_congr {r r' : Recording α} (h : r'.tables = r.tables) (k : Handle) :
    clipLength r' k = (r'.channel k).state.map fun s => r.lengthOf s.clip :=
  congrArg (fun f => (r'.live.find? k).map f) (funext fun s => lengthOf_congr h s.clip)

theorem clipLength_onLive (r : Recording α) (h : Handle) (call : Call α) (hc : call.handle = h)
    (change : HandleState α → HandleState α) (k : Handle) :
    clipLength (r.onLive h call change) k =
      if k = h then (r.live.find? k).map fun s => r.lengthOf (change s).clip
      else clipLength r k := by
  rw [clipLength_congr (r.kin_onLive h call change).tables, channel_onLive r h call hc]
  split
  · next hk =>
    subst hk
    cases hs : r.live.find? k <;> simp [Channel.onLive, channel, hs]
  · rfl

theorem clipLength_release (r : Recording α) (h k : Handle) :
    clipLength (r.release h) k = if k = h then none else clipLength r k := by
  refine (clipLength_congr (r.kin_tell h .release).tables k).trans ?_
  show ((r.release h).channel k).state.map _ = _
  rw [channel_release]
  split
  · next hk =>
    subst hk
    cases hs : r.live.find? k <;> simp [Channel.release, channel, hs]
  · rfl

theorem clipLength_opened (r : Recording α) (clip : String) (k : Handle) :
    clipLength (r.opened clip) k =
      (clipLength r k).or (if k = r.nextHandle then some (r.lengthOf clip) else none) := by
  show ((r.live ++ [(r.nextHandle, _)] : LiveHandles _).find? k).map _ = _
  rw [find?_push, Option.map_or]
  split <;> rfl

variable [Scalar α]

/-- A recording was told of a clip what its file would tell: that it is not there, or its length. -/
def Foretells (r : Recording α) (w : Wav α) (clip : String) : Prop :=
  if r.missing.contains clip then (w.store.read (w.clipPath clip)).toOption = none
  else (w.readLength clip).toOption = some (r.lengthOf clip)

instance [DecidableEq α] (r : Recording α) (w : Wav α) (clip : String) :
    Decidable (r.Foretells w clip) :=
  inferInstanceAs (Decidable (if r.missing.contains clip then _ else _))

/-- Some clips are foretold, and so far the recording and the backend over the files know the same
of all handles. -/
structure Shadows (clips : String → Prop) (r : Recording α) (w : Wav α) : Prop where
  foretold : ∀ clip, clips clip → r.Foretells w clip
  acquired : w.acquired = r.acquired
  lengths : ∀ h, clipLength w h = clipLength r h
  current : w.Current

theorem Foretells.congr {r r' : Recording α} {w w' : Wav α} {clip : String}
    (h : r.Foretells w clip) (hr : r'.tables = r.tables) (hw : w'.files = w.files) :
    r'.Foretells w' clip := by
  have hm : r'.missing = r.missing := congrArg (fun t => t.2.2) hr
  obtain ⟨hd, hs⟩ := Prod.mk.inj hw
  simp only [Foretells, Wav.clipPath] at h ⊢
  rw [hm, hd, hs, Wav.readLength_congr hw, lengthOf_congr hr]
  exact h

namespace Shadows

variable {clips : String → Prop} {r : Recording α} {w : Wav α}

theorem holds (hs : Shadows clips r w) (h : Handle) : w.live.holds h = r.live.holds h := by
  have hl := congrArg Option.isSome (hs.lengths h)
  simp only [clipLength, Option.isSome_map] at hl
  exact hl

/-- A change of a handle in both, after which its clip is as long in one as in the other. -/
theorem change (hs : Shadows clips r w) (h : Handle) (call : Call α) (hc : call.handle = h)
    {f : HandleState α → HandleState α} {g : WavHandle α → WavHandle α}
    (hl : (w.live.find? h).map (fun s => (g s).length) =
      (r.live.find? h).map fun s => r.lengthOf (f s).clip) :
    Shadows clips (r.onLive h call f) (w.change h g) where
  foretold clip hc := (hs.foretold clip hc).congr (r.kin_onLive h call f).tables rfl
  acquired := hs.acquired.trans (r.kin_onLive h call f).acquired.symm
  lengths k := by
    rw [Wav.clipLength_change, clipLength_onLive r h call hc]
    split
    · next hk => rw [hk, hl]
    · exact hs.lengths k
  current := hs.current

theorem update (hs : Shadows clips r w) (h : Handle) (call : Call α) (hc : call.handle = h)
    {f : HandleState α → HandleState α} {g : WavHandle α → WavHandle α}
    (hf : ∀ s, (f s).clip = s.clip := by intro; rfl)
    (hg : ∀ s, (g s).length = s.length := by intro; rfl) :
    Shadows clips (r.onLive h call f) (w.change h g) := by
  refine hs.change h call hc ?_
  simp only [hf, hg]
  exact hs.lengths h

theorem place (hs : Shadows clips r w) (h : Handle) (p : Placement α) :
    Shadows clips (r.onLive h (.place h p) id) w where
  foretold clip hc := (hs.foretold clip hc).congr (r.kin_onLive h _ id).tables rfl
  acquired := hs.acquired.trans (r.kin_onLive h _ id).acquired.symm
  lengths k := by
    have hr := clipLength_onLive r h (.place h p) rfl id k
    rw [hs.lengths, hr]
    exact (ite_self _).symm
  current := hs.current

theorem release (hs : Shadows clips r w) (h : Handle) :
    Shadows clips (r.release h) (AudioBackend.release w h) where
  foretold clip hc := (hs.foretold clip hc).congr (r.kin_tell h .release).tables rfl
  acquired := hs.acquired.trans (r.kin_tell h .release).acquired.symm
  lengths k := by
    rw [Wav.clipLength_release, clipLength_release, hs.lengths]
  current := hs.current

theorem probe (hs : Shadows clips r w) {clip : String} (hc : clips clip) :
    (r.missing.contains clip = true ∧
      ∃ path w', w.probe clip = (.error (.clipNotFound clip path), w') ∧ Shadows clips r w') ∨
    r.missing.contains clip = false ∧
      ∃ w', w.probe clip = (.ok (r.lengthOf clip), w') ∧ Shadows clips r w' := by
  obtain ⟨looked, lengths, hp, hw⟩ := w.probe_eq hs.current clip
  have hs' : Shadows clips r { w with looked, lengths } :=
    ⟨hs.foretold, hs.acquired, hs.lengths, hw⟩
  have hf := hs.foretold clip hc
  unfold Foretells at hf
  split at hf
  · next hm =>
    cases he : w.store.read (w.clipPath clip) with
    | ok bytes => simp [he, Except.toOption] at hf
    | error e =>
      have hr : w.readLength clip = .error (.clipNotFound clip (w.clipPath clip)) := by
        simp only [Wav.readLength, he]
      exact .inl ⟨hm, _, _, hr ▸ hp, hs'⟩
  · next hm =>
    cases hr : w.readLength clip with
    | error e => simp [hr, Except.toOption] at hf
    | ok l =>
      rw [hr] at hf hp
      obtain rfl : l = r.lengthOf clip := Option.some.inj hf
      exact .inr ⟨eq_false_of_ne_true hm, _, hp, hs'⟩

theorem acquire (hs : Shadows clips r w) {clip : String} (hc : clips clip) :
    (perform r (.acquire clip)).1.Alike (perform w (.acquire clip)).1 ∧
      Shadows clips (perform r (.acquire clip)).2 (perform w (.acquire clip)).2 := by
  rcases hs.probe hc with ⟨hm, path, w', hp, hs'⟩ | ⟨hm, w', hp, hs'⟩
  · simp only [perform, AudioBackend.acquire, Recording.acquire, Wav.acquire, hm, hp, if_true]
    exact ⟨.refused (.clipNotFound clip clip path), hs'⟩
  · simp only [perform, AudioBackend.acquire, acquire_eq, Wav.acquire, hm, hp, hs'.acquired,
      Bool.false_eq_true, if_false]
    refine ⟨.handle _, fun c hc => hs'.foretold c hc, rfl, fun k => ?_, hs'.current⟩
    rw [clipLength_opened, ← hs'.lengths, Wav.clipLength_push]
    rfl

theorem loadClip (hs : Shadows clips r w) (h : Handle) {clip : String} (hc : clips clip) :
    (perform r (.loadClip h clip)).1.Alike (perform w (.loadClip h clip)).1 ∧
      Shadows clips (perform r (.loadClip h clip)).2 (perform w (.loadClip h clip)).2 := by
  rcases hs.probe hc with ⟨hm, path, w', hp, hs'⟩ | ⟨hm, w', hp, hs'⟩
  · simp only [perform, AudioBackend.loadClip, Recording.loadClip, Wav.loadClip, hm, hp, if_true]
    exact ⟨.refused (.clipNotFound clip clip path), hs'⟩
  · have hl : Shadows clips
        (r.onLive h (.loadClip h clip) fun s => { s with clip, playing := false })
        (w'.change h fun s => { s with clip, length := r.lengthOf clip, playing := false }) := by
      refine hs'.change h _ rfl ?_
      have hl := hs'.holds h
      simp only [LiveHandles.holds] at hl
      cases hw : w'.live.find? h <;> cases hr : r.live.find? h <;> simp_all
    simp only [perform, AudioBackend.loadClip, Recording.loadClip, Wav.loadClip, hm, hp,
      Bool.false_eq_true, if_false, hs'.holds]
    cases r.live.holds h with
    | true => exact ⟨.loaded, hl⟩
    | false => exact ⟨.refused (.unknownHandle h), hl⟩

/-- Whatever both are asked for, they answer alike, and go on knowing the same of all handles. -/
theorem perform (hs : Shadows clips r w) (q : Request α) (hq : ∀ clip ∈ q.clip?, clips clip) :
    (AudioBackend.perform r q).1.Alike (AudioBackend.perform w q).1 ∧
      Shadows clips (AudioBackend.perform r q).2 (AudioBackend.perform w q).2 := by
  cases q with
  | acquire clip => exact hs.acquire (hq clip rfl)
  | loadClip h clip => exact hs.loadClip h (hq clip rfl)
  | setVolume h v => exact ⟨.nothing, hs.update h (.setVolume h v) rfl⟩
  | setPitch h v => exact ⟨.nothing, hs.update h (.setPitch h v) rfl⟩
  | play h looped => exact ⟨.nothing, hs.update h (.play h looped) rfl⟩
  | stop h => exact ⟨.nothing, hs.update h (.stop h) rfl⟩
  | release h => exact ⟨.nothing, hs.release h⟩
  | place h p => exact ⟨.nothing, hs.place h p⟩
  | clipLength h =>
    simp only [AudioBackend.perform, hs.lengths]
    exact ⟨.length _, hs⟩

theorem performAll (hs : Shadows clips r w) (qs : List (Request α))
    (hq : ∀ q ∈ qs, ∀ clip ∈ q.clip?, clips clip) :
    List.Forall₂ Reply.Alike (AudioBackend.performAll r qs).1 (AudioBackend.performAll w qs).1 ∧
      Shadows clips (AudioBackend.performAll r qs).2 (AudioBackend.performAll w qs).2 := by
  induction qs generalizing r w with
  | nil => exact ⟨.nil, hs⟩
  | cons q qs ih =>
    obtain ⟨ha, hs'⟩ := hs.perform q (hq q (by simp))
    obtain ⟨has, hs''⟩ := ih hs' fun p hp => hq p (by simp [hp])
    exact ⟨.cons ha has, hs''⟩

end Shadows

end Recording

/-- A dry run: a recording that is told what the files would tell of every clip it is asked for
answers as the backend over the files does, the same handles with the same errors, and all the
while the same handles are live in both and have clips of the same length. -/
theorem Recording.dryRun_alike [Scalar α] (root : String) (store : Store) (defaultLength : α)
    (lengths : List (String × α)) (missing : List String) (requests : List (Request α))
    (h : ∀ q ∈ requests, ∀ clip ∈ q.clip?,
      (empty defaultLength lengths missing).Foretells (.new root store) clip) :
    let dry := empty defaultLength lengths missing
    let real : Wav α := .new root store
    List.Forall₂ Reply.Alike (performAll dry requests).1 (performAll real requests).1 ∧
      ∀ before, before <+: requests → ∀ k,
        (performAll dry before).2.live.holds k = (performAll real before).2.live.holds k ∧
          clipLength (performAll dry before).2 k = clipLength (performAll real before).2 k := by
  intro dry real
  have hs : Shadows (dry.Foretells real) dry real :=
    ⟨fun _ hc => hc, rfl, fun _ => rfl, fun _ _ hl => by simp [real, Wav.new] at hl⟩
  refine ⟨(hs.performAll requests h).1, fun before hb k => ?_⟩
  have hs' := (hs.performAll before fun q hq => h q (hb.subset hq)).2
  exact ⟨(hs'.holds k).symm, (hs'.lengths k).symm⟩

/-- The bytes of six silent frames at four a second. -/
def WavHeader.sixFrames : ByteArray :=
  ⟨#[0x52, 0x49, 0x46, 0x46, 48, 0, 0, 0, 0x57, 0x41, 0x56, 0x45,
    0x66, 0x6d, 0x74, 0x20, 16, 0, 0, 0, 1, 0, 1, 0, 4, 0, 0, 0, 8, 0, 0, 0, 2, 0, 16, 0,
    0x64, 0x61, 0x74, 0x61, 12, 0, 0, 0, 0, 0, 0, 0, 0, 0, 0, 0, 0, 0, 0, 0]⟩

/-- One clip that is there and one that is not; the handle is used after it was released. -/
theorem Recording.dryRun_alike_bird :
    let store : Store :=
      ⟨fun path => if path = "clips/bird.wav" then .ok WavHeader.sixFrames else .error .notFound⟩
    let requests : List (Request Rat) :=
      [.acquire "bird", .acquire "owl", .loadClip ⟨1⟩ "owl", .loadClip ⟨1⟩ "bird", .clipLength ⟨1⟩,
        .release ⟨1⟩, .loadClip ⟨1⟩ "bird", .play ⟨1⟩ true, .clipLength ⟨1⟩, .acquire "bird"]
    let dry : Recording Rat := empty 1 [("bird", 3 / 2)] ["owl"]
    let real : Wav Rat := .new "clips" store
    (∀ q ∈ requests, ∀ clip ∈ q.clip?, dry.Foretells real clip) ∧
      List.Forall₂ Reply.Alike (performAll dry requests).1 (performAll real requests).1 ∧
        ∀ before, before <+: requests → ∀ k,
          (performAll dry before).2.live.holds k = (performAll real before).2.live.holds k ∧
            clipLength (performAll dry before).2 k = clipLength (performAll real before).2 k := by
  intro store requests dry real
  have h : ∀ q ∈ requests, ∀ clip ∈ q.clip?, dry.Foretells real clip := by decide +kernel
  exact ⟨h, dryRun_alike "clips" store 1 [("bird", 3 / 2)] ["owl"] requests h⟩

end Soundscape
