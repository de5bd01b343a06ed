import Soundscape.Proofs.Scheduler.Crew

/-!
# Runs of a scheduler

A world is a scheduler, the recording that it plays on, and, for each handle in the order they were
acquired, the instance whose step of time acquired it.  Events happen to it one after the other, and
between two of them clips can be lost.  `World.Sound` is what holds after each; the main results:

* `World.Sound.after`, `World.sound_run`: one event, and every run from the start;
* `World.Sound.live_perm`: the live handles are those of the voices in use.
-/

namespace Soundscape

variable {α : Type}

/-- A scheduler on a recording, and who acquired each handle. -/
structure World (α : Type) where
  scheduler : Scheduler α
  recording : Recording α
  owners : List (Instance α)

/-- What can happen to a world. -/
inductive Occurrence (α : Type) where
  | event (e : Scheduler.Event α)
  | lose (clip : String)

namespace Scheduler

/-- The voices that the players hold and those that nobody holds. -/
def allVoices (s : Scheduler α) : List (Voice α) := s.players.filterMap Player.voice ++ s.voices

theorem voiceCount_eq (s : Scheduler α) : s.voiceCount = s.allVoices.length := by
  have h (ps : List (Player α)) :
      (ps.filterMap Player.voice).length = (ps.filter fun p => p.voice.isSome).length := by
    induction ps with
    | nil => rfl
    | cons p ps ih => cases hv : p.voice <;> simp [hv, ih]
  rw [voiceCount, allVoices, List.length_append, h, Nat.add_comm]

end Scheduler

def Recording.lose (clip : String) (r : Recording α) : Recording α :=
  { r with missing := clip :: r.missing }

theorem Tended.lose {os : List (Instance α)} {vs : List (Voice α)} {r : Recording α}
    (h : Tended os vs r) (clip : String) : Tended os vs (r.lose clip) := by
  have hc (k : Handle) : (r.lose clip).channel k =
      { r.channel k with missing := clip :: (r.channel k).missing } := rfl
  refine ⟨h.count, fun k hk => ?_, h.live, h.stale, h.distinct, fun v hv => ?_,
    fun k i hi hn => (h.parted k i hi hn).lose clip⟩
  · rw [hc, h.unissued k hk]
    rfl
  · obtain ⟨i, hi, hk⟩ := h.kept v hv
    exact ⟨i, hi, hk.fades, hk.course.lose clip⟩

namespace World

/-- What holds of a world after each event. -/
structure Sound (w : World α) : Prop where
  crew : Crew w.owners w.scheduler.players w.scheduler.voices w.recording
  active : ∀ p ∈ w.scheduler.players, p.isTerminated = false
  held : ∀ v ∈ w.scheduler.voices, v.isReleased = false
  ids : ∀ p ∈ w.scheduler.players, p.id < w.scheduler.nextId
  issued : ∀ i ∈ w.owners, i.id < w.scheduler.nextId

namespace Sound

variable {w : World α}

theorem tended (h : w.Sound) : Tended w.owners w.scheduler.allVoices w.recording := h.crew.tended

theorem unreleased (h : w.Sound) : ∀ v ∈ w.scheduler.allVoices, v.isReleased = false := by
  intro v hv
  obtain hv | hv := List.mem_append.mp hv
  · obtain ⟨p, hp, hpv⟩ := List.mem_filterMap.mp hv
    have hc := h.crew.coherent p hp
    obtain ⟨i, hi, hk⟩ := h.tended.kept v (List.mem_append_left _ hv)
    rw [← (h.crew.own p hp v hpv).unique hi, show p.identity.statement = p.statement from rfl] at hk
    unfold Player.Coherent at hc
    split at hc
    · simp [hpv] at hc
    · simp [hpv] at hc
    · exact hk.not_released (Statement.isHeld_iff.mpr (by simpa [hpv] using hc))
    all_goals
      obtain ⟨-, v', hv', hr⟩ := hc
      rw [hpv] at hv'
      exact Option.some.inj hv' ▸ hr
  · exact h.held v hv

/-- The live handles are those of the voices in use. -/
theorem live_perm (h : w.Sound) :
    w.recording.liveHandles.Perm (w.scheduler.allVoices.map Voice.handle) := by
  refine (List.perm_ext_iff_of_nodup h.tended.live h.tended.distinct).mpr fun k => ?_
  rw [Recording.mem_liveHandles]
  constructor
  · intro hk
    by_cases hn : k ∈ w.scheduler.allVoices.map Voice.handle
    · exact hn
    · by_cases ho : ∃ i, Owns w.owners k i
      · obtain ⟨i, hi⟩ := ho
        simp [(h.tended.parted k i hi hn).dead] at hk
      · simp [h.tended.unissued k (not_exists.mp ho), Channel.silent] at hk
  · intro hk
    obtain ⟨v, hv, rfl⟩ := List.mem_map.mp hk
    obtain ⟨i, -, hkept⟩ := h.tended.kept v hv
    exact hkept.isSome_live (h.unreleased v hv)

theorem lose (h : w.Sound) (clip : String) :
    Sound { w with recording := w.recording.lose clip } :=
  ⟨⟨h.crew.tended.lose clip, h.crew.coherent, h.crew.own, h.crew.ids⟩, h.active, h.held, h.ids,
    h.issued⟩

theorem spawnOne [Scalar α] (h : w.Sound) (s : Statement α) :
    Sound { w with scheduler := w.scheduler.spawnOne s } := by
  have hps : (w.scheduler.spawnOne s).players = w.scheduler.players ++
      [.new w.scheduler.nextId s (.ofSeed w.scheduler.source.next.1)] := rfl
  have hmem {p : Player α} (hp : p ∈ (w.scheduler.spawnOne s).players) :
      p ∈ w.scheduler.players ∨
        p = .new w.scheduler.nextId s (.ofSeed w.scheduler.source.next.1) := by
    rw [hps] at hp
    exact (List.mem_append.mp hp).imp_right List.mem_singleton.mp
  have hvoices : (w.scheduler.spawnOne s).players.filterMap Player.voice =
      w.scheduler.players.filterMap Player.voice := by
    rw [hps, List.filterMap_append]
    exact List.append_nil _
  refine ⟨⟨?_, fun p hp => ?_, fun p hp v hv => ?_, ?_⟩, fun p hp => ?_, h.held, fun p hp => ?_,
    fun i hi => Nat.lt_succ_of_lt (h.issued i hi)⟩
  · exact (congrArg (fun vs => Tended w.owners (vs ++ w.scheduler.voices) w.recording)
      hvoices).mpr h.crew.tended
  · obtain hp | rfl := hmem hp
    · exact h.crew.coherent p hp
    · exact Player.coherent_new ..
  · obtain hp | rfl := hmem hp
    · exact h.crew.own p hp v hv
    · cases hv
  · show ((w.scheduler.spawnOne s).players.map Player.id).Pairwise (· < ·)
    rw [hps, List.map_append]
    refine List.pairwise_append.mpr ⟨h.crew.ids, by simp, fun m hm n hn => ?_⟩
    obtain ⟨p, hp, rfl⟩ := List.mem_map.mp hm
    obtain rfl : n = w.scheduler.nextId := List.mem_singleton.mp hn
    exact h.ids p hp
  · obtain hp | rfl := hmem hp
    · exact h.active p hp
    · rfl
  · obtain hp | rfl := hmem hp
    · exact Nat.lt_succ_of_lt (h.ids p hp)
    · exact Nat.lt_succ_self _

theorem spawn [Scalar α] (h : w.Sound) (statements : List (Statement α)) :
    Sound { w with scheduler := w.scheduler.spawn statements } := by
  unfold Scheduler.spawn
  generalize Scheduler.instances statements = ss
  induction ss generalizing w with
  | nil => exact h
  | cons s ss ih => exact ih (h.spawnOne s)

end Sound

section New

variable [Scalar α]

def new (seed : UInt64) (fallback : α) (recording : Recording α) : World α :=
  ⟨.new seed fallback, recording, []⟩

theorem sound_new (seed : UInt64) (fallback len : α) (lens : List (String × α))
    (missing : List String) : (new seed fallback (.empty len lens missing)).Sound := by
  have hc : Crew [] [] [] (.empty len lens missing) :=
    ⟨.empty len lens missing, by simp, by simp, List.Pairwise.nil⟩
  have hw : new seed fallback (.empty len lens missing) =
      ⟨⟨[], [], .ofSeed seed, 0, 0, Scalar.larger fallback 0⟩, .empty len lens missing, []⟩ := rfl
  rw [hw]
  exact ⟨hc, by simp, by simp, by simp, by simp⟩

end New

variable [Scalar α] [Easing α]

/-- The instances that acquire new handles in an event. -/
def acquisitions (w : World α) : Scheduler.Event α → List (Instance α)
  | .tick dt =>
    let dt := Scalar.larger dt 0
    Crew.acquisitions dt w.scheduler.fallback w.scheduler.players
      (Voice.advanceAll dt w.scheduler.voices w.recording).2
  | _ => []

def after (w : World α) : Occurrence α → World α
  | .event e =>
    let (scheduler, recording) := w.scheduler.handle w.recording e
    ⟨scheduler, recording, w.owners ++ w.acquisitions e⟩
  | .lose clip => { w with recording := w.recording.lose clip }

/-- The world after some things have happened, one after the other. -/
def run (w : World α) (os : List (Occurrence α)) : World α := os.foldl after w

theorem run_append (w : World α) (os os' : List (Occurrence α)) :
    w.run (os ++ os') = (w.run os).run os' :=
  List.foldl_append

theorem run_events (w : World α) (es : List (Scheduler.Event α)) :
    (w.run (es.map .event)).scheduler = (w.scheduler.handleAll w.recording es).1 ∧
      (w.run (es.map .event)).recording = (w.scheduler.handleAll w.recording es).2 := by
  induction es generalizing w with
  | nil => exact ⟨rfl, rfl⟩
  | cons e es ih => exact ih (w.after (.event e))

theorem Sound.hardReset {w : World α} (h : w.Sound) :
    (w.after (.event .hardReset)).Sound ∧
      (w.after (.event .hardReset)).scheduler.allVoices = [] := by
  have hw : w.after (.event .hardReset) =
      ⟨{ w.scheduler with players := [], voices := [] },
        (Voice.killAll w.scheduler.voices
          (Scheduler.cancelAll w.scheduler.players w.recording)).2, w.owners⟩ := by
    simp [World.after, acquisitions, Scheduler.handle, Scheduler.hardReset]
  rw [hw]
  exact ⟨⟨h.crew.cancelAll.killAll, by simp, by simp, by simp, h.issued⟩, rfl⟩

theorem Sound.tick {w : World α} (h : w.Sound) (dt : α) : (w.after (.event (.tick dt))).Sound := by
  have hv : Crew w.owners ([] ++ w.scheduler.players) _ _ :=
    h.crew.advanceVoices (Scalar.larger dt 0)
  have hc := (hv.advanceAll (Scalar.larger dt 0) w.scheduler.fallback).dropReleased.dropTerminated
  have hi := hv.identity_advanceAll (Scalar.larger dt 0) w.scheduler.fallback
  simp only [World.after, Scheduler.handle, Scheduler.tick, acquisitions, Voice.advanceAll_eq]
  refine ⟨by simpa using hc, fun p hp => ?_, fun v hv => ?_, fun p hp => ?_, fun i hi => ?_⟩
  · simpa using (List.mem_filter.mp hp).2
  · obtain hv | hv := List.mem_append.mp hv
    · simpa using (List.mem_filter.mp hv).2
    · simpa using (List.mem_filter.mp hv).2
  · have hp := List.mem_map_of_mem (f := Player.identity) (List.mem_filter.mp hp).1
    rw [hi] at hp
    obtain ⟨q, hq, he⟩ := List.mem_map.mp hp
    have hid : q.id = p.id := congrArg Instance.id he
    exact hid ▸ h.ids q hq
  · obtain hi | hi := List.mem_append.mp hi
    · exact h.issued i hi
    · obtain ⟨p, hp, rfl⟩ := Crew.mem_acquisitions hi
      exact h.ids p hp

theorem Sound.after {w : World α} (h : w.Sound) (o : Occurrence α) : (w.after o).Sound := by
  cases o with
  | lose clip => exact h.lose clip
  | event e =>
    cases e with
    | spawn statements =>
      have hw : w.after (.event (.spawn statements)) =
          { w with scheduler := w.scheduler.spawn statements } := by
        simp [World.after, acquisitions, Scheduler.handle]
      rw [hw]
      exact h.spawn statements
    | tick dt => exact h.tick dt
    | hardReset => exact h.hardReset.1

theorem Sound.run {w : World α} (h : w.Sound) (os : List (Occurrence α)) : (w.run os).Sound := by
  induction os generalizing w with
  | nil => exact h
  | cons o os ih => exact ih (h.after o)

theorem sound_run (seed : UInt64) (fallback len : α) (lens : List (String × α))
    (missing : List String) (os : List (Occurrence α)) :
    ((new seed fallback (.empty len lens missing)).run os).Sound :=
  (sound_new seed fallback len lens missing).run os

end World

end Soundscape
