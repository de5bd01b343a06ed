import Soundscape.Proofs.Scheduler.Solo

/-!
# Instances do not influence each other

Whatever else a scheduler plays, an instance does what it would do alone (`Spawning.sameAlone`),
wherever all of them come back.  Its seed is the word of the scheduler's source that has its number
(`Scheduler.players_spawn`, `World.source_run`), so not even its draws depend on the others.
-/

namespace Soundscape

variable {α : Type}

/-! ### Seeds -/

namespace Scheduler

variable [Scalar α]

/-- The players that are spawned for instances, one for each. -/
def newcomers (s : Scheduler α) (ss : List (Statement α)) : List (Player α) :=
  ss.mapIdx fun k statement =>
    .new (s.nextId + k) statement (.ofSeed (s.source.skip k).next.1)

theorem id_newcomers {s : Scheduler α} {ss : List (Statement α)} {p : Player α}
    (hp : p ∈ s.newcomers ss) : s.nextId ≤ p.id := by
  obtain ⟨k, hk, rfl⟩ := List.mem_mapIdx.mp hp
  exact Nat.le_add_right ..

theorem map_statement_newcomers (s : Scheduler α) (ss : List (Statement α)) :
    (s.newcomers ss).map Player.statement = ss := by
  refine List.ext_getElem? fun k => ?_
  rw [List.getElem?_map, newcomers, List.getElem?_mapIdx]
  cases ss[k]? <;> rfl

theorem id_of_getElem?_newcomers {s : Scheduler α} {ss : List (Statement α)} {k : Nat}
    {p : Player α} (hp : (s.newcomers ss)[k]? = some p) : p.id = s.nextId + k := by
  rw [newcomers, List.getElem?_mapIdx] at hp
  obtain ⟨statement, -, rfl⟩ := Option.map_eq_some_iff.mp hp
  rfl

theorem newcomers_cons (s : Scheduler α) (t : Statement α) (ss : List (Statement α)) :
    s.newcomers (t :: ss) =
      .new s.nextId t (.ofSeed s.source.next.1) :: (s.spawnOne t).newcomers ss := by
  have hid (k : Nat) : s.nextId + (k + 1) = s.nextId + 1 + k := by omega
  rw [newcomers, List.mapIdx_cons]
  refine congrArg (_ :: ·) (congrArg (List.mapIdx · ss) (funext fun k => funext fun u => ?_))
  rw [hid]
  rfl

theorem foldl_spawnOne (ss : List (Statement α)) (s : Scheduler α) :
    ss.foldl spawnOne s = { s with
      players := s.players ++ s.newcomers ss
      source := s.source.skip ss.length
      nextId := s.nextId + ss.length } := by
  induction ss generalizing s with
  | nil => simp [newcomers, Source.skip]
  | cons t ss ih =>
    have hid : s.nextId + 1 + ss.length = s.nextId + (ss.length + 1) := by omega
    rw [List.foldl_cons, ih, newcomers_cons, List.append_cons, List.length_cons, ← hid]
    rfl

theorem players_spawn (statements : List (Statement α)) (s : Scheduler α) :
    (s.spawn statements).players = s.players ++ s.newcomers (instances statements) := by
  rw [spawn, foldl_spawnOne]

end Scheduler

/-- The statements of the instances that are spawned when something happens. -/
def Occurrence.instances : Occurrence α → List (Statement α)
  | .event (.spawn statements) => Scheduler.instances statements
  | _ => []

namespace World

variable [Scalar α] [Easing α]

theorem source_after (w : World α) (o : Occurrence α) :
    (w.after o).scheduler.source = w.scheduler.source.skip o.instances.length ∧
      (w.after o).scheduler.nextId = w.scheduler.nextId + o.instances.length ∧
      (w.after o).scheduler.fallback = w.scheduler.fallback := by
  cases o with
  | lose clip => exact ⟨rfl, rfl, rfl⟩
  | event e =>
    cases e with
    | spawn statements =>
      have hs : (w.after (.event (.spawn statements))).scheduler =
          w.scheduler.spawn statements := rfl
      rw [hs, Scheduler.spawn, Scheduler.foldl_spawnOne]
      exact ⟨rfl, rfl, rfl⟩
    | tick dt => exact ⟨rfl, rfl, rfl⟩
    | hardReset => exact ⟨rfl, rfl, rfl⟩

theorem source_run (w : World α) (os : List (Occurrence α)) :
    (w.run os).scheduler.source =
        w.scheduler.source.skip (os.flatMap Occurrence.instances).length ∧
      (w.run os).scheduler.nextId =
        w.scheduler.nextId + (os.flatMap Occurrence.instances).length := by
  induction os generalizing w with
  | nil => exact ⟨rfl, rfl⟩
  | cons o os ih =>
    obtain ⟨hs, hn⟩ := ih (w.after o)
    obtain ⟨hs', hn', -⟩ := w.source_after o
    rw [List.flatMap_cons, List.length_append]
    refine ⟨?_, ?_⟩
    · rw [Source.skip_add, ← hs']
      exact hs
    · rw [← Nat.add_assoc, ← hn']
      exact hn

end World

/-! ### A run and its solo -/

/-- The solo is what one instance of the world does. -/
structure Follows (id : Nat) (w : World α) (x : Solo α) : Prop where
  mirrors : Mirrors id w.owners w.recording x.recording
  stands : Stands id w.owners w.scheduler.players x.player
  voices : x.voices = ownVoices id w.owners w.scheduler.voices
  earlier : id < w.scheduler.nextId

theorem Mirrors.lose {id : Nat} {os : List (Instance α)} {b c : Recording α}
    (hm : Mirrors id os b c) (clip : String) : Mirrors id os (b.lose clip) (c.lose clip) := by
  have hlose {r : Recording α} (hr : r.Unissued) : (r.lose clip).Unissued := fun h hn =>
    congrArg (fun x : Channel α => { x with missing := clip :: x.missing }) (hr h hn)
  refine ⟨?_, hm.count, hm.own, hlose hm.shared, hlose hm.alone, fun h hh => ?_, hm.calls⟩
  · exact congrArg (fun t : α × List (String × α) × List String => (t.1, t.2.1, clip :: t.2.2))
      hm.tables
  · exact congrArg (fun x : Channel α => { x with missing := clip :: x.missing })
      (hm.channel h hh)

namespace Follows

variable {id : Nat} {w : World α} {x : Solo α}

theorem lose (h : Follows id w x) (clip : String) :
    Follows id { w with recording := w.recording.lose clip }
      { x with recording := x.recording.lose clip } :=
  ⟨h.mirrors.lose clip, h.stands, h.voices, h.earlier⟩

theorem issued (hw : w.Sound) {v : Voice α} (hv : v ∈ w.scheduler.voices) :
    ∃ i, Owns w.owners v.handle i := by
  obtain ⟨i, hi, -⟩ := hw.tended.kept v (List.mem_append_right _ hv)
  exact ⟨i, hi⟩

variable [Scalar α] [Easing α]

theorem spawn (h : Follows id w x) (statements : List (Statement α)) :
    Follows id (w.after (.event (.spawn statements))) x := by
  have hw : w.after (.event (.spawn statements)) =
      { w with scheduler := w.scheduler.spawn statements } := by
    simp [World.after, World.acquisitions, Scheduler.handle]
  rw [hw]
  refine ⟨h.mirrors, ?_, ?_, ?_⟩
  · show Stands id w.owners (w.scheduler.spawn statements).players x.player
    rw [Scheduler.players_spawn]
    refine h.stands.append fun p hp he => ?_
    have := Scheduler.id_newcomers hp
    have := h.earlier
    omega
  · rw [h.voices, Scheduler.spawn, Scheduler.foldl_spawnOne]
  · show id < (w.scheduler.spawn statements).nextId
    rw [Scheduler.spawn, Scheduler.foldl_spawnOne]
    exact Nat.lt_add_right _ h.earlier

theorem hardReset (h : Follows id w x) (hw : w.Sound) :
    Follows id (w.after (.event .hardReset)) x.reset := by
  have hw' : w.after (.event .hardReset) =
      ⟨{ w.scheduler with players := [], voices := [] },
        (Voice.killAll w.scheduler.voices
          (Scheduler.cancelAll w.scheduler.players w.recording)).2, w.owners⟩ := by
    simp [World.after, World.acquisitions, Scheduler.handle, Scheduler.hardReset]
  rw [hw']
  refine ⟨?_, ?_, rfl, h.earlier⟩
  · have hm := h.stands.cancelAll h.mirrors hw.crew.own
    have hm' := hm.tellEach (fun v hv => issued hw hv) Voice.lastWords_onHandle
    rw [← Voice.killAll_eq, ← Voice.killAll_eq, ← h.voices] at hm'
    exact hm'
  · have ht : x.reset.player.isTerminated ∧ x.reset.player.voice = none := by
      unfold Solo.reset Player.cancel
      cases hv : x.player.voice with
      | none => exact ⟨rfl, hv⟩
      | some v => exact ⟨rfl, rfl⟩
    exact .gone ht.1 ht.2

theorem tick (h : Follows id w x) (hw : w.Sound) (dt : α) :
    Follows id (w.after (.event (.tick dt))) (x.tick dt w.scheduler.fallback) := by
  have hm := h.mirrors.tellEach (fun v hv => issued hw hv)
    (Voice.tells_onHandle · (Scalar.larger dt 0))
  have hv : Crew w.owners ([] ++ w.scheduler.players) _ _ :=
    hw.crew.advanceVoices (Scalar.larger dt 0)
  obtain ⟨q, c, hadv, hst, hm'⟩ :=
    h.stands.advanceAll hm hv (Scalar.larger dt 0) w.scheduler.fallback
  have hc := (hv.advanceAll (Scalar.larger dt 0) w.scheduler.fallback).coherent
  rw [← h.voices] at hadv
  simp only [World.after, Scheduler.handle, Scheduler.tick, World.acquisitions,
    Voice.advanceAll_eq, Solo.tick, hadv]
  refine ⟨hm', hst.dropTerminated (by simpa using hc), ?_, h.earlier⟩
  have hold : ∀ v ∈ w.scheduler.voices.map (Voice.next (Scalar.larger dt 0)),
      v.handle.number ≤ w.owners.length := by
    intro v hv
    obtain ⟨u, hu, rfl⟩ := List.mem_map.mp hv
    obtain ⟨i, hi⟩ := issued hw hu
    rw [Voice.next_handle]
    exact hi.number_le
  rw [List.filter_append, ownVoices_append, ownVoices_held, ownVoices_held, ownVoices_grow hold,
    ownVoices_next, h.voices]

theorem after (h : Follows id w x) (hw : w.Sound) (o : Occurrence α) :
    Follows id (w.after o) (x.after w.scheduler.fallback o) := by
  cases o with
  | lose clip => exact h.lose clip
  | event e =>
    cases e with
    | spawn statements => exact h.spawn statements
    | tick dt => exact h.tick hw dt
    | hardReset => exact h.hardReset hw

theorem run (h : Follows id w x) (hw : w.Sound) (os : List (Occurrence α)) :
    Follows id (w.run os) (x.run w.scheduler.fallback os) := by
  induction os generalizing w x with
  | nil => exact h
  | cons o os ih =>
    have hn := ih (h.after hw o) (hw.after o)
    rw [(w.source_after o).2.2] at hn
    exact hn

end Follows

/-! ### The start -/

def Recording.afresh (r : Recording α) : Recording α := .empty r.defaultLength r.lengths r.missing

theorem Mirrors.start {id : Nat} {os : List (Instance α)} {vs : List (Voice α)} {r : Recording α}
    (ht : Tended os vs r) (hos : ∀ i ∈ os, i.id ≠ id) : Mirrors id os r r.afresh := by
  refine ⟨rfl, ht.count.symm, ?_, fun h hn => ?_, fun _ _ => rfl, fun h hb => ?_, ?_⟩
  · refine (List.countP_eq_zero.mpr fun i hi => ?_).symm
    simpa using hos i hi
  · refine ht.unissued h fun i hi => ?_
    have := hi.number_le
    have := ht.count
    omega
  · rw [belongs_of_others hos] at hb
    cases hb
  · have hz : r.calls.toList.filter (fun c => belongs id os c.handle) = [] :=
      List.filter_eq_nil_iff.mpr fun c _ => by simp [belongs_of_others hos]
    rw [hz]
    rfl

theorem Stands.of_mem {os : List (Instance α)} {ps : List (Player α)} {p : Player α}
    (hids : (ps.map Player.id).Pairwise (· < ·)) (hp : p ∈ ps) :
    Stands p.id os ps (p.rename (renamed p.id os)) := by
  obtain ⟨before, later, rfl⟩ := List.append_of_mem hp
  rw [List.map_append, List.map_cons] at hids
  obtain ⟨-, hlater, hbefore⟩ := List.pairwise_append.mp hids
  refine (Stands.here rfl fun q hq => ?_).prepend fun q hq => ?_
  · exact Nat.ne_of_gt ((List.pairwise_cons.mp hlater).1 _ (List.mem_map_of_mem hq))
  · exact Nat.ne_of_lt (hbefore _ (List.mem_map_of_mem hq) _ List.mem_cons_self)

theorem Scheduler.voice_newcomers [Scalar α] {s : Scheduler α} {ss : List (Statement α)}
    {p : Player α} (hp : p ∈ s.newcomers ss) : p.voice = none := by
  obtain ⟨k, hk, rfl⟩ := List.mem_mapIdx.mp hp
  rfl

theorem Follows.start [Scalar α] [Easing α] {w : World α} (hw : w.Sound)
    (statements : List (Statement α)) {p : Player α}
    (hp : p ∈ w.scheduler.newcomers (Scheduler.instances statements)) :
    Follows p.id (w.after (.event (.spawn statements))) (.new p w.recording.afresh) := by
  have hw' : w.after (.event (.spawn statements)) =
      { w with scheduler := w.scheduler.spawn statements } := by
    simp [World.after, World.acquisitions, Scheduler.handle]
  have hsound := hw.after (.event (.spawn statements))
  rw [hw'] at hsound ⊢
  have hos : ∀ i ∈ w.owners, i.id ≠ p.id := by
    intro i hi
    have := hw.issued i hi
    have := Scheduler.id_newcomers hp
    omega
  have hmem : p ∈ (w.scheduler.spawn statements).players := by
    rw [Scheduler.players_spawn]
    exact List.mem_append_right _ hp
  have hrename : p.rename (renamed p.id w.owners) = p := by
    rw [Player.rename, Scheduler.voice_newcomers hp, Option.map_none,
      ← Scheduler.voice_newcomers hp, Player.having_self]
  refine ⟨.start hw.tended hos, ?_, ?_, hsound.ids p hmem⟩
  · have hst : Stands p.id w.owners _ (p.rename (renamed p.id w.owners)) :=
      .of_mem hsound.crew.ids hmem
    rw [hrename] at hst
    exact hst
  · refine (List.map_eq_nil_iff.mpr (List.filter_eq_nil_iff.mpr fun v _ => ?_)).symm
    simp [belongs_of_others hos]

/-- What can be seen of an instance in a world is what can be seen of it alone, but for the numbers
of its handles. -/
structure SameAlone (id : Nat) (f : Handle → Handle) (w : World α) (x : Solo α) : Prop where
  /-- No two handles of the instance get one number. -/
  distinct : ∀ h k, belongs id w.owners h → belongs id w.owners k → f h = f k → h = k
  /-- The voice of its player is on a handle of its own. -/
  held : ∀ p ∈ w.scheduler.players, p.id = id → ∀ v ∈ p.voice, belongs id w.owners v.handle
  player : (w.scheduler.players.filter fun p => p.id == id).map (Player.rename f) =
    [x.player].filter fun p => !p.isTerminated
  voices : (w.scheduler.voices.filter fun v => belongs id w.owners v.handle).map
    (Voice.rename f) = x.voices
  calls : (w.recording.calls.toList.filter fun c => belongs id w.owners c.handle).map
    (Call.rename f) = x.recording.calls.toList
  live : ∀ h, belongs id w.owners h →
    w.recording.live.find? h = x.recording.live.find? (f h)

theorem Follows.sameAlone {id : Nat} {w : World α} {x : Solo α} (h : Follows id w x)
    (hw : w.Sound) {os : List (Instance α)} (hos : w.owners <+: os) :
    SameAlone id (renamed id os) w x := by
  obtain ⟨os', rfl⟩ := hos
  have hren {k : Handle} (hk : belongs id w.owners k) :
      renamed id (w.owners ++ os') k = renamed id w.owners k := by
    obtain ⟨i, hi, -⟩ := belongs_iff.mp hk
    exact renamed_append (Nat.le_succ_of_le hi.number_le) os'
  refine ⟨fun k l hk hl he => ?_, fun p hp hid v hv => ?_, ?_, ?_, ?_, fun k hk => ?_⟩
  · rw [hren hk, hren hl] at he
    exact renamed_inj hk hl he
  · exact belongs_iff.mpr ⟨_, hw.crew.own p hp v hv, hid⟩
  · rw [← h.stands.filter_eq hw.active]
    refine List.map_congr_left fun p hp => Player.rename_grow (fun v hv => ?_) os'
    exact (hw.crew.own p (List.mem_filter.mp hp).1 v hv).number_le
  · rw [h.voices]
    refine List.map_congr_left fun v hv => ?_
    rw [Voice.rename, Voice.rename, hren (List.mem_filter.mp hv).2]
  · rw [← h.mirrors.calls]
    exact List.map_congr_left fun c hc => Call.rename_congr (hren (List.mem_filter.mp hc).2)
  · rw [hren hk]
    exact congrArg Channel.state (h.mirrors.channel k hk)

/-! ### Every run -/

namespace World

variable [Scalar α] [Easing α]

theorem owners_run (w : World α) (os : List (Occurrence α)) : w.owners <+: (w.run os).owners := by
  induction os generalizing w with
  | nil => exact List.prefix_refl _
  | cons o os ih =>
    refine List.IsPrefix.trans ?_ (ih (w.after o))
    cases o with
    | event e => exact List.prefix_append ..
    | lose clip => exact List.prefix_refl _

theorem owners_run_take (w : World α) (os os' : List (Occurrence α)) (n : Nat) :
    (w.run (os ++ os'.take n)).owners <+: (w.run (os ++ os')).owners := by
  have h := (w.run (os ++ os'.take n)).owners_run (os'.drop n)
  rwa [← run_append, List.append_assoc, List.take_append_drop] at h

theorem fallback_run (w : World α) (os : List (Occurrence α)) :
    (w.run os).scheduler.fallback = w.scheduler.fallback := by
  induction os generalizing w with
  | nil => rfl
  | cons o os ih => exact (ih (w.after o)).trans (w.source_after o).2.2

end World

/-- An instance that is spawned in a run. -/
structure Spawning (α : Type) where
  before : List (Occurrence α)
  statements : List (Statement α)
  place : Fin (Scheduler.instances statements).length
  since : List (Occurrence α)

namespace Spawning

def event (x : Spawning α) : Occurrence α := .event (.spawn x.statements)

def run (x : Spawning α) : List (Occurrence α) := x.before ++ x.event :: x.since

/-- What happens up to some time after the instance was spawned. -/
def upTo (n : Nat) (x : Spawning α) : List (Occurrence α) :=
  x.before ++ x.event :: x.since.take n

theorem upTo_append (n : Nat) (x : Spawning α) : x.upTo n ++ x.since.drop n = x.run := by
  rw [upTo, run, List.append_assoc, List.cons_append, List.take_append_drop]

/-- The number of the instance among all that are spawned so far. -/
def number (x : Spawning α) : Nat := (x.before.flatMap Occurrence.instances).length + x.place

variable [Scalar α]

/-- The player of the instance.  Its seed is the word of the scheduler's source that has its
number. -/
def player (seed : UInt64) (x : Spawning α) : Player α :=
  .new x.number (Scheduler.instances x.statements)[x.place]
    (.ofSeed ((Source.ofSeed seed).skip x.number).next.1)

variable [Easing α]

/-- The instance alone, on a recording with the clips that there are when it is spawned. -/
def alone (seed : UInt64) (start : World α) (x : Spawning α) : Solo α :=
  .new (x.player seed) (start.run x.before).recording.afresh

theorem getElem?_newcomers (seed : UInt64) (fallback : α) (r : Recording α) (x : Spawning α) :
    let w := (World.new seed fallback r).run x.before
    (w.scheduler.newcomers (Scheduler.instances x.statements))[x.place.val]? =
      some (x.player seed) := by
  intro w
  obtain ⟨hsource, hnext⟩ := (World.new seed fallback r).source_run x.before
  have hid : w.scheduler.nextId + x.place = x.number :=
    congrArg (· + x.place.val) (hnext.trans (Nat.zero_add _))
  rw [Scheduler.newcomers, List.getElem?_mapIdx, List.getElem?_eq_getElem x.place.isLt, hid]
  show some (Player.new x.number _ (.ofSeed ((w.scheduler.source.skip x.place).next.1))) =
    some (x.player seed)
  rw [hsource, ← Source.skip_add]
  rfl

/-- An instance gets the player that has its number and its seed.  From then on, whatever happens,
its player, its voices and the calls on its handles are those of its player alone, under one
renaming of its handles. -/
theorem sameAlone (seed : UInt64) (fallback len : α) (lens : List (String × α))
    (missing : List String) (x : Spawning α) :
    let start := World.new seed fallback (.empty len lens missing)
    let w := start.run x.before
    (w.after x.event).scheduler.players[w.scheduler.players.length + x.place]? =
        some (x.player seed) ∧
      ∃ f : Handle → Handle, ∀ n,
        SameAlone x.number f (start.run (x.upTo n))
          ((x.alone seed start).run start.scheduler.fallback (x.since.take n)) := by
  intro start w
  have hw : w.Sound := World.sound_run seed fallback len lens missing x.before
  have hp := x.getElem?_newcomers seed fallback (.empty len lens missing)
  refine ⟨?_, renamed x.number ((w.after x.event).run x.since).owners, fun n => ?_⟩
  · show (w.scheduler.spawn x.statements).players[_]? = _
    rw [Scheduler.players_spawn, List.getElem?_append_right (Nat.le_add_right ..),
      Nat.add_sub_cancel_left, hp]
  · have hf :=
      (Follows.start hw x.statements (List.mem_of_getElem? hp)).run (hw.after _) (x.since.take n)
    rw [(w.source_after _).2.2, start.fallback_run] at hf
    rw [upTo, start.run_append]
    exact hf.sameAlone ((hw.after _).run _) ((w.after x.event).owners_run_take [] x.since n)

end Spawning

end Soundscape
