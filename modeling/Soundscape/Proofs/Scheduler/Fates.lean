import Mathlib.Data.List.Basic
import Soundscape.Proofs.Player.Fates
import Soundscape.Proofs.Scheduler.Isolation

/-!
# Instances that do not come back

There is one way in which an instance influences the others: a tick comes back only if every
instance comes back, and a draw that cannot be made ends all of them.  That is all there is to it.
A run comes back just if each of its instances does so alone, and then each of them does what it
would do alone (`World.instances_alone`).

`Chorus` sets each instance of a world beside its solo.  One step of the world comes back just if it
does so in every solo (`Chorus.fate_iff`), and so does a run (`Chorus.runFate_iff`).
-/

namespace Soundscape

variable {α : Type} [Scalar α] [Easing α]

/-! ### The fates of a world and of a solo -/

namespace World

/-- What becomes of a world when something happens. -/
def fate (w : World α) : Occurrence α → Fate
  | .event e => w.scheduler.handleFate w.recording e
  | .lose _ => .ok ()

/-- What becomes of a world when some things happen, one after the other. -/
def runFate (w : World α) : List (Occurrence α) → Fate
  | [] => .ok ()
  | o :: os => do
    w.fate o
    (w.after o).runFate os

theorem runFate_of_append {w : World α} {os os' : List (Occurrence α)}
    (h : w.runFate (os ++ os') = .ok ()) : w.runFate os = .ok () := by
  induction os generalizing w with
  | nil => rfl
  | cons o os ih =>
    obtain ⟨hfate, hrun⟩ := Fate.seq_eq_ok.mp h
    exact Fate.seq_eq_ok.mpr ⟨hfate, ih hrun⟩

def newcomers (w : World α) (o : Occurrence α) : List (Player α) :=
  w.scheduler.newcomers o.instances

end World

namespace Solo

/-- What becomes of a solo in a step of time. -/
def tickFate (dt fallback : α) (x : Solo α) : Fate := do
  let dt := Scalar.larger dt 0
  x.voices.forM (Voice.advanceFate dt)
  x.player.advanceFate dt fallback (Voice.advanceAll dt x.voices x.recording).2

/-- What becomes of a solo when something happens. -/
def fate (fallback : α) (x : Solo α) : Occurrence α → Fate
  | .event (.tick dt) => x.tickFate dt fallback
  | _ => .ok ()

/-- What becomes of a solo when some things happen, one after the other. -/
def runFate (fallback : α) (x : Solo α) : List (Occurrence α) → Fate
  | [] => .ok ()
  | o :: os => do
    x.fate fallback o
    (x.after fallback o).runFate fallback os

theorem runFate_of_append {fallback : α} {x : Solo α} {os os' : List (Occurrence α)}
    (h : x.runFate fallback (os ++ os') = .ok ()) : x.runFate fallback os = .ok () := by
  induction os generalizing x with
  | nil => rfl
  | cons o os ih =>
    obtain ⟨hfate, hrun⟩ := Fate.seq_eq_ok.mp h
    exact Fate.seq_eq_ok.mpr ⟨hfate, ih hrun⟩

end Solo

/-! ### One step of time -/

/-- Players come back just if each of them does so on a recording of its own. -/
theorem Crew.advanceAllFate_iff {os : List (Instance α)} {done ps : List (Player α)}
    {loose : List (Voice α)} {r : Recording α} {c : Nat → Recording α}
    (h : Crew os (done ++ ps) loose r) (hm : ∀ p ∈ ps, Mirrors p.id os r (c p.id))
    (dt fallback : α) :
    Scheduler.advanceAllFate dt fallback ps r = .ok () ↔
      ∀ p ∈ ps, (p.rename (renamed p.id os)).advanceFate dt fallback (c p.id) = .ok () := by
  induction ps generalizing os done loose r with
  | nil => exact iff_of_true rfl (List.forall_mem_nil _)
  | cons p ps ih =>
    obtain ⟨hmp, hm⟩ := List.forall_mem_cons.mp hm
    have hmem : p ∈ done ++ p :: ps := by simp
    have hne : ∀ q ∈ ps, p.id ≠ q.id := by
      intro q hq
      have hids := h.ids
      rw [List.map_append, List.map_cons] at hids
      have hids := (List.pairwise_append.mp hids).2.1
      exact Nat.ne_of_lt ((List.pairwise_cons.mp hids).1 _ (List.mem_map_of_mem hq))
    have h₁ := h.advancePlayer dt fallback
    rw [List.append_cons] at h₁
    have hm₁ : ∀ q ∈ ps, Mirrors q.id (acquiredBy p.identity os (p.advance dt fallback r).2.2)
        (p.advance dt fallback r).2.2 (c q.id) := fun q hq =>
      (hm q hq).advance_other (hne q hq) (h.coherent p hmem) (h.own p hmem) dt fallback
    have hren : ∀ q ∈ ps, renamed q.id (acquiredBy p.identity os (p.advance dt fallback r).2.2) =
        renamed q.id os := fun q hq => funext fun k =>
      renamed_append_others fun j hj => by
        rw [List.eq_of_mem_replicate hj]
        exact hne q hq
    show (do p.advanceFate dt fallback r; Scheduler.advanceAllFate dt fallback ps _) = .ok () ↔ _
    rw [Fate.seq_eq_ok, ih h₁ hm₁, List.forall_mem_cons,
      hmp.advanceFate_own (h.coherent p hmem) (h.own p hmem)]
    exact and_congr_right fun _ => forall₂_congr fun q hq => by rw [hren q hq]

/-! ### All solos of a world -/

/-- The instances of a world, each beside its solo. -/
structure Chorus (w : World α) (xs : List (Solo α)) : Prop where
  count : xs.length = w.scheduler.nextId
  follows : ∀ id x, xs[id]? = some x → Follows id w x

namespace Chorus

variable {w : World α} {xs : List (Solo α)}

omit [Scalar α] [Easing α] in
theorem exists_solo (h : Chorus w xs) {id : Nat} (hid : id < w.scheduler.nextId) :
    ∃ x, xs[id]? = some x ∧ Follows id w x := by
  have hlt : id < xs.length := by rwa [h.count]
  have hx := List.getElem?_eq_getElem hlt
  exact ⟨xs[id], hx, h.follows id _ hx⟩

omit [Scalar α] [Easing α] in
/-- Something is true of all voices that were let go just if it is true of those of each solo. -/
theorem forall_voices (h : Chorus w xs) (hw : w.Sound) {P : Voice α → Prop}
    (hP : ∀ k v, P (v.onHandle k) ↔ P v) :
    (∀ v ∈ w.scheduler.voices, P v) ↔ ∀ x ∈ xs, ∀ v ∈ x.voices, P v := by
  constructor
  · intro hall x hx v hv
    obtain ⟨id, hid⟩ := List.mem_iff_getElem?.mp hx
    rw [(h.follows id x hid).voices] at hv
    obtain ⟨u, hu, rfl⟩ := List.mem_map.mp hv
    exact (hP _ u).mpr (hall u (List.mem_filter.mp hu).1)
  · intro hall v hv
    obtain ⟨i, hi⟩ := Follows.issued hw hv
    obtain ⟨x, hx, hf⟩ := h.exists_solo (hw.issued i hi.mem)
    refine (hP _ v).mp (hall x (List.mem_of_getElem? hx) (v.rename (renamed i.id w.owners)) ?_)
    rw [hf.voices]
    exact List.mem_map_of_mem (List.mem_filter.mpr ⟨hv, belongs_iff.mpr ⟨i, hi, rfl⟩⟩)

/-- All players come back just if the player of each solo does. -/
theorem advanceAllFate_iff (h : Chorus w xs) (hw : w.Sound) (dt fallback : α) :
    Scheduler.advanceAllFate dt fallback w.scheduler.players
        (Voice.advanceAll dt w.scheduler.voices w.recording).2 = .ok () ↔
      ∀ x ∈ xs, x.player.advanceFate dt fallback
        (Voice.advanceAll dt x.voices x.recording).2 = .ok () := by
  have hcrew : Crew w.owners ([] ++ w.scheduler.players) _ _ := hw.crew.advanceVoices dt
  let c (id : Nat) : Recording α :=
    xs[id]?.elim w.recording fun x => (Voice.advanceAll dt x.voices x.recording).2
  have hc {id : Nat} {x : Solo α} (hx : xs[id]? = some x) :
      c id = (Voice.advanceAll dt x.voices x.recording).2 := by
    simp only [c, hx, Option.elim_some]
  have hm : ∀ p ∈ w.scheduler.players, Mirrors p.id w.owners
      (Voice.tellEach (Voice.tells dt) w.scheduler.voices w.recording) (c p.id) := by
    intro p hp
    obtain ⟨x, hx, hf⟩ := h.exists_solo (hw.ids p hp)
    have hm := hf.mirrors.tellEach (fun v hv => Follows.issued hw hv) (Voice.tells_onHandle · dt)
    rw [← hf.voices] at hm
    rwa [hc hx, Voice.advanceAll_eq]
  rw [Voice.advanceAll_eq, hcrew.advanceAllFate_iff hm]
  constructor
  · intro hall x hx
    obtain ⟨id, hx⟩ := List.mem_iff_getElem?.mp hx
    obtain ⟨ht, hv⟩ | ⟨p, hp, rfl, hq⟩ := (h.follows id x hx).stands.gone_or_mem
    · exact Player.advanceFate_of_isTerminated ht hv dt fallback _
    · rw [hq, ← hc hx]
      exact hall p hp
  · intro hall p hp
    obtain ⟨x, hx, hf⟩ := h.exists_solo (hw.ids p hp)
    rw [← hf.stands.eq_rename hw.crew.ids hp rfl, hc hx]
    exact hall x (List.mem_of_getElem? hx)

theorem tickFate_iff (h : Chorus w xs) (hw : w.Sound) (dt : α) :
    w.scheduler.tickFate dt w.recording = .ok () ↔
      ∀ x ∈ xs, x.tickFate dt w.scheduler.fallback = .ok () := by
  unfold Scheduler.tickFate Solo.tickFate
  simp only [Fate.seq_eq_ok, Fate.forM_eq_ok, forall_and, h.advanceAllFate_iff hw]
  rw [h.forall_voices hw fun k v => by rw [Voice.advanceFate_onHandle]]

/-- A world comes through something just if each of its solos does, and each newcomer. -/
theorem fate_iff (h : Chorus w xs) (hw : w.Sound) (o : Occurrence α) :
    w.fate o = .ok () ↔ (∀ x ∈ xs, x.fate w.scheduler.fallback o = .ok ()) ∧
      ∀ p ∈ w.newcomers o, Player.newFate p.statement = .ok () := by
  have hnone {o : Occurrence α} (ho : o.instances = []) (p : Player α) (hp : p ∈ w.newcomers o) :
      Player.newFate p.statement = .ok () := by
    rw [World.newcomers, ho] at hp
    cases hp
  cases o with
  | lose clip => exact iff_of_true rfl ⟨fun _ _ => rfl, hnone rfl⟩
  | event e =>
    cases e with
    | hardReset => exact iff_of_true rfl ⟨fun _ _ => rfl, hnone rfl⟩
    | tick dt => exact (h.tickFate_iff hw dt).trans (and_iff_left (hnone rfl)).symm
    | spawn statements =>
      have hsolos : ∀ x ∈ xs, x.fate w.scheduler.fallback (.event (.spawn statements)) = .ok () :=
        fun _ _ => rfl
      rw [and_iff_right hsolos]
      show Scheduler.spawnFate statements = .ok () ↔ _
      rw [Scheduler.spawnFate, Fate.forM_eq_ok,
        ← Scheduler.map_statement_newcomers w.scheduler (Scheduler.instances statements),
        List.forall_mem_map]
      rfl

theorem after (h : Chorus w xs) (hw : w.Sound) (o : Occurrence α) :
    Chorus (w.after o) (xs.map (fun x => x.after w.scheduler.fallback o) ++
      (w.newcomers o).map fun p => .new p w.recording.afresh) := by
  have hnext := (w.source_after o).2.1
  refine ⟨?_, fun id x hx => ?_⟩
  · rw [List.length_append, List.length_map, List.length_map, h.count, hnext]
    simp [World.newcomers, Scheduler.newcomers]
  · obtain hid | hid := Nat.lt_or_ge id (xs.map fun x => x.after w.scheduler.fallback o).length
    · rw [List.getElem?_append_left hid, List.getElem?_map] at hx
      obtain ⟨y, hy, rfl⟩ := Option.map_eq_some_iff.mp hx
      exact (h.follows id y hy).after hw o
    · rw [List.getElem?_append_right hid, List.getElem?_map] at hx
      obtain ⟨p, hp, rfl⟩ := Option.map_eq_some_iff.mp hx
      have hi := Scheduler.id_of_getElem?_newcomers hp
      rw [List.length_map, h.count] at hid hi
      rw [Nat.add_sub_cancel' hid] at hi
      cases o with
      | lose clip => cases hp
      | event e =>
        cases e with
        | tick dt => cases hp
        | hardReset => cases hp
        | spawn statements => exact hi ▸ Follows.start hw statements (List.mem_of_getElem? hp)

/-- A run comes back just if each solo does, from the start or from when it is spawned. -/
theorem runFate_iff (h : Chorus w xs) (hw : w.Sound) (os : List (Occurrence α)) :
    w.runFate os = .ok () ↔
      (∀ x ∈ xs, x.runFate w.scheduler.fallback os = .ok ()) ∧
      ∀ before o since, os = before ++ o :: since → ∀ p ∈ (w.run before).newcomers o,
        Player.newFate p.statement = .ok () ∧
          (Solo.new p (w.run before).recording.afresh).runFate w.scheduler.fallback since =
            .ok () := by
  induction os generalizing w xs with
  | nil => exact iff_of_true rfl ⟨fun _ _ => rfl, fun before o since he => by simp at he⟩
  | cons o os ih =>
    have hi := ih (h.after hw o) (hw.after o)
    rw [(w.source_after o).2.2, List.forall_mem_append, List.forall_mem_map, List.forall_mem_map]
      at hi
    show (do w.fate o; (w.after o).runFate os) = .ok () ↔ _
    rw [Fate.seq_eq_ok, h.fate_iff hw, hi]
    constructor
    · rintro ⟨⟨hfate, hnew⟩, ⟨hsince, hrun⟩, hlater⟩
      refine ⟨fun x hx => ?_, fun before o' since he p hp => ?_⟩
      · exact Fate.seq_eq_ok.mpr ⟨hfate x hx, hsince x hx⟩
      · cases before with
        | nil =>
          cases he
          exact ⟨hnew p hp, hrun p hp⟩
        | cons o'' before =>
          cases he
          exact hlater before o' since rfl p hp
    · rintro ⟨hsolos, hspawned⟩
      have hfirst := hspawned [] o os rfl
      have hsplit {x : Solo α} (hx : x ∈ xs) := Fate.seq_eq_ok.mp (hsolos x hx)
      refine ⟨⟨fun x hx => (hsplit hx).1, fun p hp => (hfirst p hp).1⟩,
        ⟨fun x hx => (hsplit hx).2, fun p hp => (hfirst p hp).2⟩, ?_⟩
      exact fun before o' since he => hspawned (o :: before) o' since (by rw [he]; rfl)

end Chorus

/-! ### Every run -/

def Spawning.fateAlone (seed : UInt64) (start : World α) (x : Spawning α) : Fate := do
  Player.newFate (x.player seed).statement
  (x.alone seed start).runFate start.scheduler.fallback x.since

namespace World

/-- A run comes back just if each of its instances does so alone. -/
theorem runFate_iff (seed : UInt64) (fallback len : α) (lens : List (String × α))
    (missing : List String) (os : List (Occurrence α)) :
    let start := new seed fallback (.empty len lens missing)
    start.runFate os = .ok () ↔ ∀ x : Spawning α, x.run = os → x.fateAlone seed start = .ok () := by
  intro start
  have hstart : Chorus start [] := ⟨rfl, fun id x hx => by simp at hx⟩
  rw [hstart.runFate_iff (sound_new seed fallback len lens missing),
    and_iff_right (List.forall_mem_nil _)]
  constructor
  · rintro hspawned x rfl
    have hp := x.getElem?_newcomers seed fallback (.empty len lens missing)
    exact Fate.seq_eq_ok.mpr
      (hspawned x.before x.event x.since rfl _ (List.mem_of_getElem? hp))
  · rintro hall before o since rfl p hp
    obtain ⟨k, hk, rfl⟩ := List.mem_iff_getElem.mp hp
    cases o with
    | lose clip => cases hk
    | event e =>
      cases e with
      | tick dt => cases hk
      | hardReset => cases hk
      | spawn statements =>
        have hk' : k < (Scheduler.instances statements).length := by
          simpa [newcomers, Occurrence.instances, Scheduler.newcomers] using hk
        let x : Spawning α := ⟨before, statements, ⟨k, hk'⟩, since⟩
        have hx := x.getElem?_newcomers seed fallback (.empty len lens missing)
        have hp : x.player seed = _ := Option.some.inj (hx.symm.trans (List.getElem?_eq_getElem hk))
        rw [← hp]
        exact Fate.seq_eq_ok.mp (hall x rfl)

/-- A run comes back just if each of its instances does so alone.  Then each instance does what it
would do alone.  Its seed is the word of the scheduler's source that has its number among all
instances spawned so far, and from then on, whatever happens, its player, its voices and the calls
on its handles are those of its player alone on a recording of its own, under one renaming of its
handles. -/
theorem instances_alone (seed : UInt64) (fallback len : α) (lens : List (String × α))
    (missing : List String) (os : List (Occurrence α)) :
    let start := new seed fallback (.empty len lens missing)
    (start.runFate os = .ok () ↔
      ∀ x : Spawning α, x.run = os → x.fateAlone seed start = .ok ()) ∧
    (start.runFate os = .ok () → ∀ x : Spawning α, x.run = os →
      let w := start.run x.before
      (w.after x.event).scheduler.players[w.scheduler.players.length + x.place]? =
          some (x.player seed) ∧
        ∃ f : Handle → Handle, ∀ n,
          start.runFate (x.upTo n) = .ok () ∧
          (x.alone seed start).runFate start.scheduler.fallback (x.since.take n) = .ok () ∧
          SameAlone x.number f (start.run (x.upTo n))
            ((x.alone seed start).run start.scheduler.fallback (x.since.take n))) := by
  intro start
  have hfate := runFate_iff seed fallback len lens missing os
  refine ⟨hfate, fun hos x hx => ?_⟩
  obtain ⟨hplayer, f, hsame⟩ := x.sameAlone seed fallback len lens missing
  refine ⟨hplayer, f, fun n => ⟨?_, ?_, hsame n⟩⟩
  · rw [← hx, ← x.upTo_append n] at hos
    exact runFate_of_append hos
  · have halone := (Fate.seq_eq_ok.mp (hfate.mp hos x hx)).2
    rw [← List.take_append_drop n x.since] at halone
    exact Solo.runFate_of_append halone

/-- Two loops of a script are spawned and one tick passes.  The second does what it would do
alone. -/
theorem instances_alone_second :
    let source := "loop \"a\":\n  volume = 0..1\nloop \"b\":\n"
    let statements := (compile (α := Float) false source (.ofSeed 0)).1.statements
    let start : World Float := new 0 2 (.empty 2 [] [])
    let os : List (Occurrence Float) := [.event (.spawn statements), .event (.tick 0.02)]
    start.runFate os = .ok () ∧ ∃ x : Spawning Float, x.run = os ∧ x.number = 1 ∧
      x.fateAlone 0 start = .ok () ∧ ∃ f : Handle → Handle, ∀ n,
        SameAlone 1 f (start.run (x.upTo n))
          ((x.alone 0 start).run start.scheduler.fallback (x.since.take n)) := by
  intro source statements start os
  have hfate : start.runFate os = .ok () := by decide +kernel
  have hlength : 1 < (Scheduler.instances statements).length := by decide +kernel
  let x : Spawning Float := ⟨[], statements, ⟨1, hlength⟩, [.event (.tick 0.02)]⟩
  obtain ⟨hiff, hsame⟩ := instances_alone 0 (2 : Float) 2 [] [] os
  obtain ⟨-, f, hf⟩ := hsame hfate x rfl
  exact ⟨hfate, x, rfl, rfl, hiff.mp hfate x rfl, f, fun n => (hf n).2.2⟩

/-- The widest range of all is accepted as a volume.  Then the draw of the first loop ends the
second one as well, which plays when it is alone. -/
theorem instances_alone_widest :
    let source := "loop \"a\":\n  volume = 0..1.7976931348623157e308\nloop \"b\":\n"
    let compiled := (compile (α := Float) false source (.ofSeed 0)).1
    let start : World Float := new 0 2 (.empty 2 [] [])
    let os : List (Occurrence Float) :=
      [.event (.spawn compiled.statements), .event (.tick 0.02)]
    compiled.diagnostics = [] ∧ compileAborts Float false source = false ∧
      start.runFate os = .error .aborted ∧ ∃ x : Spawning Float, x.run = os ∧ x.number = 1 ∧
        x.fateAlone 0 start = .ok () ∧
        ((x.alone 0 start).run start.scheduler.fallback x.since).player.voice.isSome := by
  intro source compiled start os
  refine ⟨?_, ?_, ?_, ⟨[], compiled.statements, ⟨1, by decide +kernel⟩, [.event (.tick 0.02)]⟩,
    rfl, rfl, ?_, ?_⟩
  · decide +kernel
  · decide +kernel
  · decide +kernel
  · decide +kernel
  · decide +kernel

end World

end Soundscape
