import Soundscape.Proofs.Recording.Tended

/-!
# A player on a shared recording

While one player takes a step of time, all else on the recording stands still.  `Upkeep` is what
holds throughout: the recording is tended to, the player has voices on handles of its own only, and
the handles of all others are left alone.  The main results:

* `Upkeep.alone`: no operation of a player breaks it;
* `Tended.advancePlayer`: what a step of time does to the recording.
-/

namespace Soundscape

variable {α : Type}

/-- The instances that acquired each handle in turn, when all new handles are of one instance. -/
def acquiredBy (i : Instance α) (os : List (Instance α)) (r : Recording α) : List (Instance α) :=
  os ++ List.replicate (r.acquired - os.length) i

theorem acquiredBy_congr {i : Instance α} {os : List (Instance α)} {r r' : Recording α}
    (h : r'.acquired = r.acquired) : acquiredBy i os r' = acquiredBy i os r := by
  rw [acquiredBy, h]
  rfl

theorem acquiredBy_succ {i : Instance α} {os : List (Instance α)} {r r' : Recording α}
    (hr : os.length ≤ r.acquired) (h : r'.acquired = r.acquired + 1) :
    acquiredBy i os r' = acquiredBy i os r ++ [i] := by
  rw [acquiredBy, h, Nat.succ_sub hr, List.replicate_succ', ← List.append_assoc]
  rfl

/-- A recording that one instance uses next to voices that stand still, since some earlier
recording. -/
structure Upkeep (os : List (Instance α)) (still : List (Voice α)) (i : Instance α)
    (r₀ : Recording α) (vs : List (Voice α)) (r : Recording α) : Prop where
  tended : Tended (acquiredBy i os r) (vs ++ still) r
  own : ∀ v ∈ vs, Owns (acquiredBy i os r) v.handle i
  others : ∀ h j, Owns os h j → j ≠ i → r.channel h = r₀.channel h
  tables : r.tables = r₀.tables

namespace Upkeep

variable {os : List (Instance α)} {still : List (Voice α)} {i : Instance α}
  {r₀ r r' : Recording α} {vs : List (Voice α)} {v v' : Voice α}

theorem length_le (h : Upkeep os still i r₀ vs r) : os.length ≤ r.acquired := by
  have := h.tended.count
  simp only [acquiredBy, List.length_append, List.length_replicate] at this
  omega

theorem kept_of_mem (h : Upkeep os still i r₀ vs r) (hv : v ∈ vs) :
    Kept i.statement v (r.channel v.handle) := by
  obtain ⟨j, hj, hk⟩ := h.tended.kept v (List.mem_append_left _ hv)
  rwa [(h.own v hv).unique hj]

theorem kept (h : Upkeep os still i r₀ (v :: vs) r) :
    Kept i.statement v (r.channel v.handle) :=
  h.kept_of_mem List.mem_cons_self

theorem others_touched (h : Upkeep os still i r₀ (v :: vs) r) (hr : Touched v.handle r r')
    (k : Handle) (j : Instance α) (hk : Owns os k j) (hj : j ≠ i) :
    r'.channel k = r₀.channel k := by
  rw [hr.others k, h.others k j hk hj]
  rintro rfl
  exact hj ((hk.append _).unique (h.own v List.mem_cons_self))

theorem replace (h : Upkeep os still i r₀ (v :: vs) r) (hr : Touched v.handle r r')
    (hh : v'.handle = v.handle) (hk : Kept i.statement v' (r'.channel v.handle)) :
    Upkeep os still i r₀ (v' :: vs) r' where
  tended := by
    rw [acquiredBy_congr hr.kin.acquired]
    refine h.tended.replace hr hh fun j hj _ => ?_
    rwa [hj.unique (h.own v List.mem_cons_self)]
  own w hw := by
    rw [acquiredBy_congr hr.kin.acquired]
    obtain rfl | hw := List.mem_cons.mp hw
    · exact hh ▸ h.own v List.mem_cons_self
    · exact h.own w (List.mem_cons_of_mem _ hw)
  others := h.others_touched hr
  tables := hr.kin.tables.trans h.tables

theorem part (h : Upkeep os still i r₀ (v :: vs) r) (hr : Touched v.handle r r')
    (hk : Course i.statement .ended (r'.channel v.handle)) : Upkeep os still i r₀ vs r' where
  tended := by
    rw [acquiredBy_congr hr.kin.acquired]
    refine h.tended.part hr fun j hj _ => ?_
    rwa [hj.unique (h.own v List.mem_cons_self)]
  own w hw := by
    rw [acquiredBy_congr hr.kin.acquired]
    exact h.own w (List.mem_cons_of_mem _ hw)
  others := h.others_touched hr
  tables := hr.kin.tables.trans h.tables

end Upkeep

/-! ### What a voice tells a live handle -/

namespace Kept

variable {s : Statement α} {v : Voice α} {r : Recording α}

theorem touched (hk : Kept s v (r.channel v.handle)) {qs : List (Cue α)}
    (hr : v.isReleased → qs = []) (hq : ∀ q ∈ qs.dropLast, q ≠ .release) :
    Touched v.handle r (tellAll r v.handle qs) := by
  cases hv : v.isReleased with
  | true =>
    rw [hr hv]
    exact .refl _ _
  | false => exact .tellAll (hk.isSome_live hv) hq

theorem touched_lastWords (hk : Kept s v (r.channel v.handle)) :
    Touched v.handle r (tellAll r v.handle v.lastWords) :=
  hk.touched Voice.lastWords_of_isReleased v.ne_release_of_mem_lastWords

theorem touched_hush (hk : Kept s v (r.channel v.handle)) (hr : v.isReleased = false) :
    Touched v.handle r (tellAll r v.handle v.hush) := by
  refine .tellAll (hk.isSome_live hr) ?_
  unfold Voice.hush
  split <;> simp

theorem isSome_hush (hk : Kept s v (r.channel v.handle)) (hr : v.isReleased = false) :
    ((tellAll r v.handle v.hush).channel v.handle).state.isSome := by
  rw [Recording.channel_tellAll]
  exact (hk.hush hr).live

variable [Scalar α] [Easing α]

theorem touched_tells (hk : Kept s v (r.channel v.handle)) (dt : α) :
    Touched v.handle r (tellAll r v.handle (v.tells dt)) := by
  obtain ⟨-, -, ht⟩ | ⟨hs, ws, hw, ht⟩ := hk.fades.tells_cases dt
  · rw [ht]
    exact .refl _ _
  · have hl : (r.channel v.handle).state.isSome := by
      rw [hk.course.live, Voice.stage_of_isSounding hs]
      rfl
    have hne : ∀ q ∈ ws, q ≠ .release := fun q hq he => by simpa [he, Cue.isWrite] using hw q hq
    obtain ⟨-, ht⟩ | ⟨-, ht⟩ := ht <;> rw [ht]
    · exact .tellAll hl fun q hq => hne q (List.dropLast_subset _ hq)
    · refine .tellAll hl fun q hq => ?_
      cases hr : !s.isHeld <;> simp [hr, Cue.farewell] at hq
      · exact hne q hq
      · obtain hq | rfl := hq
        · exact hne q hq
        · simp

variable {clip : String}

theorem restart_of_found (hk : Kept s v (r.channel v.handle)) (hs : s.isHeld)
    (hm : r.missing.contains clip = false) (volume : α) (pitch : Option α) (fadeIn : α) :
    ∃ v' r', v.restart clip volume pitch fadeIn r = (.ok (), v', r') ∧ v'.handle = v.handle ∧
      Touched v.handle r r' ∧ Kept s v' (r'.channel v.handle) := by
  have hr := hk.not_released hs
  have hload := Touched.loadClip (hk.isSome_hush hr) clip
  have hm' : (r.channel v.handle).missing.contains clip = false := hm
  obtain ⟨hok, hk'⟩ := hk.reload hr hs hm' volume pitch fadeIn
  have hfst := Recording.loadClip_fst (tellAll r v.handle v.hush) v.handle clip
  have hsnd := (tellAll r v.handle v.hush).channel_loadClip v.handle clip v.handle
  rw [if_pos rfl, Recording.channel_tellAll] at hsnd
  rw [Recording.channel_tellAll, hok] at hfst
  rcases hx : (tellAll r v.handle v.hush).loadClip v.handle clip with ⟨_, r₂⟩
  rw [hx] at hfst hsnd hload
  obtain rfl : _ = Except.ok () := hfst
  rw [← hsnd] at hk'
  have hx' : AudioBackend.loadClip (tellAll r v.handle v.hush) v.handle clip = (.ok (), r₂) := hx
  rw [Voice.restart_eq, if_neg (by simp [hr]), hx']
  refine ⟨_, _, rfl, Voice.stepped_handle .., ?_, by rwa [Recording.channel_tellAll]⟩
  refine ((hk.touched_hush hr).trans hload).trans (.tellAll ?_ ?_)
  · cases hl : (r₂.channel v.handle).state with
    | some state => rfl
    | none =>
      rw [Channel.tellAll_of_not_live hl] at hk'
      have hp := Voice.stepped_state_of_playing
        (v := v.reloaded clip volume pitch fadeIn) rfl (0 : α)
      simpa [hl] using hk'.isSome_live (by simp [Voice.isReleased, hp])
  · rw [Voice.stepTells_of_playing (v := v.reloaded clip volume pitch fadeIn) rfl (0 : α)]
    simp

theorem restart_of_missing (hk : Kept s v (r.channel v.handle)) (hs : s.isHeld)
    (hm : r.missing.contains clip) (hn : Clip.Names s.clip clip) (volume : α) (pitch : Option α)
    (fadeIn : α) :
    ∃ e v' r', v.restart clip volume pitch fadeIn r = (.error e, v', r') ∧
      Touched v.handle r (v'.kill r').2 ∧ Course s .ended ((v'.kill r').2.channel v.handle) := by
  have hr := hk.not_released hs
  have hx : AudioBackend.loadClip (tellAll r v.handle v.hush) v.handle clip =
      (.error (Recording.notFound clip), tellAll r v.handle v.hush) :=
    if_pos (by rwa [(r.kin_tellAll _ _).missing])
  rw [Voice.restart_eq, if_neg (by simp [hr]), hx]
  refine ⟨_, _, _, rfl, ?_, ?_⟩
  · rw [Voice.kill_eq]
    exact (hk.touched_hush hr).trans
      (.tellAll (hk.isSome_hush hr) (Voice.ne_release_of_mem_lastWords _))
  · rw [Voice.kill_eq]
    have := hk.giveUp hr hs ⟨clip, by simpa using hm, hn⟩
    rwa [Recording.channel_tellAll, Recording.channel_tellAll]

end Kept

namespace Upkeep

variable {os : List (Instance α)} {still : List (Voice α)} {i : Instance α} {r₀ : Recording α}

variable [Scalar α] [Easing α]

theorem alone : Alone i.statement (Upkeep os still i r₀) where
  perm hp h := ⟨h.tended.perm (hp.append_right _), fun v hv => h.own v (hp.mem_iff.mpr hv),
    h.others, h.tables⟩
  advance {v vs r} dt h := by
    refine h.replace (h.kept.touched_tells dt) (v.next_handle dt) ?_
    rw [Recording.channel_tellAll]
    exact h.kept.next dt
  drop hr h := h.part (.refl _ _) (h.kept.parted hr)
  fade delay length hs h := h.replace (.refl _ _) rfl (h.kept.scheduleFadeOut hs delay length)
  refused {vs r r' clip e} ha h := by
    rw [show AudioBackend.acquire r clip = r.acquire clip from rfl, Recording.acquire_eq] at ha
    split at ha
    · cases ha
      exact h
    · cases ha
  opening {vs r r' clip k} o _ ha h := by
    rw [show AudioBackend.acquire r clip = r.acquire clip from rfl, Recording.acquire_eq] at ha
    split at ha
    · cases ha
    · cases ha
      have hacq : (tellAll (r.opened clip) r.nextHandle
          (Player.overture r.nextHandle clip o (i.statement.kind = .loop))).acquired =
          r.acquired + 1 :=
        (Recording.kin_tellAll _ _ _).acquired
      have hos := acquiredBy_succ (i := i) h.length_le hacq
      refine ⟨?_, fun v hv => ?_, fun k j hk hj => ?_, ?_⟩
      · rw [hos]
        exact h.tended.opening i clip o
      · rw [hos]
        obtain rfl | hv := List.mem_cons.mp hv
        · rw [Player.opened_handle, h.tended.nextHandle_eq]
          exact owns_last _ i
        · exact (h.own v hv).append _
      · have hne : k ≠ r.nextHandle := fun he =>
          h.tended.not_owns_nextHandle j (he ▸ hk.append _)
        rw [Recording.channel_tellAll_of_ne _ hne, h.tended.channel_opened, if_neg hne]
        exact h.others k j hk hj
      · exact (Recording.kin_tellAll _ _ _).tables.trans h.tables
  restart {v v' vs r r' clip volume pitch fadeIn} hs hn hr h := by
    cases hm : r.missing.contains clip with
    | true =>
      obtain ⟨e, w, r₁, he, -⟩ := h.kept.restart_of_missing hs hm hn.names volume pitch fadeIn
      rw [he] at hr
      cases hr
    | false =>
      obtain ⟨w, r₁, he, hh, htouch, hk⟩ := h.kept.restart_of_found hs hm volume pitch fadeIn
      rw [he] at hr
      cases hr
      exact h.replace htouch hh hk
  giveUp {v v' vs r r' clip volume pitch fadeIn e} hs hn hr h := by
    cases hm : r.missing.contains clip with
    | true =>
      obtain ⟨e, w, r₁, he, htouch, hc⟩ :=
        h.kept.restart_of_missing hs hm hn.names volume pitch fadeIn
      rw [he] at hr
      cases hr
      exact h.part htouch hc
    | false =>
      obtain ⟨w, r₁, he, -⟩ := h.kept.restart_of_found hs hm volume pitch fadeIn
      rw [he] at hr
      cases hr

end Upkeep

namespace Tended

variable {os : List (Instance α)} {vs still : List (Voice α)} {v : Voice α} {r : Recording α}

theorem acquiredBy_self (ht : Tended os vs r) (i : Instance α) : acquiredBy i os r = os := by
  simp [acquiredBy, ht.count]

theorem kept_head (ht : Tended os (v :: vs) r) : ∃ s, Kept s v (r.channel v.handle) := by
  obtain ⟨i, -, hk⟩ := ht.kept v List.mem_cons_self
  exact ⟨_, hk⟩

theorem kill (ht : Tended os (v :: vs) r) : Tended os vs (v.kill r).2 := by
  obtain ⟨s, hk⟩ := ht.kept_head
  rw [Voice.kill_eq]
  refine ht.part hk.touched_lastWords fun i _ hk => ?_
  rw [Recording.channel_tellAll]
  exact hk.kill

theorem drop (ht : Tended os (v :: vs) r) (hr : v.isReleased) : Tended os vs r :=
  ht.part (.refl _ _) fun _ _ hk => hk.parted hr

variable [Scalar α] [Easing α]

theorem advance (ht : Tended os (v :: vs) r) (dt : α) :
    Tended os (v.next dt :: vs) (tellAll r v.handle (v.tells dt)) := by
  obtain ⟨s, hk⟩ := ht.kept_head
  refine ht.replace (hk.touched_tells dt) (v.next_handle dt) fun i _ hk => ?_
  rw [Recording.channel_tellAll]
  exact hk.next dt

omit [Scalar α] [Easing α] in
theorem upkeep {p : Player α} (ht : Tended os (p.voice.toList ++ still) r)
    (ho : ∀ v ∈ p.voice, Owns os v.handle p.identity) :
    Upkeep os still p.identity r p.voice.toList r := by
  refine ⟨?_, fun v hv => ?_, fun _ _ _ _ => rfl, rfl⟩
  · rwa [ht.acquiredBy_self]
  · rw [ht.acquiredBy_self]
    exact ho v (Option.mem_toList.mp hv)

/-- A step of time of a player, while the other voices stand still. -/
theorem advancePlayer {p : Player α} (ht : Tended os (p.voice.toList ++ still) r)
    (hc : p.Coherent) (ho : ∀ v ∈ p.voice, Owns os v.handle p.identity) (dt fallback : α) :
    (p.advance dt fallback r).1.identity = p.identity ∧ (p.advance dt fallback r).1.Coherent ∧
      Upkeep os still p.identity r
        ((p.advance dt fallback r).1.voice.toList ++ (p.advance dt fallback r).2.1)
        (p.advance dt fallback r).2.2 := by
  have ha : Alone p.statement (Upkeep os still p.identity r) := Upkeep.alone (i := p.identity)
  exact ha.advancePlayer hc (ht.upkeep ho) dt fallback

end Tended

end Soundscape
