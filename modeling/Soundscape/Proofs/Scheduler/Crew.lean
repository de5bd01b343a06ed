import Soundscape.Playback.Scheduler
import Soundscape.Proofs.Player.Upkeep

/-!
# Players that share a recording

`Crew` is what holds between players, the voices that they have let go and the recording that they
share, given who acquired each handle.  One player or one voice moves at a time, and each move keeps
it:

* `Crew.advancePlayer`, `Crew.advanceAll`: players take a step of time;
* `Crew.advanceVoices`, `Crew.dropReleased`: so do the voices that they have let go;
* `Crew.cancelAll`, `Crew.killAll`: everything ends.
-/

namespace Soundscape

open scoped List

variable {α : Type}

/-- The players of some instances and the voices that they have let go, on a recording that nothing
else uses. -/
structure Crew (os : List (Instance α)) (ps : List (Player α)) (loose : List (Voice α))
    (r : Recording α) : Prop where
  tended : Tended os (ps.filterMap Player.voice ++ loose) r
  coherent : ∀ p ∈ ps, p.Coherent
  own : ∀ p ∈ ps, ∀ v ∈ p.voice, Owns os v.handle p.identity
  ids : (ps.map Player.id).Pairwise (· < ·)

namespace Crew

variable {os : List (Instance α)} {ps done rest : List (Player α)} {p : Player α}
  {vs loose : List (Voice α)} {r : Recording α}

theorem filterMap_voice_cons (p : Player α) (ps : List (Player α)) :
    (p :: ps).filterMap Player.voice = p.voice.toList ++ ps.filterMap Player.voice := by
  cases hv : p.voice <;> simp [hv]

theorem perm_middle (done rest : List (Player α)) (p : Player α) (loose : List (Voice α)) :
    ((done ++ p :: rest).filterMap Player.voice ++ loose).Perm
      (p.voice.toList ++ ((done ++ rest).filterMap Player.voice ++ loose)) := by
  rw [List.filterMap_append, filterMap_voice_cons, List.filterMap_append]
  simp only [← List.append_assoc]
  exact ((List.perm_append_comm).append_right _).append_right _

/-! ### Voices that were let go -/

theorem dropReleased_tended (ht : Tended os (vs ++ loose) r) :
    Tended os (vs ++ loose.filter fun v => !v.isReleased) r := by
  induction loose generalizing vs with
  | nil => exact ht
  | cons v loose ih =>
    cases hv : v.isReleased with
    | true =>
      simpa [hv] using ih ((ht.perm List.perm_middle).drop hv)
    | false =>
      have ht' : Tended os ((vs ++ [v]) ++ loose) r := by simpa using ht
      simpa [hv] using ih ht'

theorem dropReleased (h : Crew os ps loose r) :
    Crew os ps (loose.filter fun v => !v.isReleased) r :=
  ⟨dropReleased_tended h.tended, h.coherent, h.own, h.ids⟩

/-! ### Players that are over -/

theorem filterMap_voice_active (hc : ∀ p ∈ ps, p.Coherent) :
    (ps.filter fun p => !p.isTerminated).filterMap Player.voice = ps.filterMap Player.voice := by
  induction ps with
  | nil => rfl
  | cons p ps ih =>
    obtain ⟨hp, hc⟩ := List.forall_mem_cons.mp hc
    rw [filterMap_voice_cons, ← ih hc]
    cases ht : p.isTerminated with
    | false => simp [ht, filterMap_voice_cons]
    | true => simp [ht, hp.voice_of_isTerminated ht]

theorem dropTerminated (h : Crew os ps loose r) :
    Crew os (ps.filter fun p => !p.isTerminated) loose r where
  tended := filterMap_voice_active h.coherent ▸ h.tended
  coherent p hp := h.coherent p (List.mem_filter.mp hp).1
  own p hp := h.own p (List.mem_filter.mp hp).1
  ids := h.ids.sublist (List.filter_sublist.map _)

theorem killAll (h : Crew os [] loose r) : Crew os [] [] (Voice.killAll loose r).2 := by
  induction loose generalizing r with
  | nil => exact h
  | cons v loose ih => exact ih ⟨h.tended.kill, by simp, by simp, List.Pairwise.nil⟩

theorem cancelAll (h : Crew os ps loose r) : Crew os [] loose (Scheduler.cancelAll ps r) := by
  induction ps generalizing r with
  | nil => exact h
  | cons p ps ih =>
    refine ih ⟨?_, fun q hq => h.coherent q (List.mem_cons_of_mem _ hq),
      fun q hq => h.own q (List.mem_cons_of_mem _ hq), (List.pairwise_cons.mp h.ids).2⟩
    have ht := h.tended
    rw [filterMap_voice_cons] at ht
    unfold Player.cancel
    cases hv : p.voice with
    | none => simpa [hv] using ht
    | some v =>
      rw [hv] at ht
      exact ht.kill

variable [Scalar α] [Easing α]

theorem tellEach_tended (ht : Tended os (loose ++ vs) r) (dt : α) :
    Tended os (loose.map (Voice.next dt) ++ vs) (Voice.tellEach (Voice.tells dt) loose r) := by
  induction loose generalizing vs r with
  | nil => exact ht
  | cons v loose ih =>
    have h₁ := (ht.advance dt).perm List.perm_middle.symm
    exact (ih h₁).perm List.perm_middle

/-- The voices that were let go take a step of time. -/
theorem advanceVoices (h : Crew os ps loose r) (dt : α) :
    Crew os ps (loose.map (Voice.next dt)) (Voice.tellEach (Voice.tells dt) loose r) := by
  have ht := tellEach_tended (h.tended.perm List.perm_append_comm) dt
  exact ⟨ht.perm List.perm_append_comm, h.coherent, h.own, h.ids⟩

/-! ### Players -/

theorem upkeep (h : Crew os (done ++ p :: rest) loose r) (dt fallback : α) :
    (p.advance dt fallback r).1.identity = p.identity ∧ (p.advance dt fallback r).1.Coherent ∧
      Upkeep os ((done ++ rest).filterMap Player.voice ++ loose) p.identity r
        ((p.advance dt fallback r).1.voice.toList ++ (p.advance dt fallback r).2.1)
        (p.advance dt fallback r).2.2 :=
  (h.tended.perm (perm_middle done rest p loose)).advancePlayer (h.coherent p (by simp))
    (h.own p (by simp)) dt fallback

theorem advancePlayer (h : Crew os (done ++ p :: rest) loose r) (dt fallback : α) :
    Crew (acquiredBy p.identity os (p.advance dt fallback r).2.2)
      (done ++ (p.advance dt fallback r).1 :: rest) (loose ++ (p.advance dt fallback r).2.1)
      (p.advance dt fallback r).2.2 := by
  obtain ⟨hi, hc, hu⟩ := h.upkeep dt fallback
  generalize p.advance dt fallback r = x at hi hc hu
  obtain ⟨q, fresh, r'⟩ := x
  have hmem {q' : Player α} (hq : q' ∈ done ++ q :: rest) : q' = q ∨ q' ∈ done ++ p :: rest := by
    simp only [List.mem_append, List.mem_cons] at hq ⊢
    obtain hq | hq | hq := hq
    · exact .inr (.inl hq)
    · exact .inl hq
    · exact .inr (.inr (.inr hq))
  refine ⟨hu.tended.perm ?_, fun q' hq => ?_, fun q' hq v hv => ?_, ?_⟩
  · calc (q.voice.toList ++ fresh) ++ ((done ++ rest).filterMap Player.voice ++ loose)
      _ = q.voice.toList ++ (fresh ++ ((done ++ rest).filterMap Player.voice ++ loose)) :=
        List.append_assoc ..
      _ ~ q.voice.toList ++ ((done ++ rest).filterMap Player.voice ++ (loose ++ fresh)) := by
        rw [← List.append_assoc _ loose]
        exact List.perm_append_comm.append_left _
      _ ~ (done ++ q :: rest).filterMap Player.voice ++ (loose ++ fresh) :=
        (perm_middle done rest q (loose ++ fresh)).symm
  · obtain rfl | hq := hmem hq
    · exact hc
    · exact h.coherent q' hq
  · obtain rfl | hq := hmem hq
    · rw [hi]
      exact hu.own v (List.mem_append_left _ (Option.mem_toList.mpr hv))
    · exact (h.own q' hq v hv).append _
  · have hid : q.id = p.id := congrArg Instance.id hi
    simpa [hid] using h.ids

/-- The instances that acquire new handles while players take a step of time one after the
other. -/
def acquisitions (dt fallback : α) : List (Player α) → Recording α → List (Instance α)
  | [], _ => []
  | p :: ps, r =>
    let r' := (p.advance dt fallback r).2.2
    List.replicate (r'.acquired - r.acquired) p.identity ++ acquisitions dt fallback ps r'

theorem append_acquisitions (h : Crew os ps loose r) (dt fallback : α) (p : Player α)
    (qs : List (Player α)) :
    os ++ acquisitions dt fallback (p :: qs) r =
      acquiredBy p.identity os (p.advance dt fallback r).2.2 ++
        acquisitions dt fallback qs (p.advance dt fallback r).2.2 := by
  rw [acquisitions, ← List.append_assoc, acquiredBy, h.tended.count]

/-- Players take a step of time, one after the other. -/
theorem advanceAll (h : Crew os (done ++ ps) loose r) (dt fallback : α) :
    Crew (os ++ acquisitions dt fallback ps r)
      (done ++ (Scheduler.advanceAll dt fallback ps r).1)
      (loose ++ (Scheduler.advanceAll dt fallback ps r).2.1)
      (Scheduler.advanceAll dt fallback ps r).2.2 := by
  induction ps generalizing os done loose r with
  | nil => simpa [acquisitions, Scheduler.advanceAll] using h
  | cons p ps ih =>
    have h₁ := h.advancePlayer dt fallback
    rw [List.append_cons] at h₁
    rw [h.append_acquisitions]
    simpa [Scheduler.advanceAll] using ih h₁

theorem identity_advanceAll (h : Crew os (done ++ ps) loose r) (dt fallback : α) :
    (Scheduler.advanceAll dt fallback ps r).1.map Player.identity = ps.map Player.identity := by
  induction ps generalizing os done loose r with
  | nil => rfl
  | cons p ps ih =>
    have h₁ := h.advancePlayer dt fallback
    rw [List.append_cons] at h₁
    simp only [Scheduler.advanceAll, List.map_cons, (h.upkeep dt fallback).1, ih h₁]

theorem mem_acquisitions {dt fallback : α} {i : Instance α}
    (hi : i ∈ acquisitions dt fallback ps r) : ∃ p ∈ ps, p.identity = i := by
  induction ps generalizing r with
  | nil => cases hi
  | cons p ps ih =>
    obtain hi | hi := List.mem_append.mp hi
    · exact ⟨p, List.mem_cons_self, (List.eq_of_mem_replicate hi).symm⟩
    · obtain ⟨q, hq, he⟩ := ih hi
      exact ⟨q, List.mem_cons_of_mem _ hq, he⟩

end Crew

end Soundscape
