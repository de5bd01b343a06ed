import Soundscape.Proofs.Player.Mirrored
import Soundscape.Proofs.Scheduler.World

/-!
# An instance alone

`Solo` is one player with the voices that it has let go, on a recording of its own.  `Follows` ties
it to a world in which the same instance plays among others: its player and its voices are those of
the world with their handles renamed, and its recording is the mirror of the one that all share.
Whatever happens to the world happens to the solo, and the one still follows the other
(`Follows.after`).
-/

namespace Soundscape

variable {α : Type}

/-- One player, the voices that it has let go, and a recording that nobody else uses. -/
structure Solo (α : Type) where
  player : Player α
  voices : List (Voice α)
  recording : Recording α

namespace Solo

def new (p : Player α) (recording : Recording α) : Solo α := ⟨p, [], recording⟩

def reset (x : Solo α) : Solo α :=
  let (player, r) := x.player.cancel x.recording
  ⟨player, [], (Voice.killAll x.voices r).2⟩

variable [Scalar α] [Easing α]

def tick (dt fallback : α) (x : Solo α) : Solo α :=
  let dt := Scalar.larger dt 0
  let (voices, r) := Voice.advanceAll dt x.voices x.recording
  let (player, fresh, r) := x.player.advance dt fallback r
  ⟨player, (voices ++ fresh).filter fun v => !v.isReleased, r⟩

/-- The solo after something has happened.  Instances that are spawned later are not its concern. -/
def after (fallback : α) (x : Solo α) : Occurrence α → Solo α
  | .event (.spawn _) => x
  | .event (.tick dt) => x.tick dt fallback
  | .event .hardReset => x.reset
  | .lose clip => { x with recording := x.recording.lose clip }

/-- The solo after some things have happened, one after the other. -/
def run (fallback : α) (x : Solo α) (os : List (Occurrence α)) : Solo α :=
  os.foldl (after fallback) x

end Solo

/-! ### The voices of one instance -/

/-- The voices of one instance with their handles renamed. -/
def ownVoices (id : Nat) (os : List (Instance α)) (vs : List (Voice α)) : List (Voice α) :=
  (vs.filter fun v => belongs id os v.handle).map (Voice.rename (renamed id os))

section OwnVoices

variable {id : Nat} {os : List (Instance α)} {vs : List (Voice α)} {v : Voice α} {i : Instance α}

@[simp] theorem ownVoices_append (vs ws : List (Voice α)) :
    ownVoices id os (vs ++ ws) = ownVoices id os vs ++ ownVoices id os ws := by
  simp [ownVoices]

theorem ownVoices_cons_own (hv : Owns os v.handle i) (vs : List (Voice α)) :
    ownVoices i.id os (v :: vs) = v.rename (renamed i.id os) :: ownVoices i.id os vs := by
  simp [ownVoices, hv.belongs_eq]

theorem ownVoices_cons_other (hv : Owns os v.handle i) (hne : i.id ≠ id) (vs : List (Voice α)) :
    ownVoices id os (v :: vs) = ownVoices id os vs := by
  simp [ownVoices, hv.belongs_eq, hne]

theorem ownVoices_of_others (hv : ∀ v ∈ vs, Owns os v.handle i) (hne : i.id ≠ id) :
    ownVoices id os vs = [] := by
  induction vs with
  | nil => rfl
  | cons v vs ih =>
    obtain ⟨hv, hvs⟩ := List.forall_mem_cons.mp hv
    rw [ownVoices_cons_other hv hne, ih hvs]

theorem ownVoices_of_own (hv : ∀ v ∈ vs, Owns os v.handle i) :
    ownVoices i.id os vs = vs.map (Voice.rename (renamed i.id os)) := by
  induction vs with
  | nil => rfl
  | cons v vs ih =>
    obtain ⟨hv, hvs⟩ := List.forall_mem_cons.mp hv
    rw [ownVoices_cons_own hv, ih hvs]
    rfl

theorem ownVoices_held (vs : List (Voice α)) :
    ownVoices id os (vs.filter fun v => !v.isReleased) =
      (ownVoices id os vs).filter fun v => !v.isReleased := by
  have hr (v : Voice α) : (v.rename (renamed id os)).isReleased = v.isReleased := rfl
  rw [ownVoices, ownVoices, List.filter_map, List.filter_filter, List.filter_filter]
  simp only [Function.comp_def, hr, Bool.and_comm]

theorem ownVoices_grow (hv : ∀ v ∈ vs, v.handle.number ≤ os.length) (os' : List (Instance α)) :
    ownVoices id (os ++ os') vs = ownVoices id os vs := by
  unfold ownVoices
  rw [List.filter_congr fun v hm => belongs_append (hv v hm) os']
  refine List.map_congr_left fun v hm => ?_
  rw [Voice.rename, renamed_append (Nat.le_succ_of_le (hv v (List.mem_filter.mp hm).1))]
  rfl

theorem ownVoices_next [Scalar α] [Easing α] (dt : α) (vs : List (Voice α)) :
    ownVoices id os (vs.map (Voice.next dt)) = (ownVoices id os vs).map (Voice.next dt) := by
  have hr (v : Voice α) :
      (v.next dt).rename (renamed id os) = (v.rename (renamed id os)).next dt := by
    rw [Voice.rename, Voice.rename, Voice.next_handle, Voice.next_onHandle]
  unfold ownVoices
  rw [List.filter_map, List.map_map, List.map_map]
  simp only [Function.comp_def, Voice.next_handle, hr]

theorem Mirrors.tellEach {b c : Recording α} (hm : Mirrors id os b c)
    (hv : ∀ v ∈ vs, ∃ i, Owns os v.handle i) {f : Voice α → List (Cue α)}
    (hf : ∀ k v, f (v.onHandle k) = f v) :
    Mirrors id os (Voice.tellEach f vs b) (Voice.tellEach f (ownVoices id os vs) c) := by
  induction vs generalizing b c with
  | nil => exact hm
  | cons v vs ih =>
    obtain ⟨⟨i, hi⟩, hvs⟩ := List.forall_mem_cons.mp hv
    by_cases he : i.id = id
    · subst he
      rw [ownVoices_cons_own hi]
      show Mirrors i.id os _ (Voice.tellEach f _ (tellAll c (renamed i.id os v.handle)
        (f (v.rename (renamed i.id os)))))
      rw [Voice.rename, hf]
      exact ih (hm.tellAll_own hi _) hvs
    · rw [ownVoices_cons_other hi he]
      exact ih (hm.tellAll_other hi he _) hvs

end OwnVoices

/-! ### The player of one instance -/

theorem Player.rename_grow {id : Nat} {os : List (Instance α)} {p : Player α}
    (hp : ∀ v ∈ p.voice, v.handle.number ≤ os.length) (os' : List (Instance α)) :
    p.rename (renamed id (os ++ os')) = p.rename (renamed id os) := by
  unfold rename
  cases hv : p.voice with
  | none => rfl
  | some v =>
    simp only [Option.map_some, Voice.rename, renamed_append (Nat.le_succ_of_le (hp v hv))]

/-- Among the players of a world that of an instance is a given one with its handle renamed; once
that one is over, it need not be there. -/
inductive Stands (id : Nat) (os : List (Instance α)) : List (Player α) → Player α → Prop
  | gone {q : Player α} : q.isTerminated → q.voice = none → Stands id os [] q
  | here {p : Player α} {ps : List (Player α)} : p.id = id → (∀ r ∈ ps, r.id ≠ id) →
      Stands id os (p :: ps) (p.rename (renamed id os))
  | later {p q : Player α} {ps : List (Player α)} : p.id ≠ id → Stands id os ps q →
      Stands id os (p :: ps) q

namespace Stands

variable {id : Nat} {os : List (Instance α)} {ps qs : List (Player α)} {q : Player α}

theorem of_others (hps : ∀ p ∈ ps, p.id ≠ id) (hq : q.isTerminated) (hv : q.voice = none) :
    Stands id os ps q := by
  induction ps with
  | nil => exact .gone hq hv
  | cons p ps ih =>
    obtain ⟨hp, hps⟩ := List.forall_mem_cons.mp hps
    exact .later hp (ih hps)

theorem append (h : Stands id os ps q) (hqs : ∀ p ∈ qs, p.id ≠ id) : Stands id os (ps ++ qs) q := by
  induction h with
  | gone hq hv => exact of_others hqs hq hv
  | here hp hps => exact .here hp fun r hr => (List.mem_append.mp hr).elim (hps r) (hqs r)
  | later hp _ ih => exact .later hp ih

theorem prepend (h : Stands id os ps q) (hqs : ∀ p ∈ qs, p.id ≠ id) :
    Stands id os (qs ++ ps) q := by
  induction qs with
  | nil => exact h
  | cons r qs ih =>
    obtain ⟨hr, hqs⟩ := List.forall_mem_cons.mp hqs
    exact .later hr (ih hqs)

theorem dropTerminated (h : Stands id os ps q) (hc : ∀ p ∈ ps, p.Coherent) :
    Stands id os (ps.filter fun p => !p.isTerminated) q := by
  induction h with
  | gone hq hv => exact .gone hq hv
  | here hp hps =>
    next p ps =>
    have hps' : ∀ r ∈ ps.filter fun p => !p.isTerminated, r.id ≠ id :=
      fun r hr => hps r (List.mem_filter.mp hr).1
    cases ht : p.isTerminated with
    | false =>
      rw [List.filter_cons_of_pos (by simp [ht])]
      exact .here hp hps'
    | true =>
      rw [List.filter_cons_of_neg (by simp [ht])]
      refine of_others hps' ht ?_
      simp [Player.rename, (hc p List.mem_cons_self).voice_of_isTerminated ht]
  | later hp _ ih =>
    next p q ps _ =>
    have ih := ih fun r hr => hc r (List.mem_cons_of_mem _ hr)
    cases ht : p.isTerminated with
    | false =>
      rw [List.filter_cons_of_pos (by simp [ht])]
      exact .later hp ih
    | true =>
      rw [List.filter_cons_of_neg (by simp [ht])]
      exact ih

theorem filter_eq (h : Stands id os ps q) (ha : ∀ p ∈ ps, p.isTerminated = false) :
    (ps.filter fun p => p.id == id).map (Player.rename (renamed id os)) =
      [q].filter fun p => !p.isTerminated := by
  induction h with
  | gone hq hv => simp [hq]
  | here hp hps =>
    next p ps =>
    have hnone : ps.filter (fun r => r.id == id) = [] := by
      rw [List.filter_eq_nil_iff]
      exact fun r hr => by simpa using hps r hr
    have ht : (p.rename (renamed id os)).isTerminated = false := ha p List.mem_cons_self
    rw [List.filter_cons_of_pos (by simpa using hp), hnone]
    simp [ht]
  | later hp _ ih =>
    rw [List.filter_cons_of_neg (by simpa using hp)]
    exact ih fun r hr => ha r (List.mem_cons_of_mem _ hr)

theorem eq_rename {p : Player α} (h : Stands id os ps q) (hids : (ps.map Player.id).Pairwise (· < ·)) (hp : p ∈ ps)
    (he : p.id = id) : q = p.rename (renamed id os) := by
  induction h with
  | gone => cases hp
  | here hr hps =>
    obtain rfl | hp := List.mem_cons.mp hp
    · rfl
    · exact absurd he (hps p hp)
  | later hr _ ih =>
    obtain rfl | hp := List.mem_cons.mp hp
    · exact absurd he hr
    · exact ih (List.pairwise_cons.mp hids).2 hp

theorem gone_or_mem (h : Stands id os ps q) :
    (q.isTerminated ∧ q.voice = none) ∨ ∃ p ∈ ps, p.id = id ∧ q = p.rename (renamed id os) := by
  induction h with
  | gone hq hv => exact .inl ⟨hq, hv⟩
  | here hp => exact .inr ⟨_, List.mem_cons_self, hp, rfl⟩
  | later _ _ ih =>
    exact ih.imp_right fun ⟨p, hp, h⟩ => ⟨p, List.mem_cons_of_mem _ hp, h⟩

theorem grow (h : Stands id os ps q) {os' : List (Instance α)} (ho : ∀ j ∈ os', j.id ≠ id) :
    Stands id (os ++ os') ps q := by
  have hren : renamed id (os ++ os') = renamed id os := funext fun k => renamed_append_others ho
  induction h with
  | gone hq hv => exact .gone hq hv
  | here hp hps =>
    rw [← hren]
    exact .here hp hps
  | later hp _ ih => exact .later hp ih

end Stands

/-! ### The end of all players -/

namespace Mirrors

variable {id : Nat} {os : List (Instance α)} {b c : Recording α} {p : Player α}
  {ps : List (Player α)}

theorem cancel_other (hm : Mirrors id os b c) (hne : p.id ≠ id)
    (ho : ∀ v ∈ p.voice, Owns os v.handle p.identity) : Mirrors id os (p.cancel b).2 c := by
  unfold Player.cancel
  cases hv : p.voice with
  | none => exact hm
  | some v =>
    show Mirrors id os (v.kill b).2 c
    rw [Voice.kill_eq]
    exact hm.tellAll_other (ho v hv) hne v.lastWords

theorem cancel_own (hm : Mirrors p.id os b c)
    (ho : ∀ v ∈ p.voice, Owns os v.handle p.identity) :
    Mirrors p.id os (p.cancel b).2 ((p.rename (renamed p.id os)).cancel c).2 := by
  cases hv : p.voice with
  | none => simpa [Player.cancel, Player.rename, hv] using hm
  | some v =>
    have hb : (p.cancel b).2 = (v.kill b).2 := by simp [Player.cancel, hv]
    have hc : ((p.rename (renamed p.id os)).cancel c).2 =
        ((v.rename (renamed p.id os)).kill c).2 := by simp [Player.cancel, Player.rename, hv]
    rw [hb, hc, Voice.kill_eq, Voice.kill_eq, Voice.rename, Voice.lastWords_onHandle]
    exact hm.tellAll_own (ho v hv) v.lastWords

theorem cancelAll_others (hm : Mirrors id os b c) (hne : ∀ p ∈ ps, p.id ≠ id)
    (ho : ∀ p ∈ ps, ∀ v ∈ p.voice, Owns os v.handle p.identity) :
    Mirrors id os (Scheduler.cancelAll ps b) c := by
  induction ps generalizing b with
  | nil => exact hm
  | cons p ps ih =>
    obtain ⟨hp, hne⟩ := List.forall_mem_cons.mp hne
    obtain ⟨hop, ho⟩ := List.forall_mem_cons.mp ho
    exact ih (hm.cancel_other hp hop) hne ho

end Mirrors

theorem Stands.cancelAll {id : Nat} {os : List (Instance α)} {b c : Recording α}
    {ps : List (Player α)} {q : Player α} (h : Stands id os ps q) (hm : Mirrors id os b c)
    (ho : ∀ p ∈ ps, ∀ v ∈ p.voice, Owns os v.handle p.identity) :
    Mirrors id os (Scheduler.cancelAll ps b) (q.cancel c).2 := by
  induction h generalizing b with
  | gone _ hv =>
    unfold Player.cancel
    rw [hv]
    exact hm
  | here hp hps =>
    obtain ⟨hop, ho⟩ := List.forall_mem_cons.mp ho
    subst hp
    exact (hm.cancel_own hop).cancelAll_others hps ho
  | later hp _ ih =>
    obtain ⟨hop, ho⟩ := List.forall_mem_cons.mp ho
    exact ih (hm.cancel_other hp hop) ho

/-! ### Steps of time -/

section Time

variable [Scalar α] [Easing α]

variable {id : Nat} {os : List (Instance α)} {done ps : List (Player α)} {loose : List (Voice α)}
  {q : Player α} {r c : Recording α}

theorem Mirrors.advanceAll_others (hm : Mirrors id os r c) (h : Crew os (done ++ ps) loose r)
    (hne : ∀ p ∈ ps, p.id ≠ id) (dt fallback : α) :
    (∀ p ∈ (Scheduler.advanceAll dt fallback ps r).1, p.id ≠ id) ∧
      ownVoices id (os ++ Crew.acquisitions dt fallback ps r)
        (Scheduler.advanceAll dt fallback ps r).2.1 = [] ∧
      Mirrors id (os ++ Crew.acquisitions dt fallback ps r)
        (Scheduler.advanceAll dt fallback ps r).2.2 c := by
  induction ps generalizing os done loose r with
  | nil => exact ⟨hne, rfl, by simpa [Crew.acquisitions, Scheduler.advanceAll] using hm⟩
  | cons p ps ih =>
    obtain ⟨hp, hne⟩ := List.forall_mem_cons.mp hne
    have hmem : p ∈ done ++ p :: ps := by simp
    obtain ⟨hi, -, hu⟩ := h.upkeep dt fallback
    have hm₁ := hm.advance_other hp (h.coherent p hmem) (h.own p hmem) dt fallback
    have h₁ := h.advancePlayer dt fallback
    rw [List.append_cons] at h₁
    obtain ⟨hids, hnone, hm₂⟩ := ih hm₁ h₁ hne
    rw [h.append_acquisitions]
    refine ⟨List.forall_mem_cons.mpr ⟨?_, hids⟩, ?_, hm₂⟩
    · exact fun he => hp ((congrArg Instance.id hi).symm.trans he)
    · have hfresh := ownVoices_of_others
        (fun v hv => (hu.own v (List.mem_append_right _ hv)).append
          (Crew.acquisitions dt fallback ps (p.advance dt fallback r).2.2)) hp
      simp only [Scheduler.advanceAll, ownVoices_append, hnone, hfresh, List.append_nil]

theorem Stands.advanceAll (h : Stands id os ps q) (hm : Mirrors id os r c)
    (hc : Crew os (done ++ ps) loose r) (dt fallback : α) :
    ∃ q' c', q.advance dt fallback c =
        (q', ownVoices id (os ++ Crew.acquisitions dt fallback ps r)
          (Scheduler.advanceAll dt fallback ps r).2.1, c') ∧
      Stands id (os ++ Crew.acquisitions dt fallback ps r)
        (Scheduler.advanceAll dt fallback ps r).1 q' ∧
      Mirrors id (os ++ Crew.acquisitions dt fallback ps r)
        (Scheduler.advanceAll dt fallback ps r).2.2 c' := by
  induction ps generalizing os done loose r with
  | nil =>
    cases h with
    | gone hq hv =>
      have hos : os ++ Crew.acquisitions dt fallback [] r = os := List.append_nil os
      rw [hos]
      exact ⟨q, c, Player.advance_of_isTerminated hq hv dt fallback c, .gone hq hv, hm⟩
  | cons p ps ih =>
    have hmem : p ∈ done ++ p :: ps := by simp
    obtain ⟨hi, hcp, hu⟩ := hc.upkeep dt fallback
    have h₁ := hc.advancePlayer dt fallback
    rw [List.append_cons] at h₁
    have hid : (p.advance dt fallback r).1.id = p.id := congrArg Instance.id hi
    rw [hc.append_acquisitions]
    simp only [Scheduler.advanceAll, ownVoices_append]
    cases h with
    | here hp hps =>
      subst hp
      obtain ⟨c', hadv, hm₁⟩ :=
        hm.advance_own (hc.coherent p hmem) (hc.own p hmem) dt fallback
      obtain ⟨hids, hnone, hm₂⟩ := hm₁.advanceAll_others h₁ hps dt fallback
      have hown (v : Voice α) (hv : v ∈ (p.advance dt fallback r).1.voice.toList ++
          (p.advance dt fallback r).2.1) : v.handle.number ≤ (acquiredBy p.identity os
            (p.advance dt fallback r).2.2).length := (hu.own v hv).number_le
      have hfresh := ownVoices_of_own fun v hv => hu.own v (List.mem_append_right _ hv)
      rw [hadv, hnone, List.append_nil]
      refine ⟨_, c', Prod.ext ?_ (Prod.ext ?_ rfl), .here hid hids, hm₂⟩
      · exact (Player.rename_grow
          (fun v hv => hown v (List.mem_append_left _ (Option.mem_toList.mpr hv))) _).symm
      · rw [ownVoices_grow fun v hv => hown v (List.mem_append_right _ hv)]
        exact hfresh.symm
    | later hp h =>
      have hm₁ := hm.advance_other hp (hc.coherent p hmem) (hc.own p hmem) dt fallback
      have ho : ∀ j ∈ List.replicate ((p.advance dt fallback r).2.2.acquired - os.length)
          p.identity, j.id ≠ id := fun j hj => by rwa [List.eq_of_mem_replicate hj]
      obtain ⟨q', c', hadv, hst, hm₂⟩ := ih (h.grow ho) hm₁ h₁
      have hfresh := ownVoices_of_others
        (fun v hv => (hu.own v (List.mem_append_right _ hv)).append
          (Crew.acquisitions dt fallback ps (p.advance dt fallback r).2.2)) hp
      rw [hfresh, List.nil_append]
      exact ⟨q', c', hadv, .later (hid ▸ hp) hst, hm₂⟩

end Time

end Soundscape
