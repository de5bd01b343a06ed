import Soundscape.Proofs.Player.Upkeep
import Soundscape.Proofs.Recording.Mirror

/-!
# A player on a shared recording and on one of its own

A player that shares its recording goes the way it goes alone.  `Mirrored` sets each of its voices
beside the same voice on the mirror of the recording, and no operation of the player breaks it
(`Mirrored.abreast`).  What another player does leaves the mirror as it is (`Apart.alone`).  The
main results are about one step of time:

* `Mirrors.advance_own`: the player does the same on both recordings;
* `Mirrors.advance_other`: another player is not noticed.
-/

namespace Soundscape

variable {α : Type}

def Voice.rename (f : Handle → Handle) (v : Voice α) : Voice α := v.onHandle (f v.handle)

/-- The player with the handle of its voice renamed. -/
def Player.rename (f : Handle → Handle) (p : Player α) : Player α :=
  p.having (p.voice.map (Voice.rename f))

/-- Voices on a recording that an instance shares, each beside the same voice on the mirror. -/
structure Mirrored (i : Instance α) (os : List (Instance α)) (vs : List (Voice α × Voice α))
    (b c : Recording α) : Prop where
  mirrors : Mirrors i.id (acquiredBy i os b) b c
  own : ∀ x ∈ vs, Owns (acquiredBy i os b) x.1.handle i
  beside : ∀ x ∈ vs, x.2 = x.1.rename (renamed i.id (acquiredBy i os b))

theorem Mirrors.length_le {id : Nat} {i : Instance α} {os : List (Instance α)} {b c : Recording α}
    (h : Mirrors id (acquiredBy i os b) b c) : os.length ≤ b.acquired := by
  have hc := h.count
  simp only [acquiredBy, List.length_append, List.length_replicate] at hc
  omega

namespace Mirrored

variable {i : Instance α} {os : List (Instance α)} {vs : List (Voice α × Voice α)}
  {v v' w w' : Voice α} {b b' c c' : Recording α}

theorem head (h : Mirrored i os ((v, w) :: vs) b c) :
    Owns (acquiredBy i os b) v.handle i ∧
      w = v.rename (renamed i.id (acquiredBy i os b)) :=
  ⟨h.own _ List.mem_cons_self, h.beside _ List.mem_cons_self⟩

theorem replace (h : Mirrored i os ((v, w) :: vs) b c) (hb : b'.acquired = b.acquired)
    (hm : Mirrors i.id (acquiredBy i os b) b' c') (hv : v'.handle = v.handle)
    (hw : w' = v'.onHandle w.handle) : Mirrored i os ((v', w') :: vs) b' c' := by
  have hos : acquiredBy i os b' = acquiredBy i os b := acquiredBy_congr hb
  obtain ⟨ho, rfl⟩ := h.head
  refine ⟨by rwa [hos], ?_, ?_⟩ <;> rw [hos]
  · exact List.forall_mem_cons.mpr ⟨by rwa [hv], fun x hx => h.own x (List.mem_cons_of_mem _ hx)⟩
  · refine List.forall_mem_cons.mpr ⟨?_, fun x hx => h.beside x (List.mem_cons_of_mem _ hx)⟩
    show w' = v'.onHandle (renamed i.id (acquiredBy i os b) v'.handle)
    rw [hw, hv]
    rfl

theorem tail (h : Mirrored i os ((v, w) :: vs) b c) (hb : b'.acquired = b.acquired)
    (hm : Mirrors i.id (acquiredBy i os b) b' c') : Mirrored i os vs b' c' := by
  have hos : acquiredBy i os b' = acquiredBy i os b := acquiredBy_congr hb
  refine ⟨by rwa [hos], ?_, ?_⟩ <;> rw [hos]
  · exact fun x hx => h.own x (List.mem_cons_of_mem _ hx)
  · exact fun x hx => h.beside x (List.mem_cons_of_mem _ hx)

theorem giveUp (h : Mirrored i os ((v, w) :: vs) b c) (hs : v'.handle = v.handle)
    (hw : w' = v'.onHandle w.handle) (hb : b'.acquired = b.acquired)
    (hm : Mirrors i.id (acquiredBy i os b) b' c') :
    Mirrored i os vs (v'.kill b').2 (w'.kill c').2 := by
  obtain ⟨ho, rfl⟩ := h.head
  have hm' := hm.tellAll_own ho v'.lastWords
  rw [Voice.kill_eq, Voice.kill_eq, hw, Voice.lastWords_onHandle, hs]
  exact h.tail ((Recording.kin_tellAll _ _ _).acquired.trans hb) hm'

theorem of_together {x : Player α × List (Voice α) × Recording α}
    {y : Player α × List (Voice α) × Recording α}
    (h : Abreast.Together i (Mirrored i os) x y) :
    let f := renamed i.id (acquiredBy i os x.2.2)
    ∃ c, y = (x.1.rename f, x.2.1.map (Voice.rename f), c) ∧
      Mirrors i.id (acquiredBy i os x.2.2) x.2.2 c := by
  cases h with
  | intro p held fresh hp hc hR =>
    refine ⟨_, Prod.ext ?_ (Prod.ext ?_ rfl), hR.mirrors⟩
    · cases held with
      | none => rfl
      | some x => exact congrArg (fun v => p.having (some v)) (hR.beside x (by simp))
    · rw [List.map_map]
      exact List.map_congr_left fun x hx => hR.beside x (List.mem_append_right _ hx)

variable [Scalar α] [Easing α]

theorem opening (h : Mirrored i os vs b c) (clip : String) (o : Player.Opening α) (looped : Bool) :
    Mirrored i os
      ((Player.opened b.nextHandle clip o, Player.opened c.nextHandle clip o) :: vs)
      (tellAll (b.opened clip) b.nextHandle (Player.overture b.nextHandle clip o looped))
      (tellAll (c.opened clip) c.nextHandle (Player.overture c.nextHandle clip o looped)) := by
  have hacq : (tellAll (b.opened clip) b.nextHandle
      (Player.overture b.nextHandle clip o looped)).acquired = b.acquired + 1 :=
    (Recording.kin_tellAll _ _ _).acquired
  have hos := acquiredBy_succ (i := i) h.mirrors.length_le hacq
  obtain ⟨hnew, hm⟩ := h.mirrors.opening_own clip
  have hown : Owns (acquiredBy i os b ++ [i]) b.nextHandle i := by
    rw [h.mirrors.nextHandle_eq]
    exact owns_last _ i
  have htell := hm.tellAll_own hown (Player.overture b.nextHandle clip o looped)
  rw [hnew] at htell
  refine ⟨?_, ?_, ?_⟩ <;> rw [hos]
  · rwa [Player.overture_onHandle b.nextHandle c.nextHandle]
  · refine List.forall_mem_cons.mpr ⟨by rwa [Player.opened_handle], fun x hx => ?_⟩
    exact (h.own x hx).append _
  · refine List.forall_mem_cons.mpr ⟨?_, fun x hx => ?_⟩
    · rw [Voice.rename, Player.opened_handle, hnew]
      exact Player.opened_onHandle ..
    · rw [h.beside x hx, Voice.rename, Voice.rename,
        renamed_append (Nat.le_succ_of_le (h.own x hx).number_le)]

theorem restart (h : Mirrored i os ((v, w) :: vs) b c) (clip : String) (volume : α)
    (pitch : Option α) (fadeIn : α) :
    (∃ e f v' w' b' c', v.restart clip volume pitch fadeIn b = (.error e, v', b') ∧
      w.restart clip volume pitch fadeIn c = (.error f, w', c') ∧
      Mirrored i os vs (v'.kill b').2 (w'.kill c').2) ∨
    ∃ v' w' b' c', v.restart clip volume pitch fadeIn b = (.ok (), v', b') ∧
      w.restart clip volume pitch fadeIn c = (.ok (), w', c') ∧
      Mirrored i os ((v', w') :: vs) b' c' := by
  obtain ⟨ho, hw⟩ := h.head
  have hr : w.isReleased = v.isReleased := by rw [hw]; rfl
  have hush : w.hush = v.hush := by rw [hw]; rfl
  have hh : w.handle = renamed i.id (acquiredBy i os b) v.handle := by rw [hw]; rfl
  rw [Voice.restart_eq, Voice.restart_eq, hr, hush]
  cases hv : v.isReleased with
  | true => exact .inl ⟨_, _, _, _, _, _, rfl, rfl, h.giveUp rfl (by rw [hw]; rfl) rfl h.mirrors⟩
  | false =>
    obtain ⟨hok, hm⟩ := (h.mirrors.tellAll_own ho v.hush).loadClip_own ho clip
    have hacq : ((tellAll b v.handle v.hush).loadClip v.handle clip).2.acquired = b.acquired :=
      (Recording.kin_loadClip _ _ _).acquired.trans (Recording.kin_tellAll _ _ _).acquired
    simp only [Bool.false_eq_true, if_false, AudioBackend.loadClip]
    rw [hh]
    generalize (tellAll b v.handle v.hush).loadClip v.handle clip = x at hok hm hacq ⊢
    generalize Recording.loadClip (tellAll c _ v.hush) _ clip = y at hok hm ⊢
    obtain ⟨_ | ⟨⟩, b'⟩ := x <;> obtain ⟨_ | ⟨⟩, c'⟩ := y
    · refine .inl ⟨_, _, _, _, _, _, rfl, rfl, h.giveUp rfl ?_ hacq hm⟩
      rw [hw]
      rfl
    · cases hok
    · cases hok
    · have hre : w.reloaded clip volume pitch fadeIn =
          (v.reloaded clip volume pitch fadeIn).onHandle w.handle := by rw [hw]; rfl
      have hst := Voice.stepTells_onHandle w.handle 0 (v.reloaded clip volume pitch fadeIn)
      refine .inr ⟨_, _, _, _, rfl, rfl, h.replace ?_ ?_ (Voice.stepped_handle ..) ?_⟩
      · exact (Recording.kin_tellAll _ _ _).acquired.trans hacq
      · rw [hre, hst]
        exact hm.tellAll_own ho _
      · rw [hre, Voice.stepped_onHandle]

theorem abreast : Abreast i.statement (Mirrored i os) where
  perm hp h := ⟨h.mirrors, fun x hx => h.own x (hp.mem_iff.mpr hx),
    fun x hx => h.beside x (hp.mem_iff.mpr hx)⟩
  state h := by
    rw [h.head.2]
    rfl
  movesPitch h := by
    rw [h.head.2]
    rfl
  clipLength {v w vs b c} h := by
    obtain ⟨ho, rfl⟩ := h.head
    have hch := h.mirrors.channel _ (belongs_iff.mpr ⟨i, ho, rfl⟩)
    have hst : b.live.find? v.handle =
        c.live.find? (renamed i.id (acquiredBy i os b) v.handle) := congrArg Channel.state hch
    show (b.live.find? v.handle).map _ = (c.live.find? _).map _
    rw [hst]
    exact congrArg (Option.map · _) (funext fun s => (h.mirrors.lengthOf s.clip).symm)
  advance {v w vs b c} dt h := by
    obtain ⟨ho, rfl⟩ := h.head
    rw [Voice.rename, Voice.tells_onHandle, Voice.next_onHandle]
    exact h.replace (Recording.kin_tellAll _ _ _).acquired (h.mirrors.tellAll_own ho _)
      (v.next_handle dt) rfl
  drop hr h := h.tail rfl h.mirrors
  fade delay length hs h := by
    refine h.replace rfl h.mirrors rfl ?_
    rw [h.head.2]
    rfl
  opening {vs b c} clip o _ h := by
    have hb : AudioBackend.acquire b clip = b.acquire clip := rfl
    have hc : AudioBackend.acquire c clip = c.acquire clip := rfl
    rw [hb, hc, Recording.acquire_eq, Recording.acquire_eq, h.mirrors.missing]
    by_cases hm : b.missing.contains clip = true
    · exact .inl ⟨_, _, b, c, if_pos hm, if_pos hm, h⟩
    · exact .inr ⟨_, _, _, _, if_neg hm, if_neg hm, h.opening clip o _⟩
  restart {v w vs b c clip} volume pitch fadeIn _ _ h := h.restart clip volume pitch fadeIn

end Mirrored

/-! ### Another player -/

/-- Voices of another instance on the shared recording. -/
structure Apart (id : Nat) (j : Instance α) (os : List (Instance α)) (c : Recording α)
    (vs : List (Voice α)) (b : Recording α) : Prop where
  mirrors : Mirrors id (acquiredBy j os b) b c
  own : ∀ v ∈ vs, Owns (acquiredBy j os b) v.handle j

namespace Apart

variable {id : Nat} {j : Instance α} {os : List (Instance α)} {vs : List (Voice α)}
  {v v' : Voice α} {b b' c : Recording α}

theorem replace (h : Apart id j os c (v :: vs) b) (hb : b'.acquired = b.acquired)
    (hm : Mirrors id (acquiredBy j os b) b' c) (hv : v'.handle = v.handle) :
    Apart id j os c (v' :: vs) b' := by
  have hos : acquiredBy j os b' = acquiredBy j os b := acquiredBy_congr hb
  refine ⟨by rwa [hos], ?_⟩
  rw [hos]
  refine List.forall_mem_cons.mpr ⟨?_, fun x hx => h.own x (List.mem_cons_of_mem _ hx)⟩
  rw [hv]
  exact h.own v List.mem_cons_self

theorem tail (h : Apart id j os c (v :: vs) b) : Apart id j os c vs b :=
  ⟨h.mirrors, fun x hx => h.own x (List.mem_cons_of_mem _ hx)⟩

variable [Scalar α] [Easing α]

theorem opening (h : Apart id j os c vs b) (hne : j.id ≠ id) (clip : String)
    (o : Player.Opening α) (looped : Bool) :
    Apart id j os c (Player.opened b.nextHandle clip o :: vs)
      (tellAll (b.opened clip) b.nextHandle (Player.overture b.nextHandle clip o looped)) := by
  have hacq : (tellAll (b.opened clip) b.nextHandle
      (Player.overture b.nextHandle clip o looped)).acquired = b.acquired + 1 :=
    (Recording.kin_tellAll _ _ _).acquired
  have hos := acquiredBy_succ (i := j) h.mirrors.length_le hacq
  have hown : Owns (acquiredBy j os b ++ [j]) b.nextHandle j := by
    rw [h.mirrors.nextHandle_eq]
    exact owns_last _ j
  refine ⟨?_, ?_⟩ <;> rw [hos]
  · exact (h.mirrors.opening_other hne clip).tellAll_other hown hne _
  · refine List.forall_mem_cons.mpr ⟨by rwa [Player.opened_handle], fun x hx => ?_⟩
    exact (h.own x hx).append _

theorem restart (h : Apart id j os c (v :: vs) b) (hne : j.id ≠ id) {clip : String} {volume : α}
    {pitch : Option α} {fadeIn : α} {e : Except BackendError Unit}
    (hr : v.restart clip volume pitch fadeIn b = (e, v', b')) :
    Apart id j os c (v' :: vs) b' := by
  have ho := h.own v List.mem_cons_self
  rw [Voice.restart_eq] at hr
  split at hr
  · cases hr
    exact h
  · have hm := (h.mirrors.tellAll_other ho hne v.hush).loadClip_other ho hne clip
    have hacq : ((tellAll b v.handle v.hush).loadClip v.handle clip).2.acquired = b.acquired :=
      (Recording.kin_loadClip _ _ _).acquired.trans (Recording.kin_tellAll _ _ _).acquired
    simp only [AudioBackend.loadClip] at hr
    generalize (tellAll b v.handle v.hush).loadClip v.handle clip = x at hm hacq hr
    obtain ⟨_ | ⟨⟩, b₁⟩ := x <;> cases hr
    · exact h.replace hacq hm rfl
    · exact h.replace ((Recording.kin_tellAll _ _ _).acquired.trans hacq)
        (hm.tellAll_other ho hne _) (Voice.stepped_handle ..)

theorem alone (hne : j.id ≠ id) : Alone j.statement (Apart id j os c) where
  perm hp h := ⟨h.mirrors, fun v hv => h.own v (hp.mem_iff.mpr hv)⟩
  advance {v vs b} dt h := h.replace (Recording.kin_tellAll _ _ _).acquired
    (h.mirrors.tellAll_other (h.own v List.mem_cons_self) hne _) (v.next_handle dt)
  drop _ h := h.tail
  fade delay length _ h := h.replace rfl h.mirrors rfl
  refused {vs b b' clip e} ha h := by
    rw [show AudioBackend.acquire b clip = b.acquire clip from rfl, Recording.acquire_eq] at ha
    split at ha
    · cases ha
      exact h
    · cases ha
  opening {vs b b' clip k} o _ ha h := by
    rw [show AudioBackend.acquire b clip = b.acquire clip from rfl, Recording.acquire_eq] at ha
    split at ha
    · cases ha
    · cases ha
      exact h.opening hne clip o _
  restart _ _ hr h := h.restart hne hr
  giveUp {v v' vs b b' clip volume pitch fadeIn e} _ _ hr h := by
    have h' := h.restart hne hr
    have hk : Apart id j os c (v' :: vs) (tellAll b' v'.handle v'.lastWords) :=
      h'.replace (Recording.kin_tellAll _ _ _).acquired
        (h'.mirrors.tellAll_other (h'.own v' List.mem_cons_self) hne _) rfl
    rw [Voice.kill_eq]
    exact hk.tail

end Apart

/-! ### Steps of time -/

namespace Mirrors

variable [Scalar α] [Easing α]

variable {id : Nat} {os : List (Instance α)} {b c : Recording α} {p : Player α}

omit [Scalar α] [Easing α] in
theorem acquiredBy_self (hm : Mirrors id os b c) (i : Instance α) : acquiredBy i os b = os := by
  simp [acquiredBy, hm.count]

omit [Scalar α] [Easing α] in
theorem mirrored (hm : Mirrors p.id os b c) (ho : ∀ v ∈ p.voice, Owns os v.handle p.identity) :
    ∃ held : Option (Voice α × Voice α), p.having (held.map Prod.fst) = p ∧
      p.having (held.map Prod.snd) = p.rename (renamed p.id os) ∧
      Mirrored p.identity os held.toList b c := by
  refine ⟨p.voice.map fun v => (v, v.rename (renamed p.id os)), ?_, ?_, ?_, ?_, ?_⟩
  · simp [Function.comp_def]
  · simp [Function.comp_def, Player.rename]
  · rwa [hm.acquiredBy_self]
  all_goals
    rw [hm.acquiredBy_self]
    intro x hx
    obtain ⟨v, hv, rfl⟩ := Option.map_eq_some_iff.mp (Option.mem_toList.mp hx)
  · exact ho v hv
  · rfl

/-- A player does the same on a recording that it shares as on one of its own. -/
theorem advance_own (hm : Mirrors p.id os b c) (hc : p.Coherent)
    (ho : ∀ v ∈ p.voice, Owns os v.handle p.identity) (dt fallback : α) :
    let x := p.advance dt fallback b
    let f := renamed p.id (acquiredBy p.identity os x.2.2)
    ∃ c', (p.rename (renamed p.id os)).advance dt fallback c =
        (x.1.rename f, x.2.1.map (Voice.rename f), c') ∧
      Mirrors p.id (acquiredBy p.identity os x.2.2) x.2.2 c' := by
  obtain ⟨held, hfst, hsnd, hR⟩ := hm.mirrored ho
  have ht := Mirrored.abreast.together_advance dt fallback rfl (by rwa [hfst]) hR
  rw [hfst, hsnd] at ht
  exact Mirrored.of_together ht

theorem advance_other (hm : Mirrors id os b c) (hne : p.id ≠ id) (hc : p.Coherent)
    (ho : ∀ v ∈ p.voice, Owns os v.handle p.identity) (dt fallback : α) :
    Mirrors id (acquiredBy p.identity os (p.advance dt fallback b).2.2)
      (p.advance dt fallback b).2.2 c := by
  have hos := hm.acquiredBy_self p.identity
  have hP : Apart id p.identity os c p.voice.toList b := by
    refine ⟨by rwa [hos], ?_⟩
    rw [hos]
    exact fun v hv => ho v (Option.mem_toList.mp hv)
  have ha : Alone p.statement (Apart id p.identity os c) := Apart.alone (j := p.identity) hne
  exact (ha.advancePlayer hc hP dt fallback).2.2.mirrors

end Mirrors

end Soundscape
