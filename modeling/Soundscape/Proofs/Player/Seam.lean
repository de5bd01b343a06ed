import Soundscape.Proofs.Player.Behind
import Soundscape.Proofs.Player.Upkeep

/-!
# Where the second part of a step begins

At the end of the first part of a step the voices have come to the cut, the player follows its own,
and the voices that were let go go on by themselves.  The rest of the step then begins as it goes on
in a whole step (`Behind.of_cut`), and that the player has followed its voice at the cut already
makes no difference (`Progress.outcome_rest`).
-/

namespace Soundscape

theorem Voice.Fades.state_next_of_fading {α : Type} [Scalar α] [Easing α] {release r : Bool}
    {v : Voice α} (hv : v.Fades release) (hs : v.state = .fadingOut r) (dt : α) :
    (v.next dt).state = .fadingOut r ∨ (v.next dt).state = .afterFade release := by
  have hp : ∀ f, v.pending ≠ some f := fun f hf => by
    have := (hv.due f hf).1
    simp [hs] at this
  obtain ⟨hr, -, -⟩ | ⟨-, -, hn, -⟩ | ⟨f, _, _, -, hf, -⟩ | ⟨f, -, hf, -⟩ := v.next_cases dt
  · simp [isReleased, hs] at hr
  · rw [hn]
    obtain ⟨-, he, -⟩ | ⟨-, _, -, ⟨he, -⟩ | ⟨he, -⟩⟩ := hv.stepTells_cases (Scalar.larger dt 0)
    · exact .inl (he.trans hs)
    · exact .inl (he.trans hs)
    · exact .inr he
  · exact absurd hf (hp f)
  · exact absurd hf (hp f)

namespace Player

section Followed

variable {α : Type} {p : Player α} {v : Voice α}

/-- The player after its own voice has come to the end of a step. -/
def followed (p : Player α) : Player α := if p.isTerminated then p else p.followVoice

theorem followed_of_fading (ht : p.isTerminated = false) (hv : p.voice = some v) {r : Bool}
    (hs : v.state = .fadingOut r) : p.followed = { p with state := .fadingOut } := by
  simp only [followed, ht, followVoice, hv, hs]
  rfl

theorem followed_of_released (ht : p.isTerminated = false) (hv : p.voice = some v)
    (hs : v.state = .released) : p.followed = { p with voice := none, state := .terminated } := by
  simp only [followed, ht, followVoice, hv, hs]
  rfl

/-- The player stays as it is, unless its voice has begun a fade-out or ended one. -/
theorem followed_cases (p : Player α) :
    p.followed = p ∨ p.isTerminated = false ∧
      ∃ v, p.voice = some v ∧ ((∃ r, v.state = .fadingOut r) ∨ v.state = .released) := by
  cases ht : p.isTerminated with
  | true => exact .inl (if_pos ht)
  | false =>
    cases hv : p.voice with
    | none => simp [followed, ht, followVoice, hv]
    | some v => cases hs : v.state <;> simp [followed, ht, followVoice, hv, hs]

theorem Coherent.isHeld_of_not_waiting (hc : p.Coherent) (hw : p.wait? = none)
    (hv : p.voice = some v) : p.statement.isHeld = false := by
  obtain ⟨id, s, state, source, voice⟩ := p
  cases state with
  | waitingToStart r => cases hw
  | waitingForNext r => cases hw
  | terminated =>
    obtain rfl : voice = none := hc
    cases hv
  | playing =>
    have hk : s.kind = .loop := hc.1
    simp [Statement.isHeld, hk]
  | fadingOut =>
    have hk : s.kind = .loop := hc.1
    simp [Statement.isHeld, hk]

end Followed

variable {α β : Type} [Scalar α] [Easing α] [AudioBackend α β]

namespace Progress

theorem finished_eq_followed {x : Progress α β} (hw : x.player.wait? = none) :
    x.finished = { x.spend x.budget with player := (x.spend x.budget).player.followed } :=
  finished_of_not_waiting hw

theorem finished_fresh_backend (x : Progress α β) :
    x.finished.fresh = x.fresh.map (Voice.next x.budget) ∧
      x.finished.backend =
        Voice.tellEach (Voice.tells x.budget) (x.player.voice.toList ++ x.fresh) x.backend := by
  unfold finished spend
  rw [advanceVoices_eq]
  cases x.player.wait? <;> exact ⟨rfl, rfl⟩

theorem finished_followed {x : Progress α β} (hw : x.player.wait? = none)
    (hf : ∀ v ∈ x.player.voice, v.Fades true) :
    ({ x with player := x.player.followed } : Progress α β).finished = x.finished := by
  obtain ⟨d, p, fresh, b⟩ := x
  obtain he | ⟨ht, v, hv, ⟨r, hs⟩ | hs⟩ := p.followed_cases
  · rw [he]
  · have hfollowed := followed_of_fading ht hv hs
    dsimp only
    rw [hfollowed, finished_eq_followed (by rfl), finished_eq_followed hw]
    unfold spend
    simp only [advanceVoices_eq, hv, Option.map_some, Option.toList_some]
    congr 1
    obtain hn | hn := (hf v hv).state_next_of_fading hs d
    · rw [followed_of_fading rfl rfl hn,
        followed_of_fading (p := p.having (some (v.next d))) ht rfl hn]
      rfl
    · rw [followed_of_released rfl rfl hn,
        followed_of_released (p := p.having (some (v.next d))) ht rfl hn]
      rfl
  · have hr : v.isReleased := by simp [Voice.isReleased, hs]
    have hn : v.next d = v :=
      congrArg Prod.fst (Voice.advance_of_isReleased hr d (Notes.blank : Notes α))
    have htells : v.tells d = [] :=
      congrArg (fun x => x.2.cues) (Voice.advance_of_isReleased hr d (Notes.blank : Notes α))
    dsimp only
    rw [followed_of_released ht hv hs, finished_eq_followed (by rfl), finished_eq_followed hw]
    unfold spend
    simp only [advanceVoices_eq, hv, Option.map_some, Option.toList_some, hn]
    rw [followed_of_released (p := p.having (some v)) ht rfl hs]
    congr 1
    show Voice.tellEach (Voice.tells d) fresh b =
      Voice.tellEach (Voice.tells d) fresh (tellAll b v.handle (v.tells d))
    rw [htells]
    rfl

end Progress

end Player

open Player

/-! ### The recording at the cut -/

namespace Player.Progress

variable [Easing Rat] {z : Progress Rat (Recording Rat)} {loose : List (Voice Rat)} {e : Rat}

/-- The voice of the player, now and at the end of the step. -/
def atEnd (z : Progress Rat (Recording Rat)) : Option (Voice Rat × Voice Rat) :=
  z.player.voice.map fun v => (v, v.next z.budget)

theorem of_mem_atEnd {x : Voice Rat × Voice Rat} (hx : x ∈ z.atEnd.toList) :
    x.1 ∈ z.player.voice ∧ x.2 = x.1.next z.budget := by
  obtain ⟨v, hv, rfl⟩ := Option.map_eq_some_iff.mp (Option.mem_toList.mp hx)
  exact ⟨hv, rfl⟩

theorem handles_atEnd : z.atEnd.toList.map (fun x : Voice Rat × Voice Rat => x.1.handle) =
    z.player.voice.toList.map Voice.handle := by
  rw [atEnd, ← Option.toList_map, ← Option.toList_map, Option.map_map]
  rfl

/-- The recording once all voices have come to the end of the step, and those that were let go, in
this step or before, have gone on for some more time. -/
def handedOn (loose : List (Voice Rat)) (e : Rat) (z : Progress Rat (Recording Rat)) :
    Recording Rat :=
  Voice.tellEach (Voice.tells e) (loose ++ z.fresh.map (Voice.next z.budget))
    (Voice.tellEach (Voice.tells z.budget) (z.player.voice.toList ++ z.fresh) z.backend)

/-- The rest of a step goes on from its first part as in the whole step. -/
theorem outcome_rest (hc : z.player.Coherent)
    (hf : ∀ v ∈ z.player.voice, v.Fades !z.player.statement.isHeld) (fallback : Rat)
    (c : Recording Rat) :
    ((⟨e, z.finished.player, [], c⟩ : Progress Rat (Recording Rat)).run fallback
        (turnBound e)).outcome =
      ((Behind.second z.player z.atEnd [] z.budget e c).run fallback (turnBound e)).outcome := by
  have hvoice : z.atEnd.map Prod.snd = z.player.voice.map (Voice.next z.budget) := by
    rw [atEnd, Option.map_map]
    rfl
  have hspend : (z.spend z.budget).player =
      z.player.having (z.player.voice.map (Voice.next z.budget)) := by
    unfold spend
    rw [advanceVoices_eq]
  unfold Behind.second
  rw [hvoice, List.map_nil]
  cases hw : z.player.wait? with
  | some r =>
    rw [finished_of_waiting hw]
    dsimp only
    rw [hspend, waited_having]
  | none =>
    rw [finished_eq_followed hw, waited_of_not_waiting hw]
    dsimp only
    rw [hspend]
    set q := z.player.having (z.player.voice.map (Voice.next z.budget)) with hq
    have hlast {p : Player Rat} (hp : p.wait? = none) :
        (⟨e, p, [], c⟩ : Progress Rat (Recording Rat)).run fallback (turnBound e) =
          (⟨e, p, [], c⟩ : Progress Rat (Recording Rat)).finished :=
      run_of_last (turn_of_last (by simp [hp]) fallback) _
    have hfollowed : q.followed.wait? = none := by
      obtain h | ⟨ht, v, hv, ⟨r, hs⟩ | hs⟩ := q.followed_cases
      · rw [h]
        exact hw
      · rw [followed_of_fading ht hv hs]
        rfl
      · rw [followed_of_released ht hv hs]
        rfl
    have hfades : ∀ v ∈ q.voice, v.Fades true := by
      intro v hv
      obtain ⟨u, hu, rfl⟩ := Option.map_eq_some_iff.mp hv
      have hfade := hf u hu
      rw [hc.isHeld_of_not_waiting hw hu] at hfade
      exact hfade.next z.budget
    rw [hlast hfollowed, hlast (p := q) hw]
    exact congrArg outcome (finished_followed (x := ⟨e, q, [], c⟩) hw hfades)

theorem kin_handedOn : z.backend.Kin (z.handedOn loose e) :=
  (Recording.kin_tellEach ..).trans (Recording.kin_tellEach ..)

theorem handles_handedOn :
    (loose ++ z.fresh.map (Voice.next z.budget)).map Voice.handle =
      (loose ++ z.fresh).map Voice.handle := by
  rw [List.map_append, Voice.handles_next, ← List.map_append]

theorem channel_handedOn_of_not_mem {h : Handle}
    (hn : h ∉ (z.player.voice.toList ++ z.fresh ++ loose).map Voice.handle) :
    (z.handedOn loose e).channel h = z.backend.channel h := by
  rw [List.map_append, List.mem_append, not_or] at hn
  refine (Recording.channel_tellEach_of_not_mem fun hm => ?_).trans
    (Recording.channel_tellEach_of_not_mem hn.1)
  rw [handles_handedOn, List.map_append, List.mem_append] at hm
  exact hm.elim hn.2 fun hm => hn.1 (List.map_append ▸ List.mem_append_right _ hm)

variable (hd : ((z.player.voice.toList ++ z.fresh ++ loose).map Voice.handle).Nodup)
include hd

omit [Easing Rat] in
theorem nodup_own : ((z.player.voice.toList ++ z.fresh).map Voice.handle).Nodup := by
  rw [List.map_append] at hd
  exact (List.nodup_append.mp hd).1

omit [Easing Rat] in
theorem nodup_loose : ((loose ++ z.fresh).map Voice.handle).Nodup := by
  rw [List.append_assoc, List.map_append] at hd
  exact (List.perm_append_comm.map _).nodup_iff.mp (List.nodup_append.mp hd).2.1

omit [Easing Rat] in
theorem not_mem_loose {v : Voice Rat} (hv : v ∈ z.player.voice) :
    v.handle ∉ (loose ++ z.fresh).map Voice.handle := by
  rw [List.append_assoc, List.map_append] at hd
  intro hm
  refine (List.nodup_append.mp hd).2.2 _ (List.mem_map_of_mem (Option.mem_toList.mpr hv)) _ ?_ rfl
  exact (List.perm_append_comm.map _).mem_iff.mp hm

theorem strand_handedOn_of_held {v : Voice Rat} (hv : v ∈ z.player.voice) :
    (z.handedOn loose e).strand (v.next z.budget) = (z.backend.strand v).next z.budget := by
  have hmem : v ∈ z.player.voice.toList ++ z.fresh :=
    List.mem_append_left _ (Option.mem_toList.mpr hv)
  rw [← Recording.strand_tellEach (nodup_own hd) hmem]
  refine Recording.strand_congr (Recording.channel_tellEach_of_not_mem ?_)
  rw [Voice.next_handle, handles_handedOn]
  exact not_mem_loose hd hv

theorem channel_handedOn_of_loose {v : Voice Rat} (hv : v ∈ loose) :
    (z.handedOn loose e).channel v.handle =
      tellAll (z.backend.channel v.handle) v.handle (v.tells e) := by
  have hne : v.handle ∉ (z.player.voice.toList ++ z.fresh).map Voice.handle := fun hm => by
    rw [List.map_append] at hd
    exact (List.nodup_append.mp hd).2.2 _ hm _ (List.mem_map_of_mem hv) rfl
  rw [handedOn, Recording.channel_tellEach (handles_handedOn ▸ nodup_loose hd)
    (List.mem_append_left _ hv), Recording.channel_tellEach_of_not_mem hne]

theorem strand_handedOn_of_fresh {u : Voice Rat} (hu : u ∈ z.fresh) :
    (z.handedOn loose e).strand ((u.next z.budget).next e) =
      ((z.backend.strand u).next z.budget).next e := by
  rw [← Recording.strand_tellEach (nodup_own hd) (List.mem_append_right _ hu)]
  exact Recording.strand_tellEach (handles_handedOn ▸ nodup_loose hd)
    (List.mem_append_right _ (List.mem_map_of_mem hu)) e

end Player.Progress

/-! ### The cut -/

namespace Tended

variable {α : Type} {os : List (Instance α)} {vs : List (Voice α)} {r : Recording α}

theorem number_le (ht : Tended os vs r) {v : Voice α} (hv : v ∈ vs) :
    v.handle.number ≤ r.acquired := by
  obtain ⟨i, hi, -⟩ := ht.kept v hv
  exact ht.count ▸ hi.number_le

theorem isUnissued (ht : Tended os vs r) : r.Unissued := fun h hn =>
  ht.unissued h fun _ hi => absurd (ht.count ▸ hi.number_le) (Nat.not_le.mpr hn)

end Tended

section Cut

variable [Easing Rat] {os : List (Instance Rat)} {loose : List (Voice Rat)} {i : Instance Rat}
  {r₀ : Recording Rat} {z : Progress Rat (Recording Rat)} {e : Rat}

/-- At the cut the voice of the player is ahead of itself by the first part of the step. -/
theorem Unison.of_cut (hz : Upkeep os loose i r₀ (z.player.voice.toList ++ z.fresh) z.backend)
    (hb : 0 ≤ z.budget) (hcut : ∀ v ∈ z.player.voice, ∀ f ∈ v.pending,
      ¬ Nearly (f.delay - z.budget)) :
    Unison (Strand.Ahead z.budget) (!i.statement.isHeld)
      (fun h => h ∈ (loose ++ z.fresh).map Voice.handle) z.backend (z.handedOn loose e)
      z.atEnd.toList z.backend (z.handedOn loose e) := by
  have hd := hz.tended.distinct
  have hkin : z.backend.Kin (z.handedOn loose e) := Progress.kin_handedOn
  have hfades {v : Voice Rat} (hv : v ∈ z.player.voice) : v.Fades (!i.statement.isHeld) :=
    (hz.kept_of_mem (List.mem_append_left _ (Option.mem_toList.mpr hv))).fades
  have hnew {h : Handle} (hh : z.backend.acquired < h.number) :
      h ∉ (z.player.voice.toList ++ z.fresh ++ loose).map Voice.handle := by
    intro hm
    obtain ⟨v, hv, rfl⟩ := List.mem_map.mp hm
    exact Nat.not_le.mpr hh (hz.tended.number_le hv)
  exact
    { tables := hkin.tables
      acquired := hkin.acquired
      left := hz.tended.isUnissued
      right := hz.tended.isUnissued.of_kin hkin fun h hh =>
        Progress.channel_handedOn_of_not_mem (hnew hh)
      distinct := by
        have hown := Progress.nodup_own hd
        rw [List.map_append] at hown
        rw [Progress.handles_atEnd]
        exact (List.nodup_append.mp hown).1
      handle := fun x hx => by rw [(Progress.of_mem_atEnd hx).2, Voice.next_handle]
      issued := fun x hx => by
        have hv := Option.mem_toList.mpr (Progress.of_mem_atEnd hx).1
        exact hz.tended.number_le (List.mem_append_left _ (List.mem_append_left _ hv))
      present := fun x hx => Progress.not_mem_loose hd (Progress.of_mem_atEnd hx).1
      fades := fun x hx => hfades (Progress.of_mem_atEnd hx).1
      tied := fun x hx => by
        obtain ⟨hv, hnext⟩ := Progress.of_mem_atEnd hx
        rw [hnext, Progress.strand_handedOn_of_held hd hv]
        exact Strand.ahead_next (fun f hf => ((hfades hv).due f hf).1) hb (hcut _ hv)
      others := fun h ha hn => by
        rw [Progress.handles_atEnd] at hn
        rw [Progress.channel_handedOn_of_not_mem fun hm => ?_]
        rw [List.append_assoc, List.map_append, List.mem_append] at hm
        exact hm.elim hn fun hm => ha ((List.perm_append_comm.map _).mem_iff.mp hm)
      issuedAside := fun h hh => by
        obtain ⟨v, hv, rfl⟩ := List.mem_map.mp hh
        refine hz.tended.number_le ?_
        rw [List.append_assoc]
        exact List.mem_append_right _ (List.perm_append_comm.mem_iff.mp hv)
      keptLeft := fun _ _ => rfl
      keptRight := fun _ _ => rfl }

/-- The second part of a step begins as the whole step goes on. -/
theorem Behind.of_cut (hi : z.player.identity = i) (hc : z.player.Coherent)
    (hz : Upkeep os loose i r₀ (z.player.voice.toList ++ z.fresh) z.backend) (hb : 0 ≤ z.budget)
    (he : 0 ≤ e)
    (hcut : ∀ v ∈ z.player.voice.toList ++ z.fresh, ∀ f ∈ v.pending,
      ¬ Nearly (f.delay - z.budget)) :
    Behind i (fun h => h ∈ (loose ++ z.fresh).map Voice.handle) z.backend (z.handedOn loose e)
      ((z.fresh.map (Voice.next z.budget)).map (Voice.next e)) z.fresh z.player z.atEnd []
      z.budget e z.backend (z.handedOn loose e) := by
  have hd := hz.tended.distinct
  have hfades {u : Voice Rat} (hu : u ∈ z.fresh) : u.Fades (!i.statement.isHeld) :=
    (hz.kept_of_mem (List.mem_append_right _ hu)).fades
  have hunison : Unison (Strand.Ahead z.budget) (!i.statement.isHeld)
      (fun h => h ∈ (loose ++ z.fresh).map Voice.handle) z.backend (z.handedOn loose e)
      z.atEnd.toList z.backend (z.handedOn loose e) :=
    .of_cut hz hb fun v hv => hcut v (List.mem_append_left _ (Option.mem_toList.mpr hv))
  refine
    { identity := hi, coherent := ?_, unison := ?_, apart := fun u hu => ?_, apartRight := ?_,
      distinct := ?_, fades := fun u hu => hfades hu, arrived := ?_, left := fun _ _ _ => rfl,
      right := fun _ _ => rfl }
  · have hself : z.player.having (z.atEnd.map Prod.fst) = z.player := by
      simp [Progress.atEnd, Function.comp_def]
    rwa [hself]
  · rwa [List.append_nil]
  · exact List.mem_map_of_mem (List.mem_append_right _ hu)
  · intro w hw
    rw [List.map_map] at hw
    obtain ⟨u, hu, rfl⟩ := List.mem_map.mp hw
    rw [Function.comp_apply, Voice.next_handle, Voice.next_handle]
    exact List.mem_map_of_mem (List.mem_append_right _ hu)
  · have hloose := Progress.nodup_loose hd
    rw [List.map_append] at hloose
    exact (List.nodup_append.mp hloose).2.1
  · rw [List.map_map, List.forall₂_map_right_iff, List.forall₂_same]
    intro u hu
    rw [Function.comp_apply, Progress.strand_handedOn_of_fresh hd hu,
      Strand.next_next (fun f hf => ((hfades hu).due f hf).1) hb he
        (hcut u (List.mem_append_right _ hu))]

end Cut

end Soundscape
