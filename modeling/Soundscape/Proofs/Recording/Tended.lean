import Soundscape.Proofs.Player.Alone
import Soundscape.Proofs.Recording.Course

/-!
# A recording that nothing else uses

`Tended` ties a recording to the voices that use it, given who acquired each of its handles: every
voice is on course with a handle of its own, and every other handle was given back.  An operation
touches one handle and its voice (`Tended.replace`, `Tended.part`) or opens a voice on a new handle
(`Tended.opening`).
-/

namespace Soundscape

variable {α : Type}

/-- The recording after calls on one handle, all of them while it was live. -/
structure Touched (h : Handle) (r r' : Recording α) : Prop where
  kin : r.Kin r'
  others : ∀ k, k ≠ h → r'.channel k = r.channel k
  live : r'.liveHandles.Sublist r.liveHandles
  stale : r'.stale = r.stale

namespace Touched

variable {h : Handle} {r r' r'' : Recording α}

theorem refl (h : Handle) (r : Recording α) : Touched h r r :=
  ⟨.rfl, fun _ _ => rfl, List.Sublist.refl _, rfl⟩

theorem trans (h₁ : Touched h r r') (h₂ : Touched h r' r'') : Touched h r r'' :=
  ⟨h₁.kin.trans h₂.kin, fun k hk => (h₂.others k hk).trans (h₁.others k hk), h₂.live.trans h₁.live,
    h₂.stale.trans h₁.stale⟩

theorem tellAll (hl : (r.channel h).state.isSome) {qs : List (Cue α)}
    (hq : ∀ q ∈ qs.dropLast, q ≠ .release) : Touched h r (tellAll r h qs) :=
  ⟨r.kin_tellAll h qs, fun _ hk => r.channel_tellAll_of_ne hk qs,
    r.liveHandles_tellAll_sublist h qs, Recording.stale_tellAll hl hq⟩

theorem loadClip (hl : (r.channel h).state.isSome) (clip : String) :
    Touched h r (r.loadClip h clip).2 := by
  refine ⟨r.kin_loadClip h clip, fun k hk => ?_, ?_, ?_⟩
  · rw [r.channel_loadClip, if_neg hk]
  · unfold Recording.loadClip
    split
    · exact List.Sublist.refl _
    · exact (r.liveHandles_onLive h _ _) ▸ List.Sublist.refl _
  · unfold Recording.loadClip
    split
    · rfl
    · exact (r.onLive_stale h _ _).trans (if_pos ((r.holds_eq_channel h).trans hl))

end Touched

/-- The instance that acquired a handle, given the instance for each handle in turn. -/
def Owns (os : List (Instance α)) (h : Handle) (i : Instance α) : Prop :=
  ∃ n, h = .nth n ∧ os[n]? = some i

theorem Owns.unique {os : List (Instance α)} {h : Handle} {i j : Instance α} (hi : Owns os h i)
    (hj : Owns os h j) : i = j := by
  obtain ⟨n, rfl, hi⟩ := hi
  obtain ⟨m, hm, hj⟩ := hj
  rw [Handle.nth_inj.mp hm, hj] at hi
  exact (Option.some.inj hi).symm

theorem Owns.mem {os : List (Instance α)} {h : Handle} {i : Instance α} (hi : Owns os h i) :
    i ∈ os := by
  obtain ⟨n, -, hi⟩ := hi
  exact List.mem_of_getElem? hi

theorem Owns.append {os : List (Instance α)} {h : Handle} {i : Instance α} (hi : Owns os h i)
    (os' : List (Instance α)) : Owns (os ++ os') h i := by
  obtain ⟨n, rfl, hi⟩ := hi
  have hn := (List.getElem?_eq_some_iff.mp hi).1
  exact ⟨n, rfl, by rw [List.getElem?_append_left hn, hi]⟩

theorem Owns.concat {os : List (Instance α)} {h : Handle} {i j : Instance α}
    (hj : Owns (os ++ [i]) h j) : Owns os h j ∨ h = .nth os.length := by
  obtain ⟨n, rfl, hj⟩ := hj
  obtain hn | hn := Nat.lt_or_ge n os.length
  · exact .inl ⟨n, rfl, by rwa [List.getElem?_append_left hn] at hj⟩
  · have := (List.getElem?_eq_some_iff.mp hj).1
    simp only [List.length_append, List.length_singleton] at this
    exact .inr (congrArg _ (by omega))

theorem owns_last (os : List (Instance α)) (i : Instance α) :
    Owns (os ++ [i]) (.nth os.length) i :=
  ⟨os.length, rfl, by simp⟩

theorem not_owns_next {os : List (Instance α)} (i : Instance α) : ¬ Owns os (.nth os.length) i := by
  rintro ⟨n, hn, hi⟩
  rw [← Handle.nth_inj.mp hn] at hi
  simp at hi

/-- A recording that was used by no more than the voices of some instances. -/
structure Tended (os : List (Instance α)) (vs : List (Voice α)) (r : Recording α) : Prop where
  count : os.length = r.acquired
  unissued : ∀ h, (∀ i, ¬ Owns os h i) → r.channel h = .silent r.missing
  live : r.liveHandles.Nodup
  stale : r.stale = 0
  distinct : (vs.map Voice.handle).Nodup
  kept : ∀ v ∈ vs, ∃ i, Owns os v.handle i ∧ Kept i.statement v (r.channel v.handle)
  parted : ∀ h i, Owns os h i → h ∉ vs.map Voice.handle → Course i.statement .ended (r.channel h)

namespace Tended

variable {os : List (Instance α)} {vs ws : List (Voice α)} {v v' : Voice α} {r r' : Recording α}

theorem empty (len : α) (lens : List (String × α)) (missing : List String) :
    Tended [] [] (.empty len lens missing) where
  count := rfl
  unissued _ _ := rfl
  live := List.Pairwise.nil
  stale := rfl
  distinct := List.Pairwise.nil
  kept := by simp
  parted := by simp [Owns]

theorem perm (ht : Tended os vs r) (hp : vs.Perm ws) : Tended os ws r where
  count := ht.count
  unissued := ht.unissued
  live := ht.live
  stale := ht.stale
  distinct := (hp.map _).nodup_iff.mp ht.distinct
  kept v hv := ht.kept v (hp.mem_iff.mpr hv)
  parted h i hi hn := ht.parted h i hi fun hm => hn ((hp.map _).mem_iff.mp hm)

theorem handle_ne (ht : Tended os (v :: vs) r) {w : Voice α} (hw : w ∈ vs) :
    w.handle ≠ v.handle := by
  have hd := (List.nodup_cons.mp ht.distinct).1
  exact fun he => hd (he ▸ List.mem_map_of_mem hw)

theorem replace (ht : Tended os (v :: vs) r) (hr : Touched v.handle r r')
    (hh : v'.handle = v.handle)
    (hk : ∀ i, Owns os v.handle i → Kept i.statement v (r.channel v.handle) →
      Kept i.statement v' (r'.channel v.handle)) : Tended os (v' :: vs) r' where
  count := ht.count.trans hr.kin.acquired.symm
  unissued h hn := by
    obtain ⟨i, hi, -⟩ := ht.kept v List.mem_cons_self
    rw [hr.others h fun he => hn i (he ▸ hi), hr.kin.missing]
    exact ht.unissued h hn
  live := ht.live.sublist hr.live
  stale := hr.stale.trans ht.stale
  distinct := by simpa [hh] using ht.distinct
  kept w hw := by
    obtain rfl | hw := List.mem_cons.mp hw
    · obtain ⟨i, hi, hv⟩ := ht.kept v List.mem_cons_self
      exact ⟨i, hh ▸ hi, hh ▸ hk i hi hv⟩
    · rw [hr.others _ (ht.handle_ne hw)]
      exact ht.kept w (List.mem_cons_of_mem _ hw)
  parted h i hi hn := by
    simp only [List.map_cons, hh] at hn
    rw [hr.others h (List.ne_of_not_mem_cons hn)]
    exact ht.parted h i hi hn

theorem part (ht : Tended os (v :: vs) r) (hr : Touched v.handle r r')
    (hk : ∀ i, Owns os v.handle i → Kept i.statement v (r.channel v.handle) →
      Course i.statement .ended (r'.channel v.handle)) : Tended os vs r' where
  count := ht.count.trans hr.kin.acquired.symm
  unissued h hn := by
    obtain ⟨i, hi, -⟩ := ht.kept v List.mem_cons_self
    rw [hr.others h fun he => hn i (he ▸ hi), hr.kin.missing]
    exact ht.unissued h hn
  live := ht.live.sublist hr.live
  stale := hr.stale.trans ht.stale
  distinct := (List.nodup_cons.mp ht.distinct).2
  kept w hw := by
    rw [hr.others _ (ht.handle_ne hw)]
    exact ht.kept w (List.mem_cons_of_mem _ hw)
  parted h i hi hn := by
    by_cases hv : h = v.handle
    · subst hv
      obtain ⟨j, hj, hv⟩ := ht.kept v List.mem_cons_self
      exact hk i hi (hi.unique hj ▸ hv)
    · rw [hr.others h hv]
      exact ht.parted h i hi (by simpa [hv] using hn)

theorem nextHandle_eq (ht : Tended os vs r) : r.nextHandle = .nth os.length :=
  congrArg _ ht.count.symm

theorem not_owns_nextHandle (ht : Tended os vs r) (i : Instance α) : ¬ Owns os r.nextHandle i :=
  ht.nextHandle_eq ▸ not_owns_next i

theorem channel_opened (ht : Tended os vs r) (clip : String) (k : Handle) :
    (r.opened clip).channel k =
      if k = r.nextHandle then
        ⟨r.missing, some ⟨clip, none, none, false⟩, [.acquire clip]⟩
      else r.channel k :=
  Recording.channel_opened (ht.unissued _ ht.not_owns_nextHandle) clip k

theorem opening [Scalar α] [Easing α] (ht : Tended os vs r) (i : Instance α) (clip : String)
    (o : Player.Opening α) :
    Tended (os ++ [i]) (Player.opened r.nextHandle clip o :: vs)
      (tellAll (r.opened clip) r.nextHandle
        (Player.overture r.nextHandle clip o (i.statement.kind = .loop))) := by
  have hown : Owns (os ++ [i]) r.nextHandle i := ht.nextHandle_eq ▸ owns_last os i
  have hch := (ht.channel_opened clip r.nextHandle).trans (if_pos rfl)
  have htouch : Touched r.nextHandle (r.opened clip) (tellAll (r.opened clip) r.nextHandle
      (Player.overture r.nextHandle clip o (i.statement.kind = .loop))) :=
    .tellAll (by rw [hch]; rfl) (by rw [Player.overture_eq]; simp)
  have hother {k : Handle} (hk : k ≠ r.nextHandle) :
      (tellAll (r.opened clip) r.nextHandle
        (Player.overture r.nextHandle clip o (i.statement.kind = .loop))).channel k =
        r.channel k := by
    rw [htouch.others k hk, ht.channel_opened, if_neg hk]
  refine ⟨?_, fun k hk => ?_, ?_, ?_, ?_, fun v hv => ?_, fun k j hj hk => ?_⟩
  · rw [htouch.kin.acquired]
    simp [ht.count]
  · have hne : k ≠ r.nextHandle := fun he => hk i (he ▸ hown)
    rw [hother hne, htouch.kin.missing]
    exact ht.unissued k fun j hj => hk j (hj.append _)
  · refine List.Nodup.sublist htouch.live ?_
    rw [r.liveHandles_opened]
    refine List.nodup_append.mpr ⟨ht.live, by simp, ?_⟩
    rintro k hk _ hk' rfl
    obtain rfl := List.mem_singleton.mp hk'
    simp [Recording.mem_liveHandles, ht.unissued _ ht.not_owns_nextHandle, Channel.silent] at hk
  · exact htouch.stale.trans ht.stale
  · refine List.nodup_cons.mpr ⟨fun hm => ?_, ht.distinct⟩
    obtain ⟨v, hv, he⟩ := List.mem_map.mp hm
    obtain ⟨j, hj, -⟩ := ht.kept v hv
    exact ht.not_owns_nextHandle j (by simpa [he] using hj)
  · obtain rfl | hv := List.mem_cons.mp hv
    · refine ⟨i, by simpa using hown, ?_⟩
      rw [Player.opened_handle, Recording.channel_tellAll, hch]
      exact .opened r.missing clip _ _ o
    · obtain ⟨j, hj, hkept⟩ := ht.kept v hv
      rw [hother fun he => ht.not_owns_nextHandle j (he ▸ hj)]
      exact ⟨j, hj.append _, hkept⟩
  · simp only [List.map_cons, Player.opened_handle, List.mem_cons, not_or] at hk
    obtain hj | hj := hj.concat
    · rw [hother hk.1]
      exact ht.parted k j hj hk.2
    · exact absurd (hj.trans ht.nextHandle_eq.symm) hk.1

end Tended

end Soundscape
