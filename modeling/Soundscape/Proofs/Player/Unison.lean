import Soundscape.Proofs.Player.Abreast
import Soundscape.Proofs.Recording.Strand

/-!
# Players in unison

Two players are in unison when their voices differ in no more than the levels, and so do the
recordings that they play on.  `Unison` says so of the pairs of their voices; some handles may be
set aside, and what is known of these stays as it is.  No operation of a player breaks it
(`Unison.abreast`).
-/

namespace Soundscape

variable {α : Type}

/-- Pairs of voices on two recordings.  The strands of each pair are tied, no other handles differ
in more than levels, and those that are set aside are left alone. -/
structure Unison (T : Strand α → Strand α → Prop) (release : Bool) (aside : Handle → Prop)
    (b₀ c₀ : Recording α) (vs : List (Voice α × Voice α)) (b c : Recording α) : Prop where
  tables : c.tables = b.tables
  acquired : c.acquired = b.acquired
  left : b.Unissued
  right : c.Unissued
  distinct : (vs.map fun x => x.1.handle).Nodup
  handle : ∀ x ∈ vs, x.2.handle = x.1.handle
  issued : ∀ x ∈ vs, x.1.handle.number ≤ b.acquired
  present : ∀ x ∈ vs, ¬ aside x.1.handle
  fades : ∀ x ∈ vs, x.1.Fades release
  tied : ∀ x ∈ vs, T (b.strand x.1) (c.strand x.2)
  others : ∀ h, ¬ aside h → h ∉ vs.map (fun x => x.1.handle) →
    (b.channel h).sketch = (c.channel h).sketch
  issuedAside : ∀ h, aside h → h.number ≤ b.acquired
  keptLeft : ∀ h, aside h → b.channel h = b₀.channel h
  keptRight : ∀ h, aside h → c.channel h = c₀.channel h

namespace Unison

open Recording

variable {T : Strand α → Strand α → Prop} {release : Bool} {aside : Handle → Prop}
  {b₀ c₀ b b' c c' : Recording α} {vs ws : List (Voice α × Voice α)} {v v' w w' : Voice α}

theorem missing (h : Unison T release aside b₀ c₀ vs b c) : c.missing = b.missing :=
  congrArg (fun t => t.2.2) h.tables

theorem lengthOf (h : Unison T release aside b₀ c₀ vs b c) (clip : String) :
    c.lengthOf clip = b.lengthOf clip := by
  have hd : c.defaultLength = b.defaultLength := congrArg (fun t => t.1) h.tables
  have hl : c.lengths = b.lengths := congrArg (fun t => t.2.1) h.tables
  rw [Recording.lengthOf, hd, hl]
  rfl

theorem nextHandle (h : Unison T release aside b₀ c₀ vs b c) : c.nextHandle = b.nextHandle :=
  congrArg Handle.nth h.acquired

theorem perm (h : Unison T release aside b₀ c₀ vs b c) (hp : vs.Perm ws) :
    Unison T release aside b₀ c₀ ws b c :=
  { h with
    distinct := (hp.map _).nodup_iff.mp h.distinct
    handle := fun x hx => h.handle x (hp.mem_iff.mpr hx)
    issued := fun x hx => h.issued x (hp.mem_iff.mpr hx)
    present := fun x hx => h.present x (hp.mem_iff.mpr hx)
    fades := fun x hx => h.fades x (hp.mem_iff.mpr hx)
    tied := fun x hx => h.tied x (hp.mem_iff.mpr hx)
    others := fun k hk hn => h.others k hk fun hm => hn ((hp.map _).mem_iff.mp hm) }

theorem rebase (h : Unison T release aside b₀ c₀ vs b c) : Unison T release aside b c vs b c :=
  { h with
    keptLeft := fun _ _ => rfl
    keptRight := fun _ _ => rfl }

theorem part (h : Unison T release aside b₀ c₀ ((v, w) :: vs) b c) (hb : Told v.handle b b')
    (hc : Told v.handle c c')
    (hs : (b'.channel v.handle).sketch = (c'.channel v.handle).sketch) :
    Unison T release aside b₀ c₀ vs b' c' := by
  have hv : ∀ x ∈ vs, x.1.handle ≠ v.handle := fun x hx he =>
    (List.nodup_cons.mp h.distinct).1 (List.mem_map.mpr ⟨x, hx, he⟩)
  have hle : v.handle.number ≤ b.acquired := h.issued (v, w) List.mem_cons_self
  have haside {k : Handle} (hk : aside k) : k ≠ v.handle := fun he =>
    h.present (v, w) List.mem_cons_self (he ▸ hk)
  exact
    { tables := by rw [hc.kin.tables, hb.kin.tables, h.tables]
      acquired := by rw [hc.kin.acquired, hb.kin.acquired, h.acquired]
      left := h.left.of_kin hb.kin fun k hk => hb.others k fun he => by rw [he] at hk; omega
      right := h.right.of_kin hc.kin fun k hk => hc.others k fun he => by
        rw [he, h.acquired] at hk
        omega
      distinct := (List.nodup_cons.mp h.distinct).2
      handle := fun x hx => h.handle x (List.mem_cons_of_mem _ hx)
      issued := fun x hx => by
        rw [hb.kin.acquired]
        exact h.issued x (List.mem_cons_of_mem _ hx)
      present := fun x hx => h.present x (List.mem_cons_of_mem _ hx)
      fades := fun x hx => h.fades x (List.mem_cons_of_mem _ hx)
      tied := fun x hx => by
        have hne := hv x hx
        have hb' := hb.others _ hne
        have hc' := hc.others _ (h.handle x (List.mem_cons_of_mem _ hx) ▸ hne)
        unfold strand
        rw [hb', hc']
        exact h.tied x (List.mem_cons_of_mem _ hx)
      others := fun k hk hn => by
        by_cases he : k = v.handle
        · rwa [he]
        · rw [hb.others k he, hc.others k he]
          exact h.others k hk (by simpa [he] using hn)
      issuedAside := fun k hk => by
        rw [hb.kin.acquired]
        exact h.issuedAside k hk
      keptLeft := fun k hk => (hb.others k (haside hk)).trans (h.keptLeft k hk)
      keptRight := fun k hk => (hc.others k (haside hk)).trans (h.keptRight k hk) }

theorem join (h : Unison Eq release aside b₀ c₀ vs b c) (hv : ¬ aside v.handle)
    (hle : v.handle.number ≤ b.acquired) (hn : v.handle ∉ vs.map fun x => x.1.handle)
    (hf : v.Fades release) (hs : v.sketch = w.sketch) :
    Unison Eq release aside b₀ c₀ ((v, w) :: vs) b c := by
  have hw : w.handle = v.handle := (congrArg Sketch.handle hs).symm
  have ht : b.strand v = c.strand w := by
    unfold strand
    rw [hs, hw, h.others _ hv hn]
  exact
    { h with
      distinct := List.nodup_cons.mpr ⟨hn, h.distinct⟩
      handle := List.forall_mem_cons.mpr ⟨hw, h.handle⟩
      issued := List.forall_mem_cons.mpr ⟨hle, h.issued⟩
      present := List.forall_mem_cons.mpr ⟨hv, h.present⟩
      fades := List.forall_mem_cons.mpr ⟨hf, h.fades⟩
      tied := List.forall_mem_cons.mpr ⟨ht, h.tied⟩
      others := fun k hk hm => h.others k hk fun hm' => hm (List.mem_cons_of_mem _ hm') }

theorem replace (h : Unison Eq release aside b₀ c₀ ((v, w) :: vs) b c) (hb : Told v.handle b b')
    (hc : Told v.handle c c') (hv : v'.handle = v.handle) (hf : v'.Fades release)
    (hs : b'.strand v' = c'.strand w') :
    Unison Eq release aside b₀ c₀ ((v', w') :: vs) b' c' := by
  obtain ⟨hsketch, hch⟩ := Strand.mk.inj hs
  have hw : w'.handle = v'.handle := (congrArg Sketch.handle hsketch).symm
  rw [hw, hv] at hch
  refine (h.part hb hc hch).join ?_ ?_ ?_ hf hsketch <;> rw [hv]
  · exact h.present (v, w) List.mem_cons_self
  · rw [hb.kin.acquired]
    exact h.issued (v, w) List.mem_cons_self
  · exact (List.nodup_cons.mp h.distinct).1

theorem head (h : Unison Eq release aside b₀ c₀ ((v, w) :: vs) b c) :
    v.sketch = w.sketch ∧ w.handle = v.handle ∧
      (b.channel v.handle).sketch = (c.channel v.handle).sketch := by
  obtain ⟨hs, hch⟩ := Strand.mk.inj (h.tied (v, w) List.mem_cons_self)
  have hw : w.handle = v.handle := h.handle (v, w) List.mem_cons_self
  exact ⟨hs, hw, by rwa [hw] at hch⟩

theorem opened (h : Unison Eq release aside b₀ c₀ vs b c) (clip : String) (qs : List (Cue α)) :
    Unison Eq release aside b₀ c₀ vs (tellAll (b.opened clip) b.nextHandle qs)
      (tellAll (c.opened clip) b.nextHandle qs) := by
  have hb : Told b.nextHandle (b.opened clip) (tellAll (b.opened clip) b.nextHandle qs) :=
    .tellAll ..
  have hc : Told b.nextHandle (c.opened clip) (tellAll (c.opened clip) b.nextHandle qs) :=
    .tellAll ..
  have hold {k : Handle} (hk : k.number ≤ b.acquired) : k ≠ b.nextHandle := by
    rintro rfl
    exact Nat.not_succ_le_self _ hk
  have hnew {k : Handle} (hk : b.acquired + 1 < k.number) : k ≠ b.nextHandle := by
    rintro rfl
    exact Nat.lt_irrefl _ hk
  have hleft {k : Handle} (hk : k ≠ b.nextHandle) :
      (tellAll (b.opened clip) b.nextHandle qs).channel k = b.channel k := by
    rw [hb.others k hk, channel_opened h.left.nextHandle, if_neg hk]
  have hright {k : Handle} (hk : k ≠ b.nextHandle) :
      (tellAll (c.opened clip) b.nextHandle qs).channel k = c.channel k := by
    rw [hc.others k hk, channel_opened h.right.nextHandle, if_neg (h.nextHandle ▸ hk)]
  have hacq : (tellAll (b.opened clip) b.nextHandle qs).acquired = b.acquired + 1 :=
    hb.kin.acquired
  exact
    { h with
      tables := by rw [hc.kin.tables, hb.kin.tables]; exact h.tables
      acquired := by rw [hc.kin.acquired, hacq]; exact congrArg (· + 1) h.acquired
      left := (Mirrors.unissued_opened h.left clip).of_kin hb.kin fun k hk => hb.others k (hnew hk)
      right := (Mirrors.unissued_opened h.right clip).of_kin hc.kin fun k hk =>
        hc.others k (hnew (h.acquired ▸ hk))
      issued := fun x hx => by rw [hacq]; exact Nat.le_succ_of_le (h.issued x hx)
      tied := fun x hx => by
        have hne := hold (h.issued x hx)
        unfold strand
        rw [hleft hne, hright (h.handle x hx ▸ hne)]
        exact h.tied x hx
      others := fun k hk hn => by
        by_cases he : k = b.nextHandle
        · rw [he, channel_tellAll, channel_tellAll, channel_opened h.left.nextHandle,
            channel_opened h.right.nextHandle, if_pos rfl, if_pos h.nextHandle.symm, h.missing]
        · rw [hleft he, hright he]
          exact h.others k hk hn
      issuedAside := fun k hk => by rw [hacq]; exact Nat.le_succ_of_le (h.issuedAside k hk)
      keptLeft := fun k hk => (hleft (hold (h.issuedAside k hk))).trans (h.keptLeft k hk)
      keptRight := fun k hk => (hright (hold (h.issuedAside k hk))).trans (h.keptRight k hk) }

theorem move {T' : Strand α → Strand α → Prop} (h : Unison T release aside b₀ c₀ vs b c)
    {f g : Voice α → Voice α} (hb : b.Kin b') (hc : c.Kin c')
    (hbo : ∀ k, ¬ aside k → k ∉ vs.map (fun x => x.1.handle) → b'.channel k = b.channel k)
    (hco : ∀ k, k ∉ vs.map (fun x => x.1.handle) → c'.channel k = c.channel k)
    (hf : ∀ v, (f v).handle = v.handle) (hg : ∀ v, (g v).handle = v.handle)
    (hfades : ∀ v, v.Fades release → (f v).Fades release)
    (hT : ∀ x ∈ vs, T' (b'.strand (f x.1)) (c'.strand (g x.2))) :
    Unison T' release aside b' c' (vs.map (Prod.map f g)) b' c' := by
  have hhandles : (vs.map (Prod.map f g)).map (fun x => x.1.handle) =
      vs.map fun x => x.1.handle := by
    rw [List.map_map]
    exact List.map_congr_left fun x _ => hf x.1
  have hnew {k : Handle} (hk : b.acquired < k.number) :
      ¬ aside k ∧ k ∉ vs.map fun x => x.1.handle := by
    refine ⟨fun ha => Nat.not_le.mpr hk (h.issuedAside k ha), fun hm => ?_⟩
    obtain ⟨x, hx, rfl⟩ := List.mem_map.mp hm
    exact Nat.not_le.mpr hk (h.issued x hx)
  exact
    { tables := by rw [hc.tables, hb.tables, h.tables]
      acquired := by rw [hc.acquired, hb.acquired, h.acquired]
      left := h.left.of_kin hb fun k hk => hbo k (hnew hk).1 (hnew hk).2
      right := h.right.of_kin hc fun k hk => hco k (hnew (h.acquired ▸ hk)).2
      distinct := hhandles ▸ h.distinct
      handle := List.forall_mem_map.mpr fun x hx =>
        (hg x.2).trans ((h.handle x hx).trans (hf x.1).symm)
      issued := List.forall_mem_map.mpr fun x hx => by
        rw [hb.acquired]
        exact (hf x.1).symm ▸ h.issued x hx
      present := List.forall_mem_map.mpr fun x hx => (hf x.1).symm ▸ h.present x hx
      fades := List.forall_mem_map.mpr fun x hx => hfades x.1 (h.fades x hx)
      tied := List.forall_mem_map.mpr hT
      others := fun k hk hn => by
        rw [hhandles] at hn
        rw [hbo k hk hn, hco k hn]
        exact h.others k hk hn
      issuedAside := fun k hk => by
        rw [hb.acquired]
        exact h.issuedAside k hk
      keptLeft := fun _ _ => rfl
      keptRight := fun _ _ => rfl }

theorem lastWords_congr (h : v.state = w.state) : v.lastWords = w.lastWords := by
  cases hs : w.state with
  | playing =>
    have hv : v.state.isSounding := by rw [h, hs]; rfl
    have hw : w.state.isSounding := by rw [hs]; rfl
    rw [Voice.lastWords_of_isSounding hv, Voice.lastWords_of_isSounding hw]
  | fadingOut release =>
    have hv : v.state.isSounding := by rw [h, hs]; rfl
    have hw : w.state.isSounding := by rw [hs]; rfl
    rw [Voice.lastWords_of_isSounding hv, Voice.lastWords_of_isSounding hw]
  | stopped => rw [Voice.lastWords_of_stopped (h.trans hs), Voice.lastWords_of_stopped hs]
  | released =>
    have hv : v.isReleased := by simp [Voice.isReleased, h, hs]
    have hw : w.isReleased := by simp [Voice.isReleased, hs]
    rw [Voice.lastWords_of_isReleased hv, Voice.lastWords_of_isReleased hw]

theorem kill (h : Unison Eq release aside b₀ c₀ ((v, w) :: vs) b c) (hb : Told v.handle b b')
    (hc : Told v.handle c c') (hv : v'.handle = v.handle) (hw : w'.handle = v.handle)
    (hs : v'.state = w'.state)
    (hch : (b'.channel v.handle).sketch = (c'.channel v.handle).sketch) :
    Unison Eq release aside b₀ c₀ vs (v'.kill b').2 (w'.kill c').2 := by
  rw [Voice.kill_eq, Voice.kill_eq, hv, hw, lastWords_congr hs]
  refine h.part (hb.trans (.tellAll ..)) (hc.trans (.tellAll ..)) ?_
  rw [channel_tellAll, channel_tellAll, Channel.sketch_tellAll, Channel.sketch_tellAll, hch]

theorem loadClip (h : Unison Eq release aside b₀ c₀ ((v, w) :: vs) b c) (clip : String)
    (qs : List (Cue α)) :
    ((tellAll b v.handle qs).loadClip v.handle clip).1 =
        ((tellAll c v.handle qs).loadClip v.handle clip).1 ∧
      (((tellAll b v.handle qs).loadClip v.handle clip).2.channel v.handle).sketch =
        (((tellAll c v.handle qs).loadClip v.handle clip).2.channel v.handle).sketch := by
  obtain ⟨-, -, hch⟩ := h.head
  have hb := ((tellAll b v.handle qs).channel v.handle).sketch_loadClip v.handle clip
  have hc := ((tellAll c v.handle qs).channel v.handle).sketch_loadClip v.handle clip
  have hq : ((tellAll b v.handle qs).channel v.handle).sketch =
      ((tellAll c v.handle qs).channel v.handle).sketch := by
    rw [channel_tellAll, channel_tellAll, Channel.sketch_tellAll, Channel.sketch_tellAll, hch]
  rw [loadClip_fst, loadClip_fst, channel_loadClip, channel_loadClip, if_pos rfl, if_pos rfl, hb.1,
    hb.2, hc.1, hc.2, hq]
  exact ⟨rfl, rfl⟩

theorem handles_fst (vs : List (Voice α × Voice α)) :
    (vs.map Prod.fst).map Voice.handle = vs.map fun x => x.1.handle :=
  List.map_map

theorem handles_snd (h : Unison T release aside b₀ c₀ vs b c) :
    (vs.map Prod.snd).map Voice.handle = vs.map fun x => x.1.handle := by
  rw [List.map_map]
  exact List.map_congr_left h.handle

theorem not_mem_of_aside (h : Unison T release aside b₀ c₀ vs b c) {k : Handle} (hk : aside k) :
    k ∉ vs.map fun x => x.1.handle := by
  intro hm
  obtain ⟨x, hx, rfl⟩ := List.mem_map.mp hm
  exact h.present x hx hk

variable {us L : List (Voice α)}

theorem nodup_left (h : Unison T release aside b₀ c₀ vs b c) (hus : ∀ u ∈ us, aside u.handle)
    (hd : (us.map Voice.handle).Nodup) (hL : L.Perm (vs.map Prod.fst ++ us)) :
    (L.map Voice.handle).Nodup := by
  rw [(hL.map _).nodup_iff, List.map_append, handles_fst]
  refine List.nodup_append.mpr ⟨h.distinct, hd, fun k hk l hl => ?_⟩
  rintro rfl
  obtain ⟨u, hu, rfl⟩ := List.mem_map.mp hl
  exact h.not_mem_of_aside (hus u hu) hk

variable [Scalar α] [Easing α]

theorem restart (h : Unison Eq release aside b₀ c₀ ((v, w) :: vs) b c) (clip : String) (volume : α)
    (pitch : Option α) (fadeIn : α) :
    (∃ e f v' w' b' c', v.restart clip volume pitch fadeIn b = (.error e, v', b') ∧
      w.restart clip volume pitch fadeIn c = (.error f, w', c') ∧
      Unison Eq release aside b₀ c₀ vs (v'.kill b').2 (w'.kill c').2) ∨
    ∃ v' w' b' c', v.restart clip volume pitch fadeIn b = (.ok (), v', b') ∧
      w.restart clip volume pitch fadeIn c = (.ok (), w', c') ∧
      Unison Eq release aside b₀ c₀ ((v', w') :: vs) b' c' := by
  obtain ⟨hs, hw, hch⟩ := h.head
  have hstate : v.state = w.state := congrArg Sketch.state hs
  have hr : w.isReleased = v.isReleased := by rw [Voice.isReleased, ← hstate]; rfl
  have hush : w.hush = v.hush := by rw [Voice.hush, ← hstate]; rfl
  rw [Voice.restart_eq, Voice.restart_eq, hr, hush, hw]
  cases hv : v.isReleased with
  | true => exact .inl ⟨_, _, _, _, _, _, rfl, rfl, h.kill (.refl ..) (.refl ..) rfl hw hstate hch⟩
  | false =>
    obtain ⟨hfst, hload⟩ := h.loadClip clip v.hush
    have hb : Told v.handle b ((tellAll b v.handle v.hush).loadClip v.handle clip).2 :=
      (Told.tellAll ..).trans (.loadClip ..)
    have hc : Told v.handle c ((tellAll c v.handle v.hush).loadClip v.handle clip).2 :=
      (Told.tellAll ..).trans (.loadClip ..)
    simp only [Bool.false_eq_true, if_false, AudioBackend.loadClip]
    generalize (tellAll b v.handle v.hush).loadClip v.handle clip = x at hfst hload hb ⊢
    generalize (tellAll c v.handle v.hush).loadClip v.handle clip = y at hfst hload hc ⊢
    obtain ⟨e | ⟨⟩, b'⟩ := x <;> obtain ⟨f | ⟨⟩, c'⟩ := y
    · exact .inl ⟨_, _, _, _, _, _, rfl, rfl, h.kill hb hc rfl rfl hstate hload⟩
    · cases hfst
    · cases hfst
    · obtain ⟨hv₁, ht₁⟩ := (v.reloaded clip volume pitch fadeIn).step_sketch 0
      obtain ⟨hw₁, ht₂⟩ := (w.reloaded clip volume pitch fadeIn).step_sketch 0
      have hplay : ((v.reloaded clip volume pitch fadeIn).stepped 0).state = .playing :=
        Voice.stepped_state_of_playing rfl 0
      rw [Voice.sketch_reloaded] at hv₁ ht₁ hw₁ ht₂
      rw [← hs] at hw₁ ht₂
      refine .inr ⟨_, _, _, _, rfl, rfl, h.replace (hb.trans (.tellAll ..)) (hc.trans (.tellAll ..))
        (Voice.stepped_handle ..) (.of_playing hplay fun f hf => ?_) ?_⟩
      · rw [Voice.stepped_pending] at hf
        cases hf
      · have hv₂ : ((v.reloaded clip volume pitch fadeIn).stepped 0).handle = v.handle :=
          Voice.stepped_handle ..
        have hw₂ : ((w.reloaded clip volume pitch fadeIn).stepped 0).handle = v.handle :=
          (Voice.stepped_handle ..).trans hw
        unfold strand
        rw [hv₁, hw₁, hv₂, hw₂, channel_tellAll, channel_tellAll, Channel.sketch_tellAll,
          Channel.sketch_tellAll, Cue.lifecycle_append, Cue.lifecycle_append, ht₁, ht₂, hload]

theorem opening (h : Unison Eq release aside b₀ c₀ vs b c) (clip : String) (o : Player.Opening α)
    (looped : Bool) :
    Unison Eq release aside b₀ c₀
      ((Player.opened b.nextHandle clip o, Player.opened b.nextHandle clip o) :: vs)
      (tellAll (b.opened clip) b.nextHandle (Player.overture b.nextHandle clip o looped))
      (tellAll (c.opened clip) b.nextHandle (Player.overture b.nextHandle clip o looped)) := by
  have hh : (Player.opened b.nextHandle clip o).handle = b.nextHandle := Player.opened_handle ..
  have hnew : ¬ b.nextHandle.number ≤ b.acquired := Nat.not_succ_le_self _
  refine (h.opened clip _).join ?_ ?_ ?_ (.of_playing (Player.opened_state ..) ?_) rfl
  · rw [hh]
    exact fun ha => hnew (h.issuedAside _ ha)
  · rw [hh, (kin_tellAll ..).acquired]
    exact Nat.le_refl _
  · rw [hh]
    intro hm
    obtain ⟨x, hx, he⟩ := List.mem_map.mp hm
    exact hnew (he ▸ h.issued x hx)
  · intro f hf
    rw [Player.opened_pending] at hf
    cases hf

theorem abreast (s : Statement α) : Abreast s (Unison Eq (!s.isHeld) aside b₀ c₀) where
  perm hp h := h.perm hp
  state h := congrArg Sketch.state h.head.1
  movesPitch h := congrArg Sketch.movesPitch h.head.1
  clipLength {v w vs b c} h := by
    obtain ⟨-, hw, hch⟩ := h.head
    have hst : (b.live.find? v.handle).map HandleState.sketch =
        (c.live.find? v.handle).map HandleState.sketch := congrArg Channel.state hch
    have hclip (r : Recording α) : AudioBackend.clipLength r v.handle =
        ((r.live.find? v.handle).map HandleState.sketch).map fun s => r.lengthOf s.clip := by
      rw [Option.map_map]
      rfl
    rw [hw, hclip, hclip, hst]
    exact congrArg (Option.map · _) (funext fun s => (h.lengthOf s.clip).symm)
  advance {v w vs b c} dt h := by
    obtain ⟨hs, hw, hch⟩ := h.head
    refine h.replace (.tellAll ..) (hw ▸ .tellAll ..) (v.next_handle dt) ?_ ?_
    · exact (h.fades (v, w) List.mem_cons_self).next dt
    · have hb : (Voice.tellEach (Voice.tells dt) [v] b).strand (v.next dt) =
          (b.strand v).next dt := strand_tellEach (by simp) (by simp) dt
      have hc : (Voice.tellEach (Voice.tells dt) [w] c).strand (w.next dt) =
          (c.strand w).next dt := strand_tellEach (by simp) (by simp) dt
      rw [← h.tied (v, w) List.mem_cons_self] at hc
      exact hb.trans hc.symm
  drop {v w vs b c} hr h := h.part (.refl ..) (.refl ..) h.head.2.2
  fade {v w vs b c} delay length hs h := by
    obtain ⟨hsk, hw, hch⟩ := h.head
    have hpend (v : Voice α) : (v.scheduleFadeOut delay length !s.isHeld).sketch =
        { v.sketch with
          pending := some ⟨Scalar.larger delay 0, Scalar.larger length 0, !s.isHeld⟩ } := rfl
    refine h.replace (.refl ..) (.refl ..) rfl (.scheduleFadeOut hs delay length) ?_
    unfold strand
    rw [hpend, hpend, hsk]
    exact congrArg _ (hch.trans (congrArg (fun k => (c.channel k).sketch) hw.symm))
  opening {vs b c} clip o _ h := by
    have hb : AudioBackend.acquire b clip = b.acquire clip := rfl
    have hc : AudioBackend.acquire c clip = c.acquire clip := rfl
    rw [hb, hc, Recording.acquire_eq, Recording.acquire_eq, h.missing]
    by_cases hm : b.missing.contains clip = true
    · exact .inl ⟨_, _, b, c, if_pos hm, if_pos hm, h⟩
    · refine .inr ⟨_, _, _, _, if_neg hm, if_neg hm, ?_⟩
      rw [h.nextHandle]
      exact h.opening clip o _
  restart {v w vs b c clip} volume pitch fadeIn _ _ h := h.restart clip volume pitch fadeIn

/-- All voices take a step of time that ties their strands, and on the left so do some that are
set aside. -/
theorem spend (h : Unison T release aside b₀ c₀ vs b c) {d e : α}
    (hT : ∀ x ∈ vs, (b.strand x.1).next d = (c.strand x.2).next e) (hus : ∀ u ∈ us, aside u.handle)
    (hd : (us.map Voice.handle).Nodup) (hL : L.Perm (vs.map Prod.fst ++ us)) :
    Unison Eq release aside (Voice.tellEach (Voice.tells d) L b)
      (Voice.tellEach (Voice.tells e) (vs.map Prod.snd) c)
      (vs.map (Prod.map (Voice.next d) (Voice.next e)))
      (Voice.tellEach (Voice.tells d) L b)
      (Voice.tellEach (Voice.tells e) (vs.map Prod.snd) c) := by
  have hleft := h.nodup_left hus hd hL
  have hright : ((vs.map Prod.snd).map Voice.handle).Nodup := h.handles_snd ▸ h.distinct
  refine h.move (kin_tellEach ..) (kin_tellEach ..) (fun k hk hn => ?_) (fun k hn => ?_)
    (Voice.next_handle d) (Voice.next_handle e) (fun v hv => hv.next d) fun x hx => ?_
  · refine channel_tellEach_of_not_mem fun hm => ?_
    rw [(hL.map _).mem_iff, List.map_append, handles_fst] at hm
    obtain hm | hm := List.mem_append.mp hm
    · exact hn hm
    · obtain ⟨u, hu, rfl⟩ := List.mem_map.mp hm
      exact hk (hus u hu)
  · exact channel_tellEach_of_not_mem (h.handles_snd ▸ hn)
  · have hx₁ : x.1 ∈ L := hL.mem_iff.mpr (List.mem_append_left _ (List.mem_map_of_mem hx))
    have hx₂ : x.2 ∈ vs.map Prod.snd := List.mem_map_of_mem hx
    rw [strand_tellEach hleft hx₁, strand_tellEach hright hx₂]
    exact hT x hx

end Unison

end Soundscape
