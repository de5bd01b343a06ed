import Soundscape.Proofs.Recording.Tended

/-!
# The part of a recording that one instance uses

A recording that several instances share holds a smaller one for each of them: the calls on its own
handles, numbered anew in the order in which it acquired them.  `Mirrors` ties the two together.  A
call on a handle of the instance is made on both (`Mirrors.tellAll_own`, `Mirrors.loadClip_own`,
`Mirrors.opening_own`); a call on any other handle is seen by the shared recording alone
(`Mirrors.tellAll_other`, `Mirrors.loadClip_other`, `Mirrors.opening_other`).
-/

namespace Soundscape

variable {α : Type}

/-! ### Whose handle it is -/

/-- Whether an instance acquired a handle, given the instance for each handle in turn. -/
def belongs (id : Nat) (os : List (Instance α)) (h : Handle) : Bool :=
  match h.number with
  | 0 => false
  | n + 1 => os[n]?.any fun i => i.id == id

/-- The handle that stands for a handle of an instance when its own handles alone are counted. -/
def renamed (id : Nat) (os : List (Instance α)) (h : Handle) : Handle :=
  .nth ((os.take (h.number - 1)).countP fun i => i.id == id)

section Names

variable {id : Nat} {os os' : List (Instance α)} {h k : Handle} {i : Instance α}

theorem belongs_iff : belongs id os h ↔ ∃ i, Owns os h i ∧ i.id = id := by
  obtain ⟨n⟩ := h
  cases n with
  | zero => simp [belongs, Owns, Handle.nth]
  | succ n =>
    simp only [belongs, Option.any_eq_true, beq_iff_eq, Owns, Handle.nth]
    constructor
    · rintro ⟨i, hi, he⟩
      exact ⟨i, ⟨n, rfl, hi⟩, he⟩
    · rintro ⟨i, ⟨m, hm, hi⟩, he⟩
      obtain rfl : n = m := by simpa using hm
      exact ⟨i, hi, he⟩

theorem Owns.belongs_eq (hi : Owns os h i) : belongs id os h = (i.id == id) := by
  obtain ⟨n, rfl, hi⟩ := hi
  show os[n]?.any _ = _
  rw [hi]
  rfl

theorem Owns.number_le (hi : Owns os h i) : h.number ≤ os.length := by
  obtain ⟨n, rfl, hi⟩ := hi
  exact (List.getElem?_eq_some_iff.mp hi).1

theorem belongs_append (hn : h.number ≤ os.length) (os' : List (Instance α)) :
    belongs id (os ++ os') h = belongs id os h := by
  obtain ⟨n⟩ := h
  cases n with
  | zero => rfl
  | succ n =>
    have hn : n < os.length := hn
    show (os ++ os')[n]?.any _ = os[n]?.any _
    rw [List.getElem?_append_left hn]

theorem renamed_append (hn : h.number ≤ os.length + 1) (os' : List (Instance α)) :
    renamed id (os ++ os') h = renamed id os h := by
  unfold renamed
  rw [List.take_append_of_le_length (by omega)]

theorem belongs_append_others (ho : ∀ j ∈ os', j.id ≠ id) :
    belongs id (os ++ os') h = belongs id os h := by
  rcases Nat.lt_or_ge os.length h.number with hn | hn
  · rw [Bool.eq_iff_iff, belongs_iff, belongs_iff]
    constructor
    · rintro ⟨i, ⟨n, rfl, hi⟩, he⟩
      have hle : os.length ≤ n := Nat.le_of_lt_succ hn
      rw [List.getElem?_append_right hle] at hi
      exact absurd he (ho i (List.mem_of_getElem? hi))
    · rintro ⟨i, hi, -⟩
      have := hi.number_le
      omega
  · exact belongs_append hn os'

theorem renamed_append_others (ho : ∀ j ∈ os', j.id ≠ id) :
    renamed id (os ++ os') h = renamed id os h := by
  have hz (n : Nat) : (os'.take n).countP (fun i => i.id == id) = 0 := by
    rw [List.countP_eq_zero]
    exact fun j hj => by simpa using ho j (List.mem_of_mem_take hj)
  unfold renamed
  rw [List.take_append, List.countP_append, hz, Nat.add_zero]

theorem belongs_of_others (ho : ∀ j ∈ os, j.id ≠ id) (h : Handle) : belongs id os h = false := by
  rw [Bool.eq_false_iff, Ne, belongs_iff]
  rintro ⟨i, ⟨n, -, hn⟩, he⟩
  exact ho i (List.mem_of_getElem? hn) he

theorem number_renamed_lt (hi : Owns os h i) (hlt : h.number < k.number) :
    (renamed i.id os h).number < (renamed i.id os k).number := by
  obtain ⟨m, rfl, hm⟩ := hi
  have hmk : m + 1 ≤ k.number - 1 := Nat.le_pred_of_lt hlt
  have hle : (os.take (m + 1)).countP (fun j => j.id == i.id) ≤
      (os.take (k.number - 1)).countP fun j => j.id == i.id :=
    (List.take_sublist_take_left hmk).countP_le
  rw [List.take_add_one, List.countP_append, hm] at hle
  have hone : (some i).toList.countP (fun j => j.id == i.id) = 1 := by simp
  rw [hone] at hle
  exact Nat.succ_le_succ hle

theorem renamed_inj (hh : belongs id os h) (hk : belongs id os k)
    (he : renamed id os h = renamed id os k) : h = k := by
  obtain ⟨i, hi, rfl⟩ := belongs_iff.mp hh
  obtain ⟨j, hj, hji⟩ := belongs_iff.mp hk
  rcases Nat.lt_trichotomy h.number k.number with hlt | heq | hgt
  · have := number_renamed_lt hi hlt
    rw [he] at this
    exact absurd this (Nat.lt_irrefl _)
  · obtain ⟨n⟩ := h
    obtain ⟨m⟩ := k
    exact congrArg Handle.mk heq
  · have := number_renamed_lt hj hgt
    rw [hji, he] at this
    exact absurd this (Nat.lt_irrefl _)

theorem number_renamed_le (hi : Owns os h i) :
    (renamed i.id os h).number ≤ os.countP fun j => j.id == i.id := by
  obtain ⟨m, rfl, hm⟩ := hi
  have hle : (os.take (m + 1)).countP (fun j => j.id == i.id) ≤ os.countP fun j => j.id == i.id :=
    (List.take_sublist _ _).countP_le
  rw [List.take_add_one, List.countP_append, hm] at hle
  simpa [renamed, Handle.nth] using hle

theorem renamed_last (id : Nat) (os : List (Instance α)) :
    renamed id os (.nth os.length) = .nth (os.countP fun i => i.id == id) := by
  show Handle.nth ((os.take os.length).countP _) = _
  rw [List.take_length]

end Names

/-! ### Calls on one handle -/

def Call.rename (f : Handle → Handle) : Call α → Call α
  | .acquire h clip => .acquire (f h) clip
  | .loadClip h clip => .loadClip (f h) clip
  | .setVolume h v => .setVolume (f h) v
  | .setPitch h v => .setPitch (f h) v
  | .play h looped => .play (f h) looped
  | .stop h => .stop (f h)
  | .release h => .release (f h)
  | .place h p => .place (f h) p

theorem Call.rename_congr {f g : Handle → Handle} {c : Call α} (h : f c.handle = g c.handle) :
    c.rename f = c.rename g := by
  cases c <;> simp_all [rename, handle]

/-- The call by which a handle is told something. -/
def Cue.call (h : Handle) : Cue α → Call α
  | .setVolume v => .setVolume h v
  | .setPitch v => .setPitch h v
  | .play looped => .play h looped
  | .stop => .stop h
  | .release => .release h
  | .place p => .place h p

@[simp] theorem Cue.handle_call (h : Handle) (q : Cue α) : (q.call h).handle = h := by
  cases q <;> rfl

@[simp] theorem Cue.rename_call (f : Handle → Handle) (h : Handle) (q : Cue α) :
    (q.call h).rename f = q.call (f h) := by
  cases q <;> rfl

namespace Recording

/-- No handle after the last that was acquired has ever been used. -/
def Unissued (r : Recording α) : Prop :=
  ∀ h : Handle, r.acquired < h.number → r.channel h = .silent r.missing

theorem Unissued.nextHandle {r : Recording α} (h : r.Unissued) :
    r.channel r.nextHandle = .silent r.missing :=
  h _ (Nat.lt_succ_self _)

theorem Unissued.number_le {r : Recording α} (h : r.Unissued) {c : Call α}
    (hc : c ∈ r.calls.toList) : c.handle.number ≤ r.acquired := by
  rcases Nat.lt_or_ge r.acquired c.handle.number with hn | hn
  · have hd := congrArg Channel.deeds (h c.handle hn)
    have hm : c.deed ∈ (r.channel c.handle).deeds :=
      List.mem_map_of_mem (List.mem_filter.mpr ⟨hc, by simp⟩)
    rw [hd] at hm
    cases hm
  · exact hn

/-- The recording after some calls on one handle. -/
structure Called (h : Handle) (cs : List (Call α)) (r r' : Recording α) : Prop where
  kin : r.Kin r'
  others : ∀ k, k ≠ h → r'.channel k = r.channel k
  calls : r'.calls.toList = r.calls.toList ++ cs
  handle : ∀ c ∈ cs, c.handle = h

/-- The calls on a handle, if it is live. -/
def ifLive (r : Recording α) (h : Handle) (cs : List (Call α)) : List (Call α) :=
  if (r.channel h).state.isSome then cs else []

theorem calls_onLive (r : Recording α) (h : Handle) (call : Call α)
    (change : HandleState α → HandleState α) :
    (r.onLive h call change).calls.toList = r.calls.toList ++ r.ifLive h [call] := by
  rw [r.onLive_calls, ifLive, ← holds_eq_channel]
  cases r.live.holds h <;> simp

theorem called_tell (r : Recording α) (h : Handle) (q : Cue α) :
    Called h (r.ifLive h [q.call h]) r (tell r h q) where
  kin := r.kin_tell h q
  others k hk := by rw [channel_tell, if_neg hk]
  calls := by
    cases q with
    | release =>
      show (r.release h).calls.toList = _
      rw [release, ifLive, ← holds_eq_channel]
      cases r.live.holds h <;> simp [Cue.call]
    | _ => exact r.calls_onLive h _ _
  handle c hc := by
    unfold ifLive at hc
    split at hc
    · obtain rfl := List.mem_singleton.mp hc
      exact q.handle_call h
    · cases hc

theorem called_loadClip {r : Recording α} {clip : String} (hm : r.missing.contains clip = false)
    (h : Handle) :
    Called h (r.ifLive h [.loadClip h clip]) r (r.loadClip h clip).2 where
  kin := r.kin_loadClip h clip
  others k hk := by rw [channel_loadClip, if_neg hk]
  calls := by
    have he : (r.loadClip h clip).2 =
        r.onLive h (.loadClip h clip) fun s => { s with clip, playing := false } := by
      simp only [loadClip, hm]
      rfl
    rw [he, calls_onLive]
  handle c hc := by
    unfold ifLive at hc
    split at hc
    · obtain rfl := List.mem_singleton.mp hc
      rfl
    · cases hc

end Recording

theorem Channel.isOk_loadClip (c : Channel α) (h k : Handle) (clip : String) :
    (c.loadClip h clip).1.isOk = (c.loadClip k clip).1.isOk := by
  obtain ⟨missing, state, deeds⟩ := c
  unfold loadClip
  split
  · rfl
  · cases state <;> rfl

/-! ### The mirror -/

/-- What one instance did on a recording `b` that it shares is all that was done on a recording
`c`. -/
structure Mirrors (id : Nat) (os : List (Instance α)) (b c : Recording α) : Prop where
  tables : c.tables = b.tables
  count : b.acquired = os.length
  own : c.acquired = os.countP fun i => i.id == id
  shared : b.Unissued
  alone : c.Unissued
  channel : ∀ h, belongs id os h → b.channel h = c.channel (renamed id os h)
  calls : (b.calls.toList.filter fun x => belongs id os x.handle).map
    (Call.rename (renamed id os)) = c.calls.toList

namespace Mirrors

open Recording

variable {id : Nat} {os os' : List (Instance α)} {b b' c c' : Recording α} {h : Handle}
  {i j : Instance α} {cs ds : List (Call α)}

theorem missing (hm : Mirrors id os b c) : c.missing = b.missing :=
  congrArg (fun t => t.2.2) hm.tables

theorem lengthOf (hm : Mirrors id os b c) (clip : String) : c.lengthOf clip = b.lengthOf clip := by
  have hd : c.defaultLength = b.defaultLength := congrArg (fun t => t.1) hm.tables
  have hl : c.lengths = b.lengths := congrArg (fun t => t.2.1) hm.tables
  rw [Recording.lengthOf, hd, hl]
  rfl

theorem unissued_called {r r' : Recording α} (hu : r.Unissued) (hr : Called h cs r r')
    (hn : h.number ≤ r.acquired) : r'.Unissued := by
  intro k hk
  rw [hr.kin.acquired] at hk
  rw [hr.others k (fun he => by rw [he] at hk; omega), hr.kin.missing]
  exact hu k hk

theorem called_other (hm : Mirrors id os b c) (hj : Owns os h j) (hne : j.id ≠ id)
    (hb : Called h cs b b') : Mirrors id os b' c where
  tables := hm.tables.trans hb.kin.tables.symm
  count := hb.kin.acquired.trans hm.count
  own := hm.own
  shared := unissued_called hm.shared hb (hm.count ▸ hj.number_le)
  alone := hm.alone
  channel k hk := by
    have hkh : k ≠ h := by
      rintro rfl
      rw [hj.belongs_eq] at hk
      exact hne (by simpa using hk)
    rw [hb.others k hkh]
    exact hm.channel k hk
  calls := by
    have hcs : cs.filter (fun x => belongs id os x.handle) = [] := by
      rw [List.filter_eq_nil_iff]
      intro x hx
      rw [hb.handle x hx, hj.belongs_eq]
      simpa using hne
    rw [hb.calls, List.filter_append, hcs, List.append_nil]
    exact hm.calls

theorem called_own (hm : Mirrors i.id os b c) (hi : Owns os h i) (hb : Called h cs b b')
    (hc : Called (renamed i.id os h) ds c c') (hds : ds = cs.map (Call.rename (renamed i.id os)))
    (hch : b'.channel h = c'.channel (renamed i.id os h)) : Mirrors i.id os b' c' where
  tables := by rw [hc.kin.tables, hb.kin.tables, hm.tables]
  count := hb.kin.acquired.trans hm.count
  own := hc.kin.acquired.trans hm.own
  shared := unissued_called hm.shared hb (hm.count ▸ hi.number_le)
  alone := unissued_called hm.alone hc (hm.own ▸ number_renamed_le hi)
  channel k hk := by
    by_cases hkh : k = h
    · rw [hkh]
      exact hch
    · have hne : renamed i.id os k ≠ renamed i.id os h :=
        fun he => hkh (renamed_inj hk (belongs_iff.mpr ⟨i, hi, rfl⟩) he)
      rw [hb.others k hkh, hc.others _ hne]
      exact hm.channel k hk
  calls := by
    have hcs : cs.filter (fun x => belongs i.id os x.handle) = cs := by
      rw [List.filter_eq_self]
      intro x hx
      rw [hb.handle x hx, hi.belongs_eq]
      exact beq_self_eq_true _
    rw [hb.calls, List.filter_append, hcs, List.map_append, hm.calls, hc.calls, hds]

theorem tell_other (hm : Mirrors id os b c) (hj : Owns os h j) (hne : j.id ≠ id) (q : Cue α) :
    Mirrors id os (tell b h q) c :=
  hm.called_other hj hne (b.called_tell h q)

theorem tellAll_other (hm : Mirrors id os b c) (hj : Owns os h j) (hne : j.id ≠ id)
    (qs : List (Cue α)) : Mirrors id os (tellAll b h qs) c := by
  induction qs generalizing b with
  | nil => exact hm
  | cons q qs ih => exact ih (hm.tell_other hj hne q)

theorem ifLive_renamed (hm : Mirrors i.id os b c) (hi : Owns os h i) (cs : List (Call α)) :
    c.ifLive (renamed i.id os h) (cs.map (Call.rename (renamed i.id os))) =
      (b.ifLive h cs).map (Call.rename (renamed i.id os)) := by
  unfold ifLive
  rw [← hm.channel h (belongs_iff.mpr ⟨i, hi, rfl⟩)]
  split <;> rfl

theorem tell_own (hm : Mirrors i.id os b c) (hi : Owns os h i) (q : Cue α) :
    Mirrors i.id os (tell b h q) (tell c (renamed i.id os h) q) := by
  have hcalls := hm.ifLive_renamed hi [q.call h]
  simp only [List.map_cons, List.map_nil, Cue.rename_call] at hcalls
  refine hm.called_own hi (b.called_tell h q) (c.called_tell _ q) hcalls ?_
  rw [channel_tell, channel_tell, if_pos rfl, if_pos rfl,
    hm.channel h (belongs_iff.mpr ⟨i, hi, rfl⟩)]
  cases q <;> rfl

theorem tellAll_own (hm : Mirrors i.id os b c) (hi : Owns os h i) (qs : List (Cue α)) :
    Mirrors i.id os (tellAll b h qs) (tellAll c (renamed i.id os h) qs) := by
  induction qs generalizing b c with
  | nil => exact hm
  | cons q qs ih => exact ih (hm.tell_own hi q)

theorem loadClip_other (hm : Mirrors id os b c) (hj : Owns os h j) (hne : j.id ≠ id)
    (clip : String) : Mirrors id os (b.loadClip h clip).2 c := by
  cases hc : b.missing.contains clip with
  | true =>
    rw [show (b.loadClip h clip).2 = b by simp only [loadClip, hc, if_true]]
    exact hm
  | false => exact hm.called_other hj hne (called_loadClip hc h)

/-- Another clip is had on both recordings or on neither. -/
theorem loadClip_own (hm : Mirrors i.id os b c) (hi : Owns os h i) (clip : String) :
    (b.loadClip h clip).1.isOk = (c.loadClip (renamed i.id os h) clip).1.isOk ∧
      Mirrors i.id os (b.loadClip h clip).2 (c.loadClip (renamed i.id os h) clip).2 := by
  have hch := hm.channel h (belongs_iff.mpr ⟨i, hi, rfl⟩)
  refine ⟨?_, ?_⟩
  · rw [loadClip_fst, loadClip_fst, hch]
    exact Channel.isOk_loadClip ..
  · cases hc : b.missing.contains clip with
    | true =>
      have hc' : c.missing.contains clip = true := hm.missing ▸ hc
      simp only [loadClip, hc, hc', if_true]
      exact hm
    | false =>
      have hc' : c.missing.contains clip = false := hm.missing ▸ hc
      have hcalls := hm.ifLive_renamed hi [.loadClip h clip]
      refine hm.called_own hi (called_loadClip hc h) (called_loadClip hc' _) hcalls ?_
      rw [channel_loadClip, channel_loadClip, if_pos rfl, if_pos rfl, hch]
      simp only [Channel.loadClip, channel_missing, hc']
      rfl

/-! ### New handles -/

theorem unissued_opened {r : Recording α} (hu : r.Unissued) (clip : String) :
    (r.opened clip).Unissued := by
  intro k hk
  have hk' : r.acquired + 1 < k.number := hk
  have hne : k ≠ r.nextHandle := by
    rintro rfl
    exact Nat.lt_irrefl _ hk'
  rw [channel_opened hu.nextHandle, if_neg hne]
  exact hu k (by omega)

theorem nextHandle_eq (hm : Mirrors id os b c) : b.nextHandle = .nth os.length :=
  congrArg _ hm.count

theorem opening_other (hm : Mirrors id os b c) (hne : j.id ≠ id) (clip : String) :
    Mirrors id (os ++ [j]) (b.opened clip) c := by
  have ho : ∀ k ∈ [j], k.id ≠ id := by simpa using hne
  have hbel (k : Handle) : belongs id (os ++ [j]) k = belongs id os k := belongs_append_others ho
  have hren : renamed id (os ++ [j]) = renamed id os := funext fun k => renamed_append_others ho
  have hnew : belongs id os b.nextHandle = false := by
    rw [← hbel, hm.nextHandle_eq, (owns_last os j).belongs_eq]
    simpa using hne
  refine ⟨hm.tables, ?_, ?_, unissued_opened hm.shared clip, hm.alone, fun k hk => ?_, ?_⟩
  · rw [List.length_append, ← hm.count]
    rfl
  · rw [List.countP_append, ← hm.own]
    simp [hne]
  · rw [hbel] at hk
    have hkn : k ≠ b.nextHandle := by
      rintro rfl
      simp [hnew] at hk
    rw [channel_opened hm.shared.nextHandle, if_neg hkn, hren]
    exact hm.channel k hk
  · have hcalls : (b.opened clip).calls.toList = b.calls.toList ++ [.acquire b.nextHandle clip] :=
      Array.toList_push
    simp only [hbel, hren, hcalls]
    rw [List.filter_append, List.map_append, hm.calls]
    simp [Call.handle, hnew]

theorem opening_own (hm : Mirrors i.id os b c) (clip : String) :
    renamed i.id (os ++ [i]) b.nextHandle = c.nextHandle ∧
      Mirrors i.id (os ++ [i]) (b.opened clip) (c.opened clip) := by
  have hn : b.nextHandle.number = os.length + 1 := congrArg (· + 1) hm.count
  have hnew : renamed i.id (os ++ [i]) b.nextHandle = c.nextHandle := by
    rw [renamed_append (Nat.le_of_eq hn), hm.nextHandle_eq, renamed_last]
    exact congrArg _ hm.own.symm
  have hbelongs : belongs i.id (os ++ [i]) b.nextHandle := by
    rw [hm.nextHandle_eq]
    exact belongs_iff.mpr ⟨i, owns_last os i, rfl⟩
  refine ⟨hnew, hm.tables, ?_, ?_, unissued_opened hm.shared clip, unissued_opened hm.alone clip,
    fun k hk => ?_, ?_⟩
  · rw [List.length_append, ← hm.count]
    rfl
  · rw [List.countP_append, ← hm.own]
    simp
  · rw [channel_opened hm.shared.nextHandle, channel_opened hm.alone.nextHandle]
    by_cases hkn : k = b.nextHandle
    · rw [hkn, hnew, if_pos rfl, if_pos rfl, hm.missing]
    · have hne : renamed i.id (os ++ [i]) k ≠ c.nextHandle :=
        fun he => hkn (renamed_inj hk hbelongs (he.trans hnew.symm))
      have hle : k.number ≤ os.length := by
        obtain ⟨j, hj, -⟩ := belongs_iff.mp hk
        obtain hj | hj := hj.concat
        · exact hj.number_le
        · exact absurd (hj.trans hm.nextHandle_eq.symm) hkn
      rw [if_neg hkn, if_neg hne, renamed_append (Nat.le_succ_of_le hle)]
      exact hm.channel k (belongs_append hle _ ▸ hk)
  · have hb : (b.opened clip).calls.toList = b.calls.toList ++ [.acquire b.nextHandle clip] :=
      Array.toList_push
    have hc : (c.opened clip).calls.toList = c.calls.toList ++ [.acquire c.nextHandle clip] :=
      Array.toList_push
    have hle {x : Call α} (hx : x ∈ b.calls.toList) : x.handle.number ≤ os.length :=
      hm.count ▸ hm.shared.number_le hx
    have hold : (b.calls.toList.filter fun x => belongs i.id (os ++ [i]) x.handle).map
        (Call.rename (renamed i.id (os ++ [i]))) = c.calls.toList := by
      rw [← hm.calls, List.filter_congr fun x hx => belongs_append (hle hx) [i]]
      exact List.map_congr_left fun x hx => Call.rename_congr
        (renamed_append (Nat.le_succ_of_le (hle (List.mem_filter.mp hx).1)) [i])
    rw [hb, hc, List.filter_append, List.map_append, hold]
    simp [Call.handle, hbelongs, Call.rename, hnew]

end Mirrors

end Soundscape
