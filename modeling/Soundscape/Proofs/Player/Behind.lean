import Soundscape.Proofs.Player.Cut
import Soundscape.Proofs.Player.Unison

/-!
# A step and its second part

After the cut a whole step and its second part are run side by side.  The second part is as far
ahead as the whole step has still to wait for the cut, and the voices let go before the cut have
already come to the end there (`Behind`).  A firing keeps this (`Behind.fired`), so at the end both
have come to the same (`Behind.run`).
-/

namespace Soundscape

namespace Strand

/-- One strand comes to the other in some time, whatever time passes after that. -/
def Ahead (d : Rat) (s t : Strand Rat) : Prop := ∀ e ≥ 0, s.next (d + e) = t.next e

variable {s t : Strand Rat} {d e : Rat}

theorem next_next (hs : ∀ f, s.voice.pending = some f → s.voice.state = .playing) (hd : 0 ≤ d)
    (he : 0 ≤ e) (hc : ∀ f, s.voice.pending = some f → ¬ Nearly (f.delay - d)) :
    (s.next d).next e = s.next (d + e) := by
  obtain ⟨hn, ht⟩ := Sketch.next_next hs hd he hc
  unfold next
  dsimp only
  rw [hn, ← ht, tellAll_append, Sketch.next_handle]

theorem next_zero (hs : ∀ f, s.voice.pending = some f → s.voice.state = .playing) (hd : 0 ≤ d) :
    (s.next d).next 0 = s.next d := by
  obtain ⟨hn, ht⟩ := Sketch.next_zero hs hd
  unfold next
  dsimp only
  rw [hn, Sketch.next_handle, ← tellAll_append, ht]

theorem next_handle (d : Rat) (s : Strand Rat) : (s.next d).voice.handle = s.voice.handle :=
  s.voice.next_handle d

theorem ahead_next (hs : ∀ f, s.voice.pending = some f → s.voice.state = .playing) (hd : 0 ≤ d)
    (hc : ∀ f, s.voice.pending = some f → ¬ Nearly (f.delay - d)) : Ahead d s (s.next d) :=
  fun _ he => (next_next hs hd he hc).symm

theorem ahead_zero (h : s = t) : Ahead 0 s t := fun e _ => by rw [h, zero_add]

end Strand

theorem Unison.mono {α : Type} {T T' : Strand α → Strand α → Prop} {release : Bool}
    {aside : Handle → Prop} {b₀ c₀ b c : Recording α} {vs : List (Voice α × Voice α)}
    (h : Unison T release aside b₀ c₀ vs b c) (hT : ∀ s t, T s t → T' s t) :
    Unison T' release aside b₀ c₀ vs b c :=
  { h with tied := fun x hx => hT _ _ (h.tied x hx) }

namespace Recording

variable {α : Type} {b b' c : Recording α} {v : Voice α} {us ws : List (Voice α)}

theorem strand_congr (h : b'.channel v.handle = b.channel v.handle) : b'.strand v = b.strand v := by
  unfold strand
  rw [h]

theorem strands_eq (h : List.Forall₂ (fun u w => b.strand u = c.strand w) us ws) :
    us.map b.strand = ws.map c.strand := by
  rwa [← List.forall₂_eq_eq_eq, List.forall₂_map_left_iff, List.forall₂_map_right_iff]

theorem map_of_strands (h : us.map b.strand = ws.map c.strand) {γ : Type} (f : Strand α → γ) :
    us.map (fun u => f (b.strand u)) = ws.map fun w => f (c.strand w) := by
  have := congrArg (List.map f) h
  rwa [List.map_map, List.map_map] at this

end Recording

open Player

/-- A whole step and its second part, side by side.  The whole step is by `d` behind the second
part, in which `e` is left.  The voices `us` were let go before the cut; in the second part they
have come to the end as `ws`, and nothing more is done with the handles that are set aside. -/
structure Behind (i : Instance Rat) (aside : Handle → Prop) (b₀ c₀ : Recording Rat)
    (ws us : List (Voice Rat)) (p : Player Rat) (held : Option (Voice Rat × Voice Rat))
    (fresh : List (Voice Rat × Voice Rat)) (d e : Rat) (b c : Recording Rat) : Prop where
  identity : p.identity = i
  coherent : (p.having (held.map Prod.fst)).Coherent
  unison : Unison (Strand.Ahead d) (!i.statement.isHeld) aside b c (held.toList ++ fresh) b c
  apart : ∀ u ∈ us, aside u.handle
  apartRight : ∀ w ∈ ws, aside w.handle
  distinct : (us.map Voice.handle).Nodup
  fades : ∀ u ∈ us, u.Fades (!i.statement.isHeld)
  arrived : List.Forall₂ (fun u w => (b.strand u).next (d + e) = c.strand w) us ws
  left : ∀ h, aside h → h ∉ us.map Voice.handle → b.channel h = b₀.channel h
  right : ∀ h, aside h → c.channel h = c₀.channel h

namespace Behind

abbrev whole (us : List (Voice Rat)) (p : Player Rat) (held : Option (Voice Rat × Voice Rat))
    (fresh : List (Voice Rat × Voice Rat)) (d e : Rat) (b : Recording Rat) :
    Progress Rat (Recording Rat) :=
  ⟨d + e, p.having (held.map Prod.fst), us ++ fresh.map Prod.fst, b⟩

abbrev second (p : Player Rat) (held : Option (Voice Rat × Voice Rat))
    (fresh : List (Voice Rat × Voice Rat)) (d e : Rat) (c : Recording Rat) :
    Progress Rat (Recording Rat) :=
  ⟨e, (p.waited d).having (held.map Prod.snd), fresh.map Prod.snd, c⟩

variable {i : Instance Rat} {aside : Handle → Prop} {b₀ c₀ : Recording Rat}
  {ws us : List (Voice Rat)} {p : Player Rat} {held : Option (Voice Rat × Voice Rat)}
  {fresh : List (Voice Rat × Voice Rat)} {d e f : Rat} {b c : Recording Rat}

/-- What both have come to: the same but for the levels of the voices. -/
inductive Met (i : Instance Rat) (aside : Handle → Prop) (b₀ c₀ : Recording Rat)
    (ws : List (Voice Rat)) :
    Player Rat × List (Voice Rat) × Recording Rat → Player Rat × List (Voice Rat) × Recording Rat →
      Prop
  | intro (p : Player Rat) (held : Option (Voice Rat × Voice Rat))
      (fresh : List (Voice Rat × Voice Rat)) (us : List (Voice Rat)) {b c : Recording Rat} :
      Unison Eq (!i.statement.isHeld) aside b c (held.toList ++ fresh) b c →
      List.Forall₂ (fun u w => b.strand u = c.strand w) us ws →
      (∀ h, aside h → h ∉ us.map Voice.handle → b.channel h = b₀.channel h) →
      (∀ h, aside h → c.channel h = c₀.channel h) →
      Met i aside b₀ c₀ ws (p.having (held.map Prod.fst), us ++ fresh.map Prod.fst, b)
        (p.having (held.map Prod.snd), fresh.map Prod.snd, c)

theorem Met.of_together {b₁ c₁ : Recording Rat}
    {x y : Player Rat × List (Voice Rat) × Recording Rat}
    (h : Abreast.Together i (Unison Eq (!i.statement.isHeld) aside b₁ c₁) x y)
    (harrived : List.Forall₂ (fun u w => x.2.2.strand u = y.2.2.strand w) us ws)
    (hleft : ∀ h, aside h → h ∉ us.map Voice.handle → x.2.2.channel h = b₀.channel h)
    (hright : ∀ h, aside h → y.2.2.channel h = c₀.channel h) :
    Met i aside b₀ c₀ ws (x.1, us ++ x.2.1, x.2.2) y := by
  obtain ⟨p, held, fresh, -, -, hR⟩ := h
  exact .intro p held fresh us hR.rebase harrived hleft hright

namespace Met

variable {x y : Player Rat × List (Voice Rat) × Recording Rat}

theorem player (h : Met i aside b₀ c₀ ws x y) :
    x.1.identity = y.1.identity ∧ x.1.state = y.1.state ∧ x.1.source = y.1.source ∧
      x.1.voice.map Voice.sketch = y.1.voice.map Voice.sketch := by
  obtain ⟨p, held, fresh, us, hu, -, -, -⟩ := h
  refine ⟨rfl, rfl, rfl, ?_⟩
  rw [having_voice, having_voice, Option.map_map, Option.map_map]
  refine Option.map_congr fun x hx => ?_
  exact congrArg Strand.voice (hu.tied x (List.mem_append_left _ (Option.mem_toList.mpr hx)))

theorem voices (h : Met i aside b₀ c₀ ws x y) :
    x.2.1.map Voice.sketch = (ws ++ y.2.1).map Voice.sketch := by
  obtain ⟨p, held, fresh, us, hu, harrived, -, -⟩ := h
  have hfresh : (fresh.map Prod.fst).map Voice.sketch = (fresh.map Prod.snd).map Voice.sketch := by
    rw [List.map_map, List.map_map]
    refine List.map_congr_left fun x hx => ?_
    exact congrArg Strand.voice (hu.tied x (List.mem_append_right _ hx))
  rw [List.map_append, List.map_append, hfresh]
  exact congrArg (· ++ _) (Recording.map_of_strands (Recording.strands_eq harrived) Strand.voice)

/-- What is done with the handles that are not set aside, and with those of the voices let go before
the cut. -/
theorem sketch_channel (h : Met i aside b₀ c₀ ws x y) {k : Handle}
    (hk : aside k → k ∈ ws.map Voice.handle) :
    (x.2.2.channel k).sketch = (y.2.2.channel k).sketch := by
  obtain @⟨p, held, fresh, us, b, c, hu, harrived, -, -⟩ := h
  have htied {v w : Voice Rat} (hv : b.strand v = c.strand w) :
      (b.channel v.handle).sketch = (c.channel v.handle).sketch := by
    obtain ⟨hs, hch⟩ := Strand.mk.inj hv
    have hw : v.handle = w.handle := congrArg Sketch.handle hs
    rwa [← hw] at hch
  by_cases ha : aside k
  · obtain ⟨w, hw, rfl⟩ := List.mem_map.mp (hk ha)
    have hmem : c.strand w ∈ us.map b.strand :=
      Recording.strands_eq harrived ▸ List.mem_map_of_mem hw
    obtain ⟨u, -, he⟩ := List.mem_map.mp hmem
    have hh : u.handle = w.handle := congrArg (fun s => s.voice.handle) he
    exact hh ▸ htied he
  · by_cases hm : k ∈ (held.toList ++ fresh).map fun x => x.1.handle
    · obtain ⟨x, hx, rfl⟩ := List.mem_map.mp hm
      exact htied (hu.tied x hx)
    · exact hu.others k ha hm

theorem channel_left (h : Met i aside b₀ c₀ ws x y) {k : Handle} (hk : aside k)
    (hn : k ∉ ws.map Voice.handle) : x.2.2.channel k = b₀.channel k := by
  obtain ⟨p, held, fresh, us, -, harrived, hleft, -⟩ := h
  have hhandles := Recording.map_of_strands (Recording.strands_eq harrived) fun s => s.voice.handle
  exact hleft k hk fun hm => hn (hhandles ▸ hm)

theorem channel_right (h : Met i aside b₀ c₀ ws x y) {k : Handle} (hk : aside k) :
    y.2.2.channel k = c₀.channel k := by
  obtain ⟨-, -, -, -, -, -, -, hright⟩ := h
  exact hright k hk

end Met

theorem wait?_second :
    (second p held fresh d e c).player.wait? = p.wait?.map fun r => r - d := by
  show ((p.waited d).having _).wait? = _
  rw [wait?_having, wait?_waited]

theorem strand_right (h : Behind i aside b₀ c₀ ws us p held fresh d e b c) {c' : Recording Rat}
    (hc : ∀ h, aside h → c'.channel h = c₀.channel h) {w : Voice Rat} (hw : w ∈ ws) :
    c'.strand w = c.strand w :=
  Recording.strand_congr
    ((hc _ (h.apartRight w hw)).trans (h.right _ (h.apartRight w hw)).symm)

variable [Easing Rat]

/-- All voices after some time, in which the whole step comes to where its second part is. -/
def nextPair (d e : Rat) (x : Voice Rat × Voice Rat) : Voice Rat × Voice Rat :=
  (x.1.next (d + e), x.2.next e)

/-- Some time is spent in the second part, and as much and the time before the cut in the whole. -/
theorem spend (h : Behind i aside b₀ c₀ ws us p held fresh d e b c) (hf : 0 ≤ f) :
    ∃ b' c',
      (whole us p held fresh d e b).spend (d + f) =
        ⟨d + e, p.having ((held.map (nextPair d f)).map Prod.fst),
          us.map (Voice.next (d + f)) ++ (fresh.map (nextPair d f)).map Prod.fst, b'⟩ ∧
      (second p held fresh d e c).spend f =
        ⟨e, (p.waited d).having ((held.map (nextPair d f)).map Prod.snd),
          (fresh.map (nextPair d f)).map Prod.snd, c'⟩ ∧
      Unison Eq (!i.statement.isHeld) aside b' c'
        ((held.map (nextPair d f)).toList ++ fresh.map (nextPair d f)) b' c' ∧
      (∀ u ∈ us, b'.strand (u.next (d + f)) = (b.strand u).next (d + f)) ∧
      (∀ h, aside h → h ∉ us.map Voice.handle → b'.channel h = b₀.channel h) ∧
      ∀ h, aside h → c'.channel h = c₀.channel h := by
  set vs := held.toList ++ fresh with hvs
  have hL : ((held.map Prod.fst).toList ++ (us ++ fresh.map Prod.fst)).Perm
      (vs.map Prod.fst ++ us) := by
    rw [hvs, List.map_append, Option.toList_map, List.append_assoc]
    exact List.perm_append_comm.append_left _
  have hnodup := h.unison.nodup_left h.apart h.distinct hL
  have hright : (held.map Prod.snd).toList ++ fresh.map Prod.snd = vs.map Prod.snd := by
    rw [hvs, List.map_append, Option.toList_map]
  have hhandles := h.unison.handles_snd
  have hspend := h.unison.spend (fun x hx => h.unison.tied x hx f hf) h.apart h.distinct hL
  have hmap : vs.map (Prod.map (Voice.next (d + f)) (Voice.next f)) =
      (held.map (nextPair d f)).toList ++ fresh.map (nextPair d f) := by
    rw [hvs, List.map_append, Option.toList_map]
    rfl
  rw [hmap] at hspend
  have hquiet {k : Handle} (hk : aside k) :
      (Voice.tellEach (Voice.tells f) (vs.map Prod.snd) c).channel k = c.channel k :=
    Recording.channel_tellEach_of_not_mem (hhandles ▸ h.unison.not_mem_of_aside hk)
  refine ⟨_, _, ?_, ?_, hspend, fun u hu => Recording.strand_tellEach hnodup
    (List.mem_append_right _ (List.mem_append_left _ hu)) _, fun k hk hn => ?_,
    fun k hk => (hquiet hk).trans (h.right k hk)⟩
  · unfold Progress.spend
    rw [advanceVoices_eq]
    simp only [having_voice, Option.map_map, List.map_append, List.map_map]
    rfl
  · unfold Progress.spend
    rw [advanceVoices_eq]
    simp only [having_voice, Option.map_map, List.map_map, hright]
    rfl
  · refine (Recording.channel_tellEach_of_not_mem fun hm => ?_).trans (h.left k hk hn)
    rw [(hL.map _).mem_iff, List.map_append, Unison.handles_fst] at hm
    exact (List.mem_append.mp hm).elim (h.unison.not_mem_of_aside hk) hn

theorem finished (h : Behind i aside b₀ c₀ ws us p held fresh d e b c) (he : 0 ≤ e) :
    Met i aside b₀ c₀ ws (whole us p held fresh d e b).finished.outcome
      (second p held fresh d e c).finished.outcome := by
  obtain ⟨b', c', hx, hy, hu, hmoved, hleft, hright⟩ := h.spend he
  have harrived : List.Forall₂ (fun u w => b'.strand u = c'.strand w)
      (us.map (Voice.next (d + e))) ws := by
    rw [List.forall₂_map_left_iff, List.forall₂_iff_zip]
    refine ⟨h.arrived.length_eq, fun {u w} hmem => ?_⟩
    obtain ⟨hu, hw⟩ := List.of_mem_zip hmem
    rw [hmoved u hu, h.strand_right hright hw]
    exact (List.forall₂_iff_zip.mp h.arrived).2 hmem
  cases hw : p.wait? with
  | none =>
    rw [Progress.finished_of_not_waiting hw, Progress.finished_of_not_waiting
      (by rw [wait?_second, hw]; rfl), hx, hy]
    have hp : p.waited d = p := waited_of_not_waiting hw d
    rw [hp]
    have ht := (Unison.abreast i.statement).followLast h.identity hw h.coherent
      Option.isNone_map hu rfl rfl
    rw [← Voice.handles_next (d + e)] at hleft
    exact Met.of_together ht harrived hleft hright
  | some r =>
    rw [Progress.finished_of_waiting hw, Progress.finished_of_waiting
      (by rw [wait?_second, hw]; rfl), hx, hy]
    rw [← Voice.handles_next (d + e)] at hleft
    have hsum : ((p.waited d).having ((held.map (nextPair d e)).map Prod.snd)).waited e =
        (p.waited (d + e)).having ((held.map (nextPair d e)).map Prod.snd) := by
      rw [waited_having, waited_waited]
    show Met i aside b₀ c₀ ws ((p.having ((held.map (nextPair d e)).map Prod.fst)).waited (d + e),
      _, _) (((p.waited d).having ((held.map (nextPair d e)).map Prod.snd)).waited e, _, _)
    rw [hsum, waited_having]
    exact .intro (p.waited (d + e)) _ _ _ hu harrived hleft hright

theorem fired (h : Behind i aside b₀ c₀ ws us p held fresh d e b c) (hd : 0 ≤ d) (he : 0 ≤ e)
    {r : Rat} (hw : p.wait? = some r) (hr : d ≤ r ∨ d = 0)
    (hc : Scalar.clamp r 0 (d + e) < d + e → ∀ u ∈ us, ∀ g, u.pending = some g →
      ¬ Nearly (g.delay - Scalar.clamp r 0 (d + e))) (fallback : Rat) :
    let f := Scalar.clamp (r - d) 0 e
    ∃ q held' fresh' b' c',
      (whole us p held fresh d e b).fired fallback (Scalar.clamp r 0 (d + e)) =
        whole (us.map (Voice.next (d + f))) q held' fresh' 0 (e - f) b' ∧
      (second p held fresh d e c).fired fallback f = second q held' fresh' 0 (e - f) c' ∧
      Behind i aside b₀ c₀ ws (us.map (Voice.next (d + f))) q held' fresh' 0 (e - f) b' c' := by
  intro f
  have hf : 0 ≤ f := Fraction.clamp_nonneg _ he
  have hfe : f ≤ e := Fraction.clamp_le _ e
  rw [Fraction.clamp_add e hd hr] at hc ⊢
  obtain ⟨b', c', hx, hy, hu, hmoved, hleft, hright⟩ := h.spend hf
  have hcoh : (p.having ((held.map (nextPair d f)).map Prod.fst)).Coherent :=
    h.coherent.having_of_wait (by rw [hw]; rfl) (by simp)
  have hfire := (Unison.abreast i.statement).fire h.identity (by rw [hw]; rfl) hcoh fallback hu
  have hwait : ((p.having ((held.map (nextPair d f)).map Prod.snd)).waited d).fire fallback c' =
      (p.having ((held.map (nextPair d f)).map Prod.snd)).fire fallback c' :=
    fire_waited (by rw [wait?_having, hw]; rfl) d fallback c'
  rw [waited_having] at hwait
  rw [Progress.fired_eq, Progress.fired_eq, hx, hy]
  dsimp only
  rw [hwait, add_sub_add_left_eq_sub, Fraction.larger_of_nonneg (sub_nonneg.mpr hfe)]
  generalize Player.fire fallback _ b' = x at hfire ⊢
  generalize Player.fire fallback _ c' = y at hfire ⊢
  cases hfire with
  | @intro q held' loose b'' c'' hq hcoh' hR =>
    refine ⟨q, held', fresh.map (nextPair d f) ++ loose.toList, b'', c'', ?_, ?_, ?_⟩
    · unfold whole
      rw [zero_add, List.map_append, Option.toList_map, List.append_assoc]
    · unfold second
      rw [waited_zero, List.map_append, Option.toList_map]
    · have hR' := (hR.perm (List.perm_append_comm.append_left _)).rebase.mono
        fun _ _ => Strand.ahead_zero
      refine
        { identity := hq, coherent := hcoh', unison := hR', apart := ?_, apartRight := h.apartRight,
          distinct := ?_, fades := ?_, arrived := ?_, left := fun k hk hn => ?_,
          right := fun k hk => (hR.keptRight k hk).trans (hright k hk) }
      · exact List.forall_mem_map.mpr fun u hu => (u.next_handle _).symm ▸ h.apart u hu
      · rw [Voice.handles_next]
        exact h.distinct
      · exact List.forall_mem_map.mpr fun u hu => (h.fades u hu).next _
      · rw [List.forall₂_map_left_iff, List.forall₂_iff_zip, zero_add]
        refine ⟨h.arrived.length_eq, fun {u w} hmem => ?_⟩
        obtain ⟨hu, hw⟩ := List.of_mem_zip hmem
        have haside : aside (u.next (d + f)).handle := (u.next_handle _).symm ▸ h.apart u hu
        have hdue (g : PendingFade Rat) (hg : u.pending = some g) : u.state = .playing :=
          ((h.fades u hu).due g hg).1
        rw [Recording.strand_congr (hR.keptLeft _ haside), hmoved u hu,
          h.strand_right (fun k hk => (hR.keptRight k hk).trans (hright k hk)) hw,
          ← (List.forall₂_iff_zip.mp h.arrived).2 hmem]
        rcases hfe.lt_or_eq with hlt | heq
        · rw [Strand.next_next hdue (add_nonneg hd hf) (sub_nonneg.mpr hfe)
            (hc (by linarith) u hu)]
          congr 1
          ring
        · rw [heq, sub_self, Strand.next_zero hdue (add_nonneg hd he)]
      · rw [Voice.handles_next] at hn
        exact (hR.keptLeft k hk).trans (hleft k hk hn)

/-- No fade-out of the first voices that were let go is nearly due when the player fires within the
last part of a step. -/
def Clear {β : Type} (n : Nat) (part : Rat) (trail : List (Progress Rat β)) : Prop :=
  ∀ x ∈ trail, ∀ r ∈ x.player.wait?, x.budget - Scalar.clamp r 0 x.budget < part →
    Scalar.clamp r 0 x.budget < x.budget →
    ∀ u ∈ x.fresh.take n, ∀ f ∈ u.pending, ¬ Nearly (f.delay - Scalar.clamp r 0 x.budget)

theorem run (fallback : Rat) {part : Rat} {n m : Nat}
    (h : Behind i aside b₀ c₀ ws us p held fresh d e b c) (hd : 0 ≤ d) (he : 0 ≤ e)
    (hpart : e ≤ part) (hwait : d = 0 ∧ (e < part ∨ e = 0) ∨ ∀ r ∈ p.wait?, d < r)
    (hn : Progress.Stops fallback n (whole us p held fresh d e b))
    (hm : Progress.Stops fallback m (second p held fresh d e c))
    (hc : Clear us.length part
      (Progress.trail fallback n (whole us p held fresh d e b))) :
    Met i aside b₀ c₀ ws ((whole us p held fresh d e b).run fallback n).outcome
      ((second p held fresh d e c).run fallback m).outcome := by
  -- By induction on the turns of the whole step: `Behind` holds again after a firing, and from then
  -- on nothing is left to wait for the cut.
  induction n generalizing us p held fresh d e b c m with
  | zero => exact hn.elim
  | succ n ih =>
  cases m with
  | zero => exact hm.elim
  | succ m =>
  by_cases hlast : ∀ r ∈ p.wait?, d + e + tolerance < r
  · have hlast' : ∀ r ∈ (second p held fresh d e c).player.wait?, e + tolerance < r := by
      rw [wait?_second]
      intro r hr
      obtain ⟨r', hr', rfl⟩ := Option.map_eq_some_iff.mp hr
      linarith [hlast r' hr']
    rw [Progress.run_of_last (Progress.turn_of_last hlast fallback),
      Progress.run_of_last (Progress.turn_of_last hlast' fallback)]
    exact h.finished he
  · obtain ⟨r, hw, hr⟩ : ∃ r ∈ p.wait?, r ≤ d + e + tolerance := by
      by_contra hno
      exact hlast fun r hr => not_le.mp fun hle => hno ⟨r, hr, hle⟩
    have hdr : d ≤ r ∨ d = 0 := hwait.elim (fun h => .inr h.1) fun h => .inl (h r hw).le
    have hw' : (second p held fresh d e c).player.wait? = some (r - d) := by
      rw [wait?_second, Option.mem_def.mp hw]
      rfl
    have ht := Progress.turn_of_due (x := whole us p held fresh d e b) hw (not_lt.mpr hr) fallback
    have ht' := Progress.turn_of_due hw' (not_lt.mpr (by linarith : r - d ≤ e + tolerance)) fallback
    have hclamp := Fraction.clamp_add e hd hdr
    have hf : 0 ≤ Scalar.clamp (r - d) 0 e := Fraction.clamp_nonneg _ he
    have hfe : Scalar.clamp (r - d) 0 e ≤ e := Fraction.clamp_le _ e
    -- After the cut, firings that use up some of the step are within its last part.
    have hwithin : Scalar.clamp (r - d) 0 e < e → e - Scalar.clamp (r - d) 0 e < part := by
      intro hlt
      obtain ⟨-, he' | rfl⟩ | hlater := hwait
      · linarith
      · exact absurd hlt (not_lt.mpr hf)
      · have hpos := Fraction.clamp_pos (sub_pos.mpr (hlater r hw)) hlt
        linarith
    have hus : ∀ u ∈ us, u ∈ (us ++ fresh.map Prod.fst).take us.length := fun u hu => by
      rwa [List.take_left]
    obtain ⟨q, held', fresh', b', c', hx, hy, hq⟩ := h.fired hd he hw hdr (fun hlt u hu g hg => by
      refine hc _ List.mem_cons_self r hw ?_ hlt u (hus u hu) g hg
      show d + e - Scalar.clamp r 0 (d + e) < part
      rw [hclamp] at hlt ⊢
      linarith [hwithin (by linarith)]) fallback
    have htrail : Progress.trail fallback (n + 1) (whole us p held fresh d e b) =
        whole us p held fresh d e b :: Progress.trail fallback n
          (whole (us.map (Voice.next (d + Scalar.clamp (r - d) 0 e))) q held' fresh' 0
            (e - Scalar.clamp (r - d) 0 e) b') := by
      rw [Progress.trail, ht]
      exact congrArg _ (congrArg _ hx)
    rw [Progress.run_of_fired ht, Progress.run_of_fired ht', hy]
    refine hx ▸ ih hq le_rfl (sub_nonneg.mpr hfe) (by linarith) (.inl ⟨rfl, ?_⟩) ?_ ?_ ?_
    · rcases hfe.lt_or_eq with hlt | heq
      · exact .inl (hwithin hlt)
      · exact .inr (by rw [heq, sub_self])
    · exact hx ▸ hn.of_fired ht
    · exact hy ▸ hm.of_fired ht'
    · intro y hy'
      rw [List.length_map]
      exact hc y (htrail ▸ List.mem_cons_of_mem _ hy')

end Behind

end Soundscape
