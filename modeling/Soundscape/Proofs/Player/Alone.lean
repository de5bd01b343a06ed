import Soundscape.Proofs.Player.Abreast

/-!
# A player alone

`Alone` lists all that a player does with its voices.  A property of the voices and the backend that
none of these operations breaks holds after a whole step of time (`Alone.advancePlayer`).
-/

namespace Soundscape

variable {α β : Type}

/-- The same voices and the same backend on both sides. -/
def Beside (P : List (Voice α) → β → Prop) (vs : List (Voice α × Voice α)) (b c : β) : Prop :=
  b = c ∧ (∀ x ∈ vs, x.1 = x.2) ∧ P (vs.map Prod.fst) b

namespace Beside

variable {P : List (Voice α) → β → Prop}

theorem uncons {v w : Voice α} {vs : List (Voice α × Voice α)} {b c : β}
    (h : Beside P ((v, w) :: vs) b c) :
    v = w ∧ b = c ∧ (∀ x ∈ vs, x.1 = x.2) ∧ P (v :: vs.map Prod.fst) b :=
  ⟨h.2.1 _ List.mem_cons_self, h.1, fun x hx => h.2.1 x (List.mem_cons_of_mem _ hx), h.2.2⟩

theorem cons {v : Voice α} {vs : List (Voice α × Voice α)} {b : β}
    (he : ∀ x ∈ vs, x.1 = x.2) (hP : P (v :: vs.map Prod.fst) b) :
    Beside P ((v, v) :: vs) b b :=
  ⟨rfl, List.forall_mem_cons.mpr ⟨rfl, he⟩, hP⟩

theorem of_voice {x : Option (Voice α)} {b : β} (hP : P x.toList b) :
    Beside P (x.map fun v => (v, v)).toList b b := by
  cases x with
  | none => exact ⟨rfl, by simp, hP⟩
  | some v => exact .cons (by simp) hP

theorem of_together {i : Instance α} {x y : Player α × List (Voice α) × β}
    (h : Abreast.Together i (Beside P) x y) :
    x.1.identity = i ∧ x.1.Coherent ∧ P (x.1.voice.toList ++ x.2.1) x.2.2 := by
  obtain ⟨p, held, fresh, hp, hc, hR⟩ := h
  exact ⟨hp, hc, by simpa [Option.toList_map] using hR.2.2⟩

end Beside

variable [Scalar α] [Easing α] [AudioBackend α β]

/-- A property of the voices of a player and of its backend that no operation on the voices
breaks. -/
structure Alone (s : Statement α) (P : List (Voice α) → β → Prop) : Prop where
  perm : ∀ {vs ws b}, vs.Perm ws → P vs b → P ws b
  advance : ∀ {v vs b} (dt : α), P (v :: vs) b →
    P (v.next dt :: vs) (tellAll b v.handle (v.tells dt))
  /-- Forgetting a voice that has given its handle back. -/
  drop : ∀ {v vs b}, v.isReleased → P (v :: vs) b → P vs b
  /-- Making a fade-out due that ends as the statement wants it. -/
  fade : ∀ {v vs b} (delay length : α), v.state = .playing → P (v :: vs) b →
    P (v.scheduleFadeOut delay length (!s.isHeld) :: vs) b
  refused : ∀ {vs b b' clip e}, AudioBackend.acquire b clip = (.error e, b') → P vs b → P vs b'
  opening : ∀ {vs b b' clip h} (o : Player.Opening α), Player.MayOpen s o →
    AudioBackend.acquire b clip = (.ok h, b') → P vs b →
    P (Player.opened h clip o :: vs) (tellAll b' h (Player.overture h clip o (s.kind = .loop)))
  restart : ∀ {v v' vs b b' clip volume pitch fadeIn}, s.isHeld →
    Player.MayRestart s v.levels.movesPitch clip volume pitch fadeIn →
    v.restart clip volume pitch fadeIn b = (.ok (), v', b') → P (v :: vs) b → P (v' :: vs) b'
  /-- Killing a held voice whose next clip cannot be had. -/
  giveUp : ∀ {v v' vs b b' clip volume pitch fadeIn e}, s.isHeld →
    Player.MayRestart s v.levels.movesPitch clip volume pitch fadeIn →
    v.restart clip volume pitch fadeIn b = (.error e, v', b') → P (v :: vs) b →
    P vs (v'.kill b').2

namespace Alone

variable {s : Statement α} {i : Instance α} {P : List (Voice α) → β → Prop}

theorem each {Q : Voice α → Prop} (hnext : ∀ {v : Voice α} (dt : α), Q v → Q (v.next dt))
    (hfade : ∀ {v : Voice α} (delay length : α), v.state = .playing → Q v →
      Q (v.scheduleFadeOut delay length !s.isHeld))
    (hopened : ∀ {o : Player.Opening α} (h : Handle) (clip : String), Player.MayOpen s o →
      Q (Player.opened h clip o))
    (hagain : ∀ {v v' : Voice α} {b b' : β} {clip volume pitch fadeIn},
      v.restart clip volume pitch fadeIn b = (.ok (), v', b') → Q v → Q v') :
    Alone s fun vs (_ : β) => ∀ v ∈ vs, Q v where
  perm hp h v hv := h v (hp.mem_iff.mpr hv)
  advance dt h := by
    obtain ⟨hv, hvs⟩ := List.forall_mem_cons.mp h
    exact List.forall_mem_cons.mpr ⟨hnext dt hv, hvs⟩
  drop _ h := (List.forall_mem_cons.mp h).2
  fade delay length hs h := by
    obtain ⟨hv, hvs⟩ := List.forall_mem_cons.mp h
    exact List.forall_mem_cons.mpr ⟨hfade delay length hs hv, hvs⟩
  refused _ h := h
  opening o ho _ h := List.forall_mem_cons.mpr ⟨hopened _ _ ho, h⟩
  restart _ _ hr h := by
    obtain ⟨hv, hvs⟩ := List.forall_mem_cons.mp h
    exact List.forall_mem_cons.mpr ⟨hagain hr hv, hvs⟩
  giveUp _ _ _ h := (List.forall_mem_cons.mp h).2

theorem abreast (h : Alone s P) : Abreast s (Beside P) where
  perm hp hR := ⟨hR.1, fun x hx => hR.2.1 x (hp.mem_iff.mpr hx), h.perm (hp.map _) hR.2.2⟩
  state hR := by rw [hR.uncons.1]
  movesPitch hR := by rw [hR.uncons.1]
  clipLength hR := by rw [hR.uncons.1, hR.uncons.2.1]
  advance dt hR := by
    obtain ⟨rfl, rfl, he, hP⟩ := hR.uncons
    exact .cons he (h.advance dt hP)
  drop hv hR := by
    obtain ⟨rfl, rfl, he, hP⟩ := hR.uncons
    exact ⟨rfl, he, h.drop hv hP⟩
  fade delay length hv hR := by
    obtain ⟨rfl, rfl, he, hP⟩ := hR.uncons
    exact .cons he (h.fade delay length hv hP)
  opening {vs b c} clip o ho hR := by
    obtain ⟨rfl, he, hP⟩ := hR
    rcases ha : AudioBackend.acquire b clip with ⟨e | k, b'⟩
    · exact .inl ⟨e, e, b', b', rfl, rfl, rfl, he, h.refused ha hP⟩
    · exact .inr ⟨k, k, b', b', rfl, rfl, .cons he (h.opening o ho ha hP)⟩
  restart {v w vs b c clip} volume pitch fadeIn hs hc hR := by
    obtain ⟨rfl, rfl, he, hP⟩ := hR.uncons
    rcases hr : v.restart clip volume pitch fadeIn b with ⟨e | ⟨⟩, v', b'⟩
    · exact .inl ⟨e, e, v', v', b', b', rfl, rfl, rfl, he, h.giveUp hs hc hr hP⟩
    · exact .inr ⟨v', v', b', b', rfl, rfl, .cons he (h.restart hs hc hr hP)⟩

/-- A turn of a step keeps the property, the instance, and how the voice of the player fits. -/
theorem turn (h : Alone i.statement P) {x : Player.Progress α β} (hi : x.player.identity = i)
    (hc : x.player.Coherent) (hP : P (x.player.voice.toList ++ x.fresh) x.backend) (fallback : α) :
    let y := (x.turn fallback).2
    y.player.identity = i ∧ y.player.Coherent ∧ P (y.player.voice.toList ++ y.fresh) y.backend := by
  obtain ⟨budget, p, fresh, b⟩ := x
  have hv : p.having ((p.voice.map fun v => (v, v)).map Prod.fst) = p := by
    simp [Function.comp_def]
  have hf : (fresh.map fun v => (v, v)).map Prod.fst = fresh := by simp [Function.comp_def]
  have hR : Beside P ((p.voice.map fun v => (v, v)).toList ++ fresh.map fun v => (v, v)) b b := by
    refine ⟨rfl, fun x hx => ?_, by simpa [Option.toList_map, Function.comp_def] using hP⟩
    rcases List.mem_append.mp hx with hx | hx
    · obtain ⟨v, -, rfl⟩ := Option.map_eq_some_iff.mp (Option.mem_toList.mp hx)
      rfl
    · obtain ⟨v, -, rfl⟩ := List.mem_map.mp hx
      rfl
  have hturn := h.abreast.turnFrom hi (by rwa [hv]) hR fallback budget (by rw [hv, hf]) rfl
  exact Beside.of_together hturn.2.2

theorem run (h : Alone i.statement P) (fallback : α) (turns : Nat) {x : Player.Progress α β}
    (hi : x.player.identity = i) (hc : x.player.Coherent)
    (hP : P (x.player.voice.toList ++ x.fresh) x.backend) :
    let y := x.run fallback turns
    y.player.identity = i ∧ y.player.Coherent ∧ P (y.player.voice.toList ++ y.fresh) y.backend := by
  induction turns generalizing x with
  | zero => exact ⟨hi, hc, hP⟩
  | succ turns ih =>
    have ht := h.turn hi hc hP fallback
    unfold Player.Progress.run
    rcases hy : x.turn fallback with ⟨_ | _, y⟩ <;> rw [hy] at ht
    · exact ht
    · exact ih ht.1 ht.2.1 ht.2.2

variable {p : Player α} {b : β}

/-- A step of time keeps the property, the instance, and how the voice of the player fits. -/
theorem advancePlayer (h : Alone p.statement P) (hc : p.Coherent) (hP : P p.voice.toList b)
    (dt fallback : α) :
    (p.advance dt fallback b).1.identity = p.identity ∧ (p.advance dt fallback b).1.Coherent ∧
      P ((p.advance dt fallback b).1.voice.toList ++ (p.advance dt fallback b).2.1)
        (p.advance dt fallback b).2.2 := by
  have hv : p.having ((p.voice.map fun v => (v, v)).map Prod.fst) = p := by
    simp [Function.comp_def]
  have ht := h.abreast.together_advance (i := p.identity) dt fallback rfl (by rwa [hv])
    (.of_voice hP)
  rw [hv] at ht
  exact Beside.of_together ht

end Alone

end Soundscape
