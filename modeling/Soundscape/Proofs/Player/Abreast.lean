import Soundscape.Proofs.Player.Firing

/-!
# Players side by side

Two players that differ in no more than their voices draw the same and fire at the same moments.
So a relation between their voices and their backends holds after a step of time if each single
operation on a voice keeps it.  `Abreast` lists these operations, and the main results lift it
through a step of a player:

* `Abreast.turn`, `Abreast.run`: the turns of a step;
* `Abreast.together_advance`: a whole step.

With the same backend on both sides and each voice beside itself this is how an invariant of one
player is shown.
-/

namespace Soundscape

variable {α β γ : Type} [Scalar α] [Easing α] [AudioBackend α β] [AudioBackend α γ]

/-- A relation between the voices of two players of one statement, side by side, and their
backends, which no operation on the voices breaks. -/
structure Abreast (s : Statement α) (R : List (Voice α × Voice α) → β → γ → Prop) : Prop where
  perm : ∀ {vs ws b c}, vs.Perm ws → R vs b c → R ws b c
  state : ∀ {v w vs b c}, R ((v, w) :: vs) b c → v.state = w.state
  movesPitch : ∀ {v w vs b c}, R ((v, w) :: vs) b c → v.levels.movesPitch = w.levels.movesPitch
  clipLength : ∀ {v w vs b c}, R ((v, w) :: vs) b c →
    AudioBackend.clipLength b v.handle = AudioBackend.clipLength c w.handle
  advance : ∀ {v w vs b c} (dt : α), R ((v, w) :: vs) b c →
    R ((v.next dt, w.next dt) :: vs) (tellAll b v.handle (v.tells dt))
      (tellAll c w.handle (w.tells dt))
  /-- Forgetting a voice that has given its handle back. -/
  drop : ∀ {v w vs b c}, v.isReleased → R ((v, w) :: vs) b c → R vs b c
  /-- Making a fade-out due that ends as the statement wants it. -/
  fade : ∀ {v w vs b c} (delay length : α), v.state = .playing → R ((v, w) :: vs) b c →
    R ((v.scheduleFadeOut delay length !s.isHeld, w.scheduleFadeOut delay length !s.isHeld) :: vs)
      b c
  opening : ∀ {vs b c} (clip : String) (o : Player.Opening α), Player.MayOpen s o → R vs b c →
    (∃ e f b' c', AudioBackend.acquire b clip = (.error e, b') ∧
      AudioBackend.acquire c clip = (.error f, c') ∧ R vs b' c') ∨
    ∃ h k b' c', AudioBackend.acquire b clip = (.ok h, b') ∧
      AudioBackend.acquire c clip = (.ok k, c') ∧
      R ((Player.opened h clip o, Player.opened k clip o) :: vs)
        (tellAll b' h (Player.overture h clip o (s.kind = .loop)))
        (tellAll c' k (Player.overture k clip o (s.kind = .loop)))
  /-- Starting a held voice again; it is killed when its clip cannot be had. -/
  restart : ∀ {v w vs b c} {clip : String} (volume : α) (pitch : Option α) (fadeIn : α),
    s.isHeld → Player.MayRestart s v.levels.movesPitch clip volume pitch fadeIn →
    R ((v, w) :: vs) b c →
    (∃ e f v' w' b' c', v.restart clip volume pitch fadeIn b = (.error e, v', b') ∧
      w.restart clip volume pitch fadeIn c = (.error f, w', c') ∧
      R vs (v'.kill b').2 (w'.kill c').2) ∨
    ∃ v' w' b' c', v.restart clip volume pitch fadeIn b = (.ok (), v', b') ∧
      w.restart clip volume pitch fadeIn c = (.ok (), w', c') ∧ R ((v', w') :: vs) b' c'

namespace Abreast

open Player

variable {s : Statement α} {i : Instance α} {R : List (Voice α × Voice α) → β → γ → Prop}

/-- Two players with the voices that they have let go and their backends, side by side. -/
inductive Together (i : Instance α) (R : List (Voice α × Voice α) → β → γ → Prop) :
    Player α × List (Voice α) × β → Player α × List (Voice α) × γ → Prop
  | intro (p : Player α) (held : Option (Voice α × Voice α)) (fresh : List (Voice α × Voice α))
      {b : β} {c : γ} : p.identity = i → (p.having (held.map Prod.fst)).Coherent →
      R (held.toList ++ fresh) b c →
      Together i R (p.having (held.map Prod.fst), fresh.map Prod.fst, b)
        (p.having (held.map Prod.snd), fresh.map Prod.snd, c)

variable {vs : List (Voice α × Voice α)} {b : β} {c : γ}

/-! ### The voices -/

/-- Two voices side by side after a step of time. -/
def nextBoth (dt : α) (x : Voice α × Voice α) : Voice α × Voice α := (x.1.next dt, x.2.next dt)

theorem tellEach (h : Abreast s R) (dt : α) (vs ws : List (Voice α × Voice α)) {b : β} {c : γ}
    (hR : R (vs ++ ws) b c) :
    R (vs.map (nextBoth dt) ++ ws) (Voice.tellEach (Voice.tells dt) (vs.map Prod.fst) b)
      (Voice.tellEach (Voice.tells dt) (vs.map Prod.snd) c) := by
  induction vs generalizing ws b c with
  | nil => exact hR
  | cons x vs ih =>
    have hx := h.advance (v := x.1) (w := x.2) dt hR
    have hv := ih (nextBoth dt x :: ws) (h.perm List.perm_middle.symm hx)
    exact h.perm List.perm_middle hv

theorem makesDue (h : Abreast s R) {f : Voice α → Voice α} (hf : MakesDue (!s.isHeld) f)
    {v w : Voice α} (hv : v.state = .playing) (hR : R ((v, w) :: vs) b c) :
    R ((f v, f w) :: vs) b c := by
  cases hf with
  | nothing => exact hR
  | fade delay length => exact h.fade delay length hv hR

theorem clipSeconds (h : Abreast s R) (fallback : α) {v w : Voice α} (hR : R ((v, w) :: vs) b c) :
    Player.clipSeconds fallback v b = Player.clipSeconds fallback w c := by
  unfold Player.clipSeconds
  rw [h.clipLength hR]

theorem openVoice (h : Abreast s R) {p : Player α} (hp : p.statement = s) (x y : Option (Voice α))
    (hR : R vs b c) :
    (∃ source b' c', (p.having x).openVoice (s.kind = .loop) b =
        ({ p with source }.having x, none, b') ∧
      (p.having y).openVoice (s.kind = .loop) c = ({ p with source }.having y, none, c') ∧
      R vs b' c') ∨
    ∃ source v w b' c', (p.having x).openVoice (s.kind = .loop) b =
        ({ p with source }.having x, some v, b') ∧
      (p.having y).openVoice (s.kind = .loop) c = ({ p with source }.having y, some w, c') ∧
      v.state = .playing ∧ v.pitch = w.pitch ∧ R ((v, w) :: vs) b' c' := by
  subst hp
  obtain ⟨e, f, b', c', hb, hc, hR⟩ | ⟨k, l, b', c', hb, hc, hR⟩ :=
    h.opening p.draws.1.1 p.draws.2.1 p.mayOpen_draws hR
  · exact .inl ⟨_, b', c', openVoice_of_error (p := p.having x) hb _,
      openVoice_of_error (p := p.having y) hc _, hR⟩
  · refine .inr ⟨_, _, _, _, _, openVoice_of_ok (p := p.having x) hb _,
      openVoice_of_ok (p := p.having y) hc _, opened_state .., ?_, hR⟩
    exact (congrArg Voice.pitch (opened_onHandle k l p.draws.1.1 p.draws.2.1)).symm

/-! ### Firing -/

/-- Two players after they fired, with the voice that they let go and their backends, next to the
voices that they have let go before. -/
inductive Fired (i : Instance α) (R : List (Voice α × Voice α) → β → γ → Prop)
    (fresh : List (Voice α × Voice α)) :
    Player α × Option (Voice α) × β → Player α × Option (Voice α) × γ → Prop
  | intro (p : Player α) (held loose : Option (Voice α × Voice α)) {b : β} {c : γ} :
      p.identity = i → (p.having (held.map Prod.fst)).Coherent →
      R (held.toList ++ (loose.toList ++ fresh)) b c →
      Fired i R fresh (p.having (held.map Prod.fst), loose.map Prod.fst, b)
        (p.having (held.map Prod.snd), loose.map Prod.snd, c)

variable {p : Player α} {fresh : List (Voice α × Voice α)}

theorem startLoop (h : Abreast i.statement R) (hp : p.identity = i) (hk : i.statement.kind = .loop)
    (hR : R fresh b c) :
    Fired i R fresh (((p.having none).startLoop b).1, none, ((p.having none).startLoop b).2)
      (((p.having none).startLoop c).1, none, ((p.having none).startLoop c).2) := by
  have hr : (!i.statement.isHeld) = true := by simp [Statement.isHeld, hk]
  have ho := h.openVoice (statement_of_identity hp) none none hR
  simp only [hk, decide_true] at ho
  unfold Player.startLoop
  obtain ⟨source, b', c', hb, hc, hR⟩ | ⟨source, v, w, b', c', hb, hc, hv, -, hR⟩ := ho
  · rw [hb, hc]
    exact .intro { p with source, state := .terminated } none none hp rfl hR
  · obtain ⟨source', f, hf, hx, hy⟩ := fadeAfterDuration_having (p := { p with source })
      (x := none) (y := none) (v := v) (w := w)
    rw [hb, hc]
    dsimp only
    rw [hx, hy]
    have hR' := h.makesDue (hr ▸ hf) hv hR
    refine .intro { p with source := source', state := .playing } (some (f v, f w)) none hp
      ⟨statement_of_identity hp ▸ hk, _, rfl, ?_⟩ hR'
    cases hf <;> simp [Voice.isReleased, hv, Voice.scheduleFadeOut]

theorem openTransient (h : Abreast i.statement R) (hp : p.identity = i)
    (hk : i.statement.kind = .oneshot) (hh : i.statement.isHeld = false) (fallback : α)
    (hR : R fresh b c) :
    ∃ source loose b' c',
      (p.having none).openTransient fallback b =
        ({ p with source }.having none, Option.map Prod.fst loose, b') ∧
      (p.having none).openTransient fallback c =
        ({ p with source }.having none, Option.map Prod.snd loose, c') ∧
      R (loose.toList ++ fresh) b' c' := by
  have ho := h.openVoice (statement_of_identity hp) none none hR
  simp only [hk, reduceCtorEq, decide_false] at ho
  unfold Player.openTransient
  obtain ⟨source, b', c', hb, hc, hR⟩ | ⟨source, v, w, b', c', hb, hc, hv, hpitch, hR⟩ := ho
  · rw [hb, hc]
    exact ⟨source, none, b', c', rfl, rfl, hR⟩
  · obtain ⟨source', f, hf, hx, hy⟩ := fadeWithClip_having (p := { p with source }) (x := none)
      (y := none) fallback (h.clipSeconds fallback hR) hpitch
    rw [hb, hc]
    dsimp only
    rw [hx, hy]
    exact ⟨source', some (f v, f w), b', c', rfl, rfl, h.makesDue (by rwa [hh]) hv hR⟩

theorem startHeld (h : Abreast i.statement R) (hp : p.identity = i) (hh : i.statement.isHeld)
    (fallback : α) (hR : R fresh b c) :
    Fired i R fresh
      (((p.having none).startHeld fallback b).1, none, ((p.having none).startHeld fallback b).2)
      (((p.having none).startHeld fallback c).1, none,
        ((p.having none).startHeld fallback c).2) := by
  have hs := Statement.isHeld_iff.mp hh
  have ho := h.openVoice (statement_of_identity hp) none none hR
  simp only [hs.1, reduceCtorEq, decide_false] at ho
  unfold Player.startHeld
  obtain ⟨source, b', c', hb, hc, hR⟩ | ⟨source, v, w, b', c', hb, hc, hv, -, hR⟩ := ho
  · rw [hb, hc]
    exact .intro { p with source, state := .terminated } none none hp rfl hR
  · obtain ⟨source', f, hf, hx, hy⟩ := fadeCycle_having (p := { p with source }) (x := none)
      (y := none) fallback (h.clipSeconds fallback hR)
    rw [hb, hc]
    dsimp only
    rw [hx, hy]
    exact .intro { p with source := source' }.waitForNext (some (f v, f w)) none hp
      (coherent_waitForNext.mpr (by simpa [statement_of_identity hp] using hs))
      (h.makesDue (by rwa [hh]) hv hR)

theorem restartHeld (h : Abreast i.statement R) (hp : p.identity = i) (hh : i.statement.isHeld)
    (fallback : α) {v w : Voice α} (hR : R ((v, w) :: fresh) b c) :
    Fired i R fresh
      (((p.having (some v)).restartHeld fallback b).1, none,
        ((p.having (some v)).restartHeld fallback b).2)
      (((p.having (some w)).restartHeld fallback c).1, none,
        ((p.having (some w)).restartHeld fallback c).2) := by
  have hs := Statement.isHeld_iff.mp hh
  have hn := statement_of_identity hp ▸ p.mayRestart_drawsAgain v
  have hw : p.drawsAgain w = p.drawsAgain v := by
    unfold drawsAgain
    rw [h.movesPitch hR]
  generalize hv : p.drawsAgain v = d at hn hw
  obtain ⟨e, f, v', w', b', c', hb, hc, hR⟩ | ⟨v', w', b', c', hb, hc, hR⟩ :=
    h.restart d.1.2.2.1 d.1.2.1 d.1.2.2.2 hh hn hR
  · rw [restartHeld_of_error hv hb, restartHeld_of_error hw hc]
    exact .intro { p with source := d.2, state := .terminated } none none hp rfl hR
  · obtain ⟨source, f, hf, hx, hy⟩ := fadeCycle_having (p := { p with source := d.2 })
      (x := some v) (y := some w) fallback (h.clipSeconds fallback hR)
    rw [restartHeld_of_ok hv hb, restartHeld_of_ok hw hc]
    dsimp only
    rw [hx, hy]
    exact .intro { p with source }.waitForNext (some (f v', f w')) none hp
      (coherent_waitForNext.mpr (by simpa [statement_of_identity hp] using hs))
      (h.makesDue (by rwa [hh]) (Voice.state_of_restart hb) hR)

theorem fireTransient (h : Abreast i.statement R) (hp : p.identity = i)
    (hk : i.statement.kind = .oneshot) (hh : i.statement.isHeld = false) (fallback : α)
    (hR : R fresh b c) :
    Fired i R fresh ((p.having none).fire fallback b) ((p.having none).fire fallback c) := by
  obtain ⟨source, loose, b', c', hb, hc, hR⟩ := h.openTransient hp hk hh fallback hR
  have hs := statement_of_identity hp
  rw [← hs] at hk
  cases he : p.statement.every.isSet with
  | false =>
    simp only [Player.fire, having_statement, hk, he, Bool.not_false, if_true, hb, hc]
    exact .intro { p with source, state := .terminated } none loose hp rfl hR
  | true =>
    have ho : p.statement.overlap = true := by simpa [Statement.isHeld, ← hs, hk, he] using hh
    simp only [Player.fire, having_statement, hk, he, ho, Bool.not_true, Bool.false_eq_true,
      if_false, if_true, hb, hc]
    cases loose with
    | none =>
      exact .intro { p with source, state := .terminated } none none hp rfl hR
    | some x =>
      have hc : (({ p with source } : Player α).waitForNext.having none).Coherent := ⟨hk, he, ho⟩
      exact .intro ({ p with source } : Player α).waitForNext none (some x) hp hc hR

theorem fire (h : Abreast i.statement R) {held : Option (Voice α × Voice α)} (hp : p.identity = i)
    (hw : p.wait?.isSome) (hc : (p.having (held.map Prod.fst)).Coherent) (fallback : α)
    (hR : R (held.toList ++ fresh) b c) :
    Fired i R fresh ((p.having (held.map Prod.fst)).fire fallback b)
      ((p.having (held.map Prod.snd)).fire fallback c) := by
  have hst := statement_of_identity hp
  cases hs : p.state with
  | waitingToStart remaining =>
    obtain rfl : held = none := by simpa [Coherent, hs] using hc
    cases hk : i.statement.kind with
    | loop =>
      simp only [Player.fire, having_statement, hst, hk]
      exact h.startLoop hp hk hR
    | oneshot =>
      cases hh : i.statement.isHeld with
      | false => exact h.fireTransient hp hk hh fallback hR
      | true =>
        obtain ⟨-, he, ho⟩ := Statement.isHeld_iff.mp hh
        simp only [Player.fire, having_statement, having_state, hs, hst, hk, he, ho, Bool.not_true,
          Bool.false_eq_true, if_false]
        exact h.startHeld hp hh fallback hR
  | waitingForNext remaining =>
    obtain ⟨hk, he, ho⟩ : i.statement.kind = .oneshot ∧ i.statement.every.isSet ∧
        i.statement.overlap = held.isNone := by
      simpa [Coherent, hs, hst] using hc
    cases held with
    | none =>
      exact h.fireTransient hp hk (by simpa [Statement.isHeld, hk, he] using ho) fallback hR
    | some x =>
      simp only [Option.isNone_some] at ho
      simp only [Player.fire, having_statement, having_state, hs, hst, hk, he, ho, Bool.not_true,
        Bool.false_eq_true, if_false]
      exact h.restartHeld hp (Statement.isHeld_iff.mpr ⟨hk, he, ho⟩) fallback hR
  | playing => simp [wait?, hs] at hw
  | fadingOut => simp [wait?, hs] at hw
  | terminated => simp [wait?, hs] at hw

/-! ### Steps of time -/

variable {held : Option (Voice α × Voice α)}

theorem advanceVoices (h : Abreast i.statement R) (dt : α) (p : Player α)
    (hR : R (held.toList ++ fresh) b c) :
    ∃ b' c',
      (p.having (held.map Prod.fst)).advanceVoices dt (fresh.map Prod.fst) b =
        (p.having ((held.map (nextBoth dt)).map Prod.fst),
          (fresh.map (nextBoth dt)).map Prod.fst, b') ∧
      (p.having (held.map Prod.snd)).advanceVoices dt (fresh.map Prod.snd) c =
        (p.having ((held.map (nextBoth dt)).map Prod.snd),
          (fresh.map (nextBoth dt)).map Prod.snd, c') ∧
      R ((held.map (nextBoth dt)).toList ++ fresh.map (nextBoth dt)) b' c' := by
  have hR' := h.tellEach dt (held.toList ++ fresh) [] (by simpa using hR)
  refine ⟨Voice.tellEach (Voice.tells dt) ((held.toList ++ fresh).map Prod.fst) b,
    Voice.tellEach (Voice.tells dt) ((held.toList ++ fresh).map Prod.snd) c, ?_, ?_, ?_⟩
  · simp only [advanceVoices_eq, List.map_append, having_voice, List.map_map, Option.map_map,
      Option.toList_map]
    rfl
  · simp only [advanceVoices_eq, List.map_append, having_voice, List.map_map, Option.map_map,
      Option.toList_map]
    rfl
  · simpa only [List.map_append, Option.toList_map, List.append_nil] using hR'

theorem followVoice (h : Abreast i.statement R) (hp : p.identity = i)
    (hk : i.statement.kind = .loop) (hs : p.state = .playing ∨ p.state = .fadingOut) {v w : Voice α}
    (hR : R ((v, w) :: fresh) b c) :
    Together i R ((p.having (some v)).followVoice, fresh.map Prod.fst, b)
      ((p.having (some w)).followVoice, fresh.map Prod.snd, c) := by
  have hw := h.state hR
  have hstay (hv : v.isReleased = false) :
      (p.having ((some (v, w)).map Prod.fst)).Coherent := by
    obtain ⟨id, s, state, source, voice⟩ := p
    obtain rfl | rfl : state = .playing ∨ state = .fadingOut := hs
    · exact ⟨statement_of_identity hp ▸ hk, v, rfl, hv⟩
    · exact ⟨statement_of_identity hp ▸ hk, v, rfl, hv⟩
  cases hv : v.state with
  | playing =>
    simp only [Player.followVoice, having_voice, ← hw, hv]
    exact .intro p (some (v, w)) fresh hp (hstay (by simp [Voice.isReleased, hv])) hR
  | stopped =>
    simp only [Player.followVoice, having_voice, ← hw, hv]
    exact .intro p (some (v, w)) fresh hp (hstay (by simp [Voice.isReleased, hv])) hR
  | fadingOut release =>
    simp only [Player.followVoice, having_voice, ← hw, hv]
    exact .intro { p with state := .fadingOut } (some (v, w)) fresh hp
      ⟨statement_of_identity hp ▸ hk, v, rfl, by simp [Voice.isReleased, hv]⟩ hR
  | released =>
    simp only [Player.followVoice, having_voice, ← hw, hv]
    exact .intro { p with state := .terminated } none fresh hp rfl
      (h.drop (by simp [Voice.isReleased, hv]) hR)

/-- Two steps that have as much time left, side by side. -/
def Alongside (i : Instance α) (R : List (Voice α × Voice α) → β → γ → Prop)
    (x : Progress α β) (y : Progress α γ) : Prop :=
  x.budget = y.budget ∧
    Together i R (x.player, x.fresh, x.backend) (y.player, y.fresh, y.backend)

theorem followLast (h : Abreast i.statement R) (hp : p.identity = i) (hw : p.wait? = none)
    (hc : (p.having (held.map Prod.fst)).Coherent) {now : Option (Voice α × Voice α)}
    (hnow : now.isNone = held.isNone) (hR : R (now.toList ++ fresh) b c) {x y : Player α}
    (hx : x = p.having (now.map Prod.fst)) (hy : y = p.having (now.map Prod.snd)) :
    Together i R (if x.isTerminated then x else x.followVoice, fresh.map Prod.fst, b)
      (if y.isTerminated then y else y.followVoice, fresh.map Prod.snd, c) := by
  subst hx hy
  simp only [isTerminated_having]
  have hfollow (hk : i.statement.kind = .loop) (hs : p.state = .playing ∨ p.state = .fadingOut)
      (hv : ∃ v, held.map Prod.fst = some v ∧ v.isReleased = false) :
      Together i R ((p.having (now.map Prod.fst)).followVoice, fresh.map Prod.fst, b)
        ((p.having (now.map Prod.snd)).followVoice, fresh.map Prod.snd, c) := by
    obtain ⟨v, hv, -⟩ := hv
    obtain ⟨x, rfl, -⟩ := Option.map_eq_some_iff.mp hv
    obtain ⟨y, rfl⟩ := Option.isSome_iff_exists.mp (Option.isNone_eq_false_iff.mp hnow)
    exact h.followVoice hp hk hs hR
  cases hs : p.state with
  | waitingToStart remaining => simp [wait?, hs] at hw
  | waitingForNext remaining => simp [wait?, hs] at hw
  | terminated =>
    obtain rfl : held = none := by simpa [Coherent, hs] using hc
    obtain rfl : now = none := by simpa using hnow
    simp only [isTerminated, hs, if_true]
    exact .intro p none _ hp (by simp [Coherent, hs]) hR
  | playing =>
    simp only [Coherent, having_state, hs] at hc
    simp only [isTerminated, hs, Bool.false_eq_true, if_false]
    exact hfollow (statement_of_identity hp ▸ hc.1) (.inl hs) hc.2
  | fadingOut =>
    simp only [Coherent, having_state, hs] at hc
    simp only [isTerminated, hs, Bool.false_eq_true, if_false]
    exact hfollow (statement_of_identity hp ▸ hc.1) (.inr hs) hc.2

theorem spendLast (h : Abreast i.statement R) (hp : p.identity = i) (hw : p.wait? = none)
    (hc : (p.having (held.map Prod.fst)).Coherent) (hR : R (held.toList ++ fresh) b c) (dt : α) :
    ∃ x y b' c',
      (p.having (held.map Prod.fst)).advanceVoices dt (fresh.map Prod.fst) b =
        (x, (fresh.map (nextBoth dt)).map Prod.fst, b') ∧
      (p.having (held.map Prod.snd)).advanceVoices dt (fresh.map Prod.snd) c =
        (y, (fresh.map (nextBoth dt)).map Prod.snd, c') ∧
      Together i R
        (if x.isTerminated then x else x.followVoice, (fresh.map (nextBoth dt)).map Prod.fst, b')
        (if y.isTerminated then y else y.followVoice,
          (fresh.map (nextBoth dt)).map Prod.snd, c') := by
  obtain ⟨b', c', hb, hc', hR'⟩ := h.advanceVoices dt p hR
  exact ⟨_, _, b', c', hb, hc', h.followLast hp hw hc Option.isNone_map hR' rfl rfl⟩

theorem turnFrom (h : Abreast i.statement R) (hp : p.identity = i)
    (hc : (p.having (held.map Prod.fst)).Coherent) (hR : R (held.toList ++ fresh) b c)
    (fallback budget : α) {x : Progress α β} {y : Progress α γ}
    (hx : x = ⟨budget, p.having (held.map Prod.fst), fresh.map Prod.fst, b⟩)
    (hy : y = ⟨budget, p.having (held.map Prod.snd), fresh.map Prod.snd, c⟩) :
    (x.turn fallback).1 = (y.turn fallback).1 ∧
      Alongside i R (x.turn fallback).2 (y.turn fallback).2 := by
  subst hx hy
  cases hw : p.wait? with
  | none =>
    obtain ⟨x, y, b', c', hb, hc, hR⟩ := h.spendLast hp hw hc hR budget
    simp only [Progress.turn, wait?_having, hw, Progress.spend, hb, hc]
    exact ⟨trivial, rfl, hR⟩
  | some remaining =>
    by_cases hd : budget + tolerance < remaining
    · obtain ⟨b', c', hb, hc', hR⟩ := h.advanceVoices budget p hR
      simp only [Progress.turn, wait?_having, hw, Progress.spend, hb, hc', hd, if_true,
        waited_having]
      refine ⟨trivial, rfl, .intro _ _ _ ((waited_identity ..).trans hp) ?_ hR⟩
      rw [← waited_having]
      exact (hc.having_of_wait (by simp [hw]) (by simp)).waited budget
    · obtain ⟨b', c', hb, hc', hR⟩ := h.advanceVoices (Scalar.clamp remaining 0 budget) p hR
      simp only [Progress.turn, wait?_having, hw, Progress.spend, hb, hc', hd, if_false]
      have hf :=
        h.fire hp (by simp [hw]) (hc.having_of_wait (by simp [hw]) (by simp)) fallback hR
      generalize Player.fire fallback _ b' = x at hf ⊢
      generalize Player.fire fallback _ c' = y at hf ⊢
      cases hf with
      | intro q held' loose hq hc hR =>
        refine ⟨trivial, rfl, ?_⟩
        have hR' : R (held'.toList ++ (fresh.map _ ++ loose.toList)) _ _ :=
          h.perm (List.perm_append_comm.append_left _) hR
        have ht := Together.intro q held' _ hq hc hR'
        simpa only [List.map_append, Option.toList_map] using ht

theorem turn (h : Abreast i.statement R) (fallback : α) {x : Progress α β} {y : Progress α γ}
    (hxy : Alongside i R x y) :
    (x.turn fallback).1 = (y.turn fallback).1 ∧
      Alongside i R (x.turn fallback).2 (y.turn fallback).2 := by
  obtain ⟨budget, px, fx, b⟩ := x
  obtain ⟨_, py, fy, c⟩ := y
  obtain ⟨rfl, ht⟩ := hxy
  cases ht with
  | intro p held fresh hp hc hR => exact h.turnFrom hp hc hR fallback budget rfl rfl

theorem run (h : Abreast i.statement R) (fallback : α) (turns : Nat) {x : Progress α β}
    {y : Progress α γ} (hxy : Alongside i R x y) :
    Alongside i R (x.run fallback turns) (y.run fallback turns) := by
  induction turns generalizing x y with
  | zero => exact hxy
  | succ turns ih =>
    have ht := h.turn fallback hxy
    unfold Progress.run
    revert ht
    generalize x.turn fallback = x'
    generalize y.turn fallback = y'
    obtain ⟨more, x'⟩ := x'
    obtain ⟨_, y'⟩ := y'
    rintro ⟨rfl, ht⟩
    cases more with
    | true => exact ih ht
    | false => exact ht

/-- A step of time keeps two players side by side. -/
theorem together_advance (h : Abreast i.statement R) (dt fallback : α) (hp : p.identity = i)
    (hc : (p.having (held.map Prod.fst)).Coherent) (hR : R held.toList b c) :
    Together i R ((p.having (held.map Prod.fst)).advance dt fallback b)
      ((p.having (held.map Prod.snd)).advance dt fallback c) := by
  have ht := Together.intro p held [] hp hc (by simpa using hR)
  exact (h.run fallback _ ⟨rfl, ht⟩).2

end Abreast

end Soundscape
