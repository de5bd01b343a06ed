import Soundscape.Proofs.Player.Mirrored

/-!
# What becomes of a player does not depend on its handles

Whether a step of time comes back is decided by the draws of the player and of its voices, and not
by the handles they are on.  So two players side by side have one fate, if their voices are the same
but for their handles (`Abreast.advanceFate`), and with them a player on a recording that it shares
and on one of its own (`Mirrors.advanceFate_own`).
-/

namespace Soundscape

variable {α β γ : Type} [Scalar α]

namespace Voice

variable [Easing α]

theorem advanceFate_onHandle (k : Handle) (dt : α) (v : Voice α) :
    (v.onHandle k).advanceFate dt = v.advanceFate dt := rfl

end Voice

variable [Easing α] [AudioBackend α β] [AudioBackend α γ]

/-! ### Firing -/

namespace Player

variable {p : Player α} {b b' : β}

theorem openFate_of_error {e : BackendError}
    (h : AudioBackend.acquire b p.draws.1.1 = (.error e, b')) (andThen : Fate) :
    p.openFate b andThen = .ok () := by
  unfold draws at h
  unfold openFate
  generalize Clip.resolve p.statement.clip p.source = x at h ⊢
  obtain ⟨clip, source⟩ := x
  dsimp only at h ⊢
  rw [h]
  rfl

theorem openFate_of_ok {k : Handle} (h : AudioBackend.acquire b p.draws.1.1 = (.ok k, b'))
    (andThen : Fate) :
    p.openFate b andThen = (do
      openingFate p.statement
      Voice.startFate p.draws.2.1.2.1 p.draws.2.1.2.2.2
      andThen) := by
  unfold draws at h ⊢
  unfold openFate
  generalize Clip.resolve p.statement.clip p.source = x at h ⊢
  obtain ⟨clip, source⟩ := x
  dsimp only at h ⊢
  rw [h]
  rfl

theorem restartHeldFate_having (v : Voice α) :
    (p.having (some v)).restartHeldFate b = (do
      drawRestartFate p.statement v.levels.movesPitch
      let d := (p.drawsAgain v).1
      v.restartFate d.1 d.2.2.1 d.2.1 d.2.2.2 b (cycleFate p.statement)) := by
  unfold restartHeldFate drawsAgain
  dsimp only [having]

end Player

namespace Abreast

open Player

variable {s : Statement α} {i : Instance α} {R : List (Voice α × Voice α) → β → γ → Prop}
  {vs fresh : List (Voice α × Voice α)} {held : Option (Voice α × Voice α)} {b : β} {c : γ}
  {p : Player α}

/-- The voices side by side are the same but for their handles. -/
def Twins (R : List (Voice α × Voice α) → β → γ → Prop) : Prop :=
  ∀ {v w vs b c}, R ((v, w) :: vs) b c → w = v.onHandle w.handle

theorem advanceFate_voices (h : Abreast s R) (ht : Twins R) (hR : R vs b c) (dt : α) :
    (vs.map Prod.fst).forM (Voice.advanceFate dt) =
      (vs.map Prod.snd).forM (Voice.advanceFate dt) := by
  have hsame : ∀ x ∈ vs, x.1.advanceFate dt = x.2.advanceFate dt := by
    intro x hx
    obtain ⟨ws, us, rfl⟩ := List.append_of_mem hx
    rw [ht (h.perm List.perm_middle hR), Voice.advanceFate_onHandle]
  clear hR
  induction vs with
  | nil => rfl
  | cons x vs ih =>
    obtain ⟨hx, hvs⟩ := List.forall_mem_cons.mp hsame
    show (do x.1.advanceFate dt; (vs.map Prod.fst).forM _) =
      (do x.2.advanceFate dt; (vs.map Prod.snd).forM _)
    rw [hx, ih hvs]

theorem openFate (h : Abreast s R) (hp : p.statement = s) (x y : Option (Voice α)) (hR : R vs b c)
    (andThen : Fate) : (p.having x).openFate b andThen = (p.having y).openFate c andThen := by
  subst hp
  obtain ⟨e, f, b', c', hb, hc, -⟩ | ⟨k, l, b', c', hb, hc, -⟩ :=
    h.opening p.draws.1.1 p.draws.2.1 p.mayOpen_draws hR
  · rw [openFate_of_error (p := p.having x) hb, openFate_of_error (p := p.having y) hc]
  · rw [openFate_of_ok (p := p.having x) hb, openFate_of_ok (p := p.having y) hc]
    rfl

theorem restartHeldFate (h : Abreast i.statement R) (ht : Twins R) (hp : p.identity = i)
    (hh : i.statement.isHeld) {v w : Voice α} (hR : R ((v, w) :: fresh) b c) :
    (p.having (some v)).restartHeldFate b = (p.having (some w)).restartHeldFate c := by
  have hn := statement_of_identity hp ▸ p.mayRestart_drawsAgain v
  have hw : w = v.onHandle w.handle := ht hR
  have hdraws : p.drawsAgain w = p.drawsAgain v := by
    rw [hw]
    rfl
  have hmoves : w.levels.movesPitch = v.levels.movesPitch := (h.movesPitch hR).symm
  have hreload : w.reloadFate = v.reloadFate := by
    rw [hw]
    rfl
  rw [restartHeldFate_having, restartHeldFate_having, hdraws, hmoves]
  dsimp only
  unfold Voice.restartFate
  obtain ⟨e, f, v', w', b', c', hb, hc, -⟩ | ⟨v', w', b', c', hb, hc, -⟩ :=
    h.restart (p.drawsAgain v).1.2.2.1 (p.drawsAgain v).1.2.1 (p.drawsAgain v).1.2.2.2 hh hn hR
  · rw [hb, hc]
  · rw [hb, hc, hreload]

theorem fireFate (h : Abreast i.statement R) (ht : Twins R) (hp : p.identity = i)
    (hR : R (held.toList ++ fresh) b c) :
    (p.having (held.map Prod.fst)).fireFate b = (p.having (held.map Prod.snd)).fireFate c := by
  have hopen (andThen : Fate) := h.openFate (statement_of_identity hp) (held.map Prod.fst)
    (held.map Prod.snd) hR andThen
  have hst := statement_of_identity hp
  unfold Player.fireFate
  dsimp only [having_statement, having_state]
  rw [hst]
  cases hk : i.statement.kind with
  | loop => exact hopen _
  | oneshot =>
    dsimp only
    by_cases he : i.statement.every.isSet
    · cases ho : i.statement.overlap with
      | true => simpa [he] using hopen _
      | false =>
        simp only [he, Bool.not_true, Bool.false_eq_true, if_false]
        split
        · exact hopen _
        · cases held with
          | none => rfl
          | some x => exact h.restartHeldFate ht hp (Statement.isHeld_iff.mpr ⟨hk, he, ho⟩) hR
    · simpa [he] using hopen _

/-! ### Steps of time -/

theorem spendFate (h : Abreast s R) (ht : Twins R) (hR : R (held.toList ++ fresh) b c)
    (budget dt : α) :
    Progress.spendFate ⟨budget, p.having (held.map Prod.fst), fresh.map Prod.fst, b⟩ dt =
      Progress.spendFate ⟨budget, p.having (held.map Prod.snd), fresh.map Prod.snd, c⟩ dt := by
  have hvoices := h.advanceFate_voices ht hR dt
  rw [List.map_append, List.map_append, ← Option.toList_map, ← Option.toList_map] at hvoices
  exact hvoices

theorem turnFateFrom (h : Abreast i.statement R) (ht : Twins R) (hp : p.identity = i)
    (hR : R (held.toList ++ fresh) b c) {budget : α} {x : Progress α β} {y : Progress α γ}
    (hx : x = ⟨budget, p.having (held.map Prod.fst), fresh.map Prod.fst, b⟩)
    (hy : y = ⟨budget, p.having (held.map Prod.snd), fresh.map Prod.snd, c⟩) :
    x.turnFate = y.turnFate := by
  subst hx hy
  have hspend (dt : α) := h.spendFate (p := p) ht hR budget dt
  cases hw : p.wait? with
  | none => simp only [Progress.turnFate, wait?_having, hw, hspend]
  | some remaining =>
    by_cases hd : budget + tolerance < remaining
    · simp only [Progress.turnFate, wait?_having, hw, hspend, hd, if_true]
    · obtain ⟨b', c', hb, hc', hR'⟩ := h.advanceVoices (Scalar.clamp remaining 0 budget) p hR
      simp only [Progress.turnFate, wait?_having, hw, hspend, hd, if_false, Progress.spend, hb,
        hc', h.fireFate ht hp hR']

theorem turnFate (h : Abreast i.statement R) (ht : Twins R) {x : Progress α β} {y : Progress α γ}
    (hxy : Alongside i R x y) : x.turnFate = y.turnFate := by
  obtain ⟨budget, px, fx, b⟩ := x
  obtain ⟨_, py, fy, c⟩ := y
  obtain ⟨rfl, hxy⟩ := hxy
  cases hxy with
  | intro p held fresh hp hc hR => exact h.turnFateFrom ht hp hR rfl rfl

theorem runFate (h : Abreast i.statement R) (ht : Twins R) (fallback : α) (turns : Nat)
    {x : Progress α β} {y : Progress α γ} (hxy : Alongside i R x y) :
    x.runFate fallback turns = y.runFate fallback turns := by
  induction turns generalizing x y with
  | zero => rfl
  | succ turns ih =>
    have hnext := h.turn fallback hxy
    unfold Progress.runFate
    rw [h.turnFate ht hxy]
    revert hnext
    generalize x.turn fallback = x'
    generalize y.turn fallback = y'
    obtain ⟨more, x'⟩ := x'
    obtain ⟨_, y'⟩ := y'
    rintro ⟨rfl, hnext⟩
    cases more with
    | true => simp only [ih hnext]
    | false => rfl

/-- A step of time has one fate for two players side by side. -/
theorem advanceFate (h : Abreast i.statement R) (ht : Twins R) (dt fallback : α)
    (hp : p.identity = i) (hc : (p.having (held.map Prod.fst)).Coherent)
    (hR : R held.toList b c) :
    (p.having (held.map Prod.fst)).advanceFate dt fallback b =
      (p.having (held.map Prod.snd)).advanceFate dt fallback c :=
  h.runFate ht fallback _ ⟨rfl, .intro p held [] hp hc (by simpa using hR)⟩

end Abreast

namespace Mirrors

variable {os : List (Instance α)} {b c : Recording α} {p : Player α}

/-- A step of time has one fate on a recording that a player shares and on one of its own. -/
theorem advanceFate_own (hm : Mirrors p.id os b c) (hc : p.Coherent)
    (ho : ∀ v ∈ p.voice, Owns os v.handle p.identity) (dt fallback : α) :
    (p.rename (renamed p.id os)).advanceFate dt fallback c = p.advanceFate dt fallback b := by
  obtain ⟨held, hfst, hsnd, hR⟩ := hm.mirrored ho
  have htwins : Abreast.Twins (Mirrored p.identity os) := fun h => by
    rw [h.head.2]
    rfl
  have hfate := Mirrored.abreast.advanceFate htwins dt fallback rfl (by rwa [hfst]) hR
  rw [hfst, hsnd] at hfate
  exact hfate.symm

end Mirrors

end Soundscape
