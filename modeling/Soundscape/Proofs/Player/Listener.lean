import Soundscape.Proofs.Player.Alone

/-!
# Listening to a backend

A `Listener` passes on to some backend all that it is asked, and keeps a list of the cues it has
heard and of the clips that could not be had.  So what a player does on any backend at all can be
told from what a listener there has heard: a property of single cues holds of all that are heard
if it holds of the cues of each operation on a voice (`Listener.Only`), and what was refused is not
forgotten (`Listener.alone_refused`).
-/

namespace Soundscape

/-- A backend that is listened to. -/
structure Listener (α β : Type) where
  backend : β
  heard : List (Cue α)
  refusals : List BackendError

namespace Listener

variable {α β : Type}

/-- A backend that is listened to from now on. -/
def on (b : β) : Listener α β := ⟨b, [], []⟩

def answered {A : Type} (l : Listener α β) (x : Except BackendError A × β) :
    Except BackendError A × Listener α β :=
  match x with
  | (.error e, b) => (.error e, { l with backend := b, refusals := l.refusals ++ [e] })
  | (.ok a, b) => (.ok a, { l with backend := b })

theorem heard_answered {A : Type} (l : Listener α β) (x : Except BackendError A × β) :
    (l.answered x).2.heard = l.heard := by
  obtain ⟨e | a, b⟩ := x <;> rfl

theorem refusals_of_error {A : Type} {l l' : Listener α β} {x : Except BackendError A × β}
    {e : BackendError} (h : l.answered x = (.error e, l')) :
    l'.refusals = l.refusals ++ [e] := by
  obtain ⟨f | a, b⟩ := x <;> cases h
  rfl

theorem refusals_of_ok {A : Type} {l l' : Listener α β} {x : Except BackendError A × β} {a : A}
    (h : l.answered x = (.ok a, l')) : l'.refusals = l.refusals := by
  obtain ⟨f | a, b⟩ := x <;> cases h
  rfl

variable [AudioBackend α β]

/-- The listener after a handle was told a cue. -/
def hear (l : Listener α β) (h : Handle) (c : Cue α) : Listener α β :=
  { l with backend := tell l.backend h c, heard := l.heard ++ [c] }

instance : AudioBackend α (Listener α β) where
  acquire l clip := l.answered (AudioBackend.acquire l.backend clip)
  loadClip l h clip := l.answered (AudioBackend.loadClip l.backend h clip)
  setVolume l h v := l.hear h (.setVolume v)
  setPitch l h v := l.hear h (.setPitch v)
  play l h looped := l.hear h (.play looped)
  stop l h := l.hear h .stop
  release l h := l.hear h .release
  clipLength l h := AudioBackend.clipLength l.backend h
  place l h p := l.hear h (.place p)

/-! ### What is heard -/

theorem tell_eq (l : Listener α β) (h : Handle) (c : Cue α) : tell l h c = l.hear h c := by
  cases c <;> rfl

theorem tellAll_eq (l : Listener α β) (h : Handle) (cs : List (Cue α)) :
    tellAll l h cs = { l with backend := tellAll l.backend h cs, heard := l.heard ++ cs } := by
  induction cs generalizing l with
  | nil => simp
  | cons c cs ih => simp [tell_eq, ih, hear]

@[simp] theorem heard_tellAll (l : Listener α β) (h : Handle) (cs : List (Cue α)) :
    (tellAll l h cs).heard = l.heard ++ cs := by
  rw [tellAll_eq]

@[simp] theorem refusals_tellAll (l : Listener α β) (h : Handle) (cs : List (Cue α)) :
    (tellAll l h cs).refusals = l.refusals := by
  rw [tellAll_eq]

theorem heard_acquire (l : Listener α β) (clip : String) :
    (AudioBackend.acquire l clip).2.heard = l.heard :=
  l.heard_answered _

theorem heard_kill (v : Voice α) (l : Listener α β) :
    (v.kill l).2.heard = l.heard ++ v.lastWords := by
  rw [Voice.kill_eq, heard_tellAll]

theorem refusals_kill (v : Voice α) (l : Listener α β) :
    (v.kill l).2.refusals = l.refusals := by
  rw [Voice.kill_eq, refusals_tellAll]

/-- A voice that is started again has given its handle back, or its clip cannot be had, or it plays
from its opening levels on. -/
theorem restart_cases [Scalar α] [Easing α] {clip : String} {volume : α} {pitch : Option α}
    {fadeIn : α} {v v' : Voice α} {x : Except BackendError Unit} {l l' : Listener α β}
    (h : v.restart clip volume pitch fadeIn l = (x, v', l')) :
    (v.isReleased ∧ (∃ e, x = .error e) ∧ v' = v ∧ l' = l) ∨
    (v.isReleased = false ∧ ∃ e, x = .error e ∧ v' = { v with pending := none } ∧
      l'.heard = l.heard ++ v.hush ∧ l'.refusals = l.refusals ++ [e]) ∨
    (v.isReleased = false ∧ x = .ok () ∧ v' = (v.reloaded clip volume pitch fadeIn).stepped 0 ∧
      l'.heard = l.heard ++ (v.hush ++
        ((v.reloaded clip volume pitch fadeIn).stepTells 0 ++ [.play false])) ∧
      l'.refusals = l.refusals) := by
  rw [Voice.restart_eq] at h
  cases hr : v.isReleased with
  | true =>
    rw [if_pos hr] at h
    cases h
    exact .inl ⟨rfl, ⟨_, rfl⟩, rfl, rfl⟩
  | false =>
    rw [if_neg (by simp [hr])] at h
    generalize hl : tellAll l v.handle v.hush = l₁ at h
    have hheard : l₁.heard = l.heard ++ v.hush := by rw [← hl, heard_tellAll]
    have hrefusals : l₁.refusals = l.refusals := by rw [← hl, refusals_tellAll]
    rcases hx : AudioBackend.loadClip l₁ v.handle clip with ⟨e | ⟨⟩, l₂⟩ <;> rw [hx] at h
    all_goals
      have hheard₂ : l₂.heard = l.heard ++ v.hush := by
        rw [← hheard, ← l₁.heard_answered (AudioBackend.loadClip l₁.backend v.handle clip)]
        exact congrArg (fun y => y.2.heard) hx.symm
      cases h
    · exact .inr (.inl ⟨rfl, e, rfl, rfl, hheard₂, hrefusals ▸ refusals_of_error hx⟩)
    · refine .inr (.inr ⟨rfl, rfl, rfl, ?_, ?_⟩)
      · rw [heard_tellAll, hheard₂, List.append_assoc]
      · rw [refusals_tellAll, ← hrefusals]
        exact refusals_of_ok hx

end Listener

/-! ### What was refused -/

theorem Listener.alone_refused {α β : Type} [AudioBackend α β] [Scalar α] [Easing α]
    (s : Statement α) (n : Nat) :
    Alone s fun (_ : List (Voice α)) (l : Listener α β) => n ≤ l.refusals.length where
  perm _ hn := hn
  advance {v vs l} dt hn := by rwa [refusals_tellAll]
  drop _ hn := hn
  fade _ _ _ hn := hn
  refused ha hn := by
    rw [refusals_of_error ha, List.length_append]
    exact Nat.le_add_right_of_le hn
  opening o _ ha hn := by rwa [refusals_tellAll, refusals_of_ok ha]
  restart _ _ hr hn := by
    obtain ⟨-, ⟨e, he⟩, -⟩ | ⟨-, e, he, -⟩ | ⟨-, -, -, -, hl⟩ := restart_cases hr
    · cases he
    · cases he
    · rwa [hl]
  giveUp _ _ hr hn := by
    rw [refusals_kill]
    obtain ⟨-, -, -, rfl⟩ | ⟨-, e, -, -, -, hl⟩ | ⟨-, he, -⟩ := restart_cases hr
    · exact hn
    · rw [hl, List.length_append]
      exact Nat.le_add_right_of_le hn
    · cases he

/-! ### Only certain cues -/

theorem Voice.mem_lastWords {α : Type} {v : Voice α} {c : Cue α} (h : c ∈ v.lastWords) :
    c = .stop ∨ c = .release := by
  cases hs : v.state with
  | playing => simpa [Voice.lastWords_of_isSounding, hs, VoiceState.isSounding] using h
  | fadingOut release => simpa [Voice.lastWords_of_isSounding, hs, VoiceState.isSounding] using h
  | stopped => exact .inr (by simpa [Voice.lastWords_of_stopped hs] using h)
  | released => simp [Voice.lastWords_of_isReleased, Voice.isReleased, hs] at h

theorem Voice.mem_hush {α : Type} {v : Voice α} {c : Cue α} (h : c ∈ v.hush) : c = .stop := by
  unfold Voice.hush at h
  split at h
  · cases h
  · exact List.mem_singleton.mp h

namespace Player

variable {α : Type} [Scalar α] [Easing α]

/-- A property of the voices of a statement that no operation ends, and that lets them tell their
handles certain cues only. -/
structure SaysOnly (s : Statement α) (Q : Voice α → Prop) (C : Cue α → Prop) : Prop where
  stop : C .stop
  release : C .release
  next : ∀ {v} (dt : α), Q v → Q (v.next dt) ∧ ∀ c ∈ v.tells dt, C c
  fade : ∀ {v} (delay length : α), v.state = .playing → Q v →
    Q (v.scheduleFadeOut delay length !s.isHeld)
  opened : ∀ (h : Handle) (clip : String) {o : Opening α}, MayOpen s o →
    Q (Player.opened h clip o) ∧ ∀ c ∈ overture h clip o (s.kind = .loop), C c
  again : ∀ {v clip volume pitch fadeIn}, s.isHeld →
    MayRestart s v.levels.movesPitch clip volume pitch fadeIn → Q v →
    Q ((v.reloaded clip volume pitch fadeIn).stepped 0) ∧
      ∀ c ∈ (v.reloaded clip volume pitch fadeIn).stepTells 0 ++ [.play false], C c

variable {β : Type} [AudioBackend α β] {s : Statement α} {Q : Voice α → Prop} {C : Cue α → Prop}

/-- The voices have the property, and only certain cues were heard. -/
def Heard (Q : Voice α → Prop) (C : Cue α → Prop) (vs : List (Voice α)) (l : Listener α β) : Prop :=
  (∀ v ∈ vs, Q v) ∧ ∀ c ∈ l.heard, C c

theorem SaysOnly.alone (h : SaysOnly s Q C) :
    Alone s (Heard Q C : List (Voice α) → Listener α β → Prop) where
  perm hp hR := ⟨fun v hv => hR.1 v (hp.mem_iff.mpr hv), hR.2⟩
  advance {v vs l} dt hR := by
    obtain ⟨hv, hvs⟩ := List.forall_mem_cons.mp hR.1
    obtain ⟨hn, ht⟩ := h.next dt hv
    refine ⟨List.forall_mem_cons.mpr ⟨hn, hvs⟩, ?_⟩
    rw [Listener.heard_tellAll]
    exact List.forall_mem_append.mpr ⟨hR.2, ht⟩
  drop _ hR := ⟨(List.forall_mem_cons.mp hR.1).2, hR.2⟩
  fade delay length hs hR := by
    obtain ⟨hv, hvs⟩ := List.forall_mem_cons.mp hR.1
    exact ⟨List.forall_mem_cons.mpr ⟨h.fade delay length hs hv, hvs⟩, hR.2⟩
  refused {vs l l' clip e} ha hR := by
    have hl := l.heard_acquire clip
    rw [ha] at hl
    exact ⟨hR.1, hl ▸ hR.2⟩
  opening {vs l l' clip k} o ho ha hR := by
    obtain ⟨hv, ht⟩ := h.opened k clip ho
    have hl := l.heard_acquire clip
    rw [ha] at hl
    refine ⟨List.forall_mem_cons.mpr ⟨hv, hR.1⟩, ?_⟩
    rw [Listener.heard_tellAll, hl]
    exact List.forall_mem_append.mpr ⟨hR.2, ht⟩
  restart {v v' vs l l' clip volume pitch fadeIn} hs hm hr hR := by
    obtain ⟨hv, hvs⟩ := List.forall_mem_cons.mp hR.1
    obtain ⟨hv', ht⟩ := h.again hs hm hv
    obtain ⟨-, ⟨e, he⟩, -⟩ | ⟨-, e, he, -⟩ | ⟨-, -, rfl, hl, -⟩ := Listener.restart_cases hr
    · cases he
    · cases he
    · refine ⟨List.forall_mem_cons.mpr ⟨hv', hvs⟩, ?_⟩
      rw [hl]
      refine List.forall_mem_append.mpr ⟨hR.2, List.forall_mem_append.mpr ⟨fun c hc => ?_, ht⟩⟩
      exact Voice.mem_hush hc ▸ h.stop
  giveUp {v v' vs l l' clip volume pitch fadeIn e} hs hm hr hR := by
    have hl : ∀ c ∈ l'.heard, C c := by
      obtain ⟨-, -, -, rfl⟩ | ⟨-, f, -, -, hl, -⟩ | ⟨-, he, -⟩ := Listener.restart_cases hr
      · exact hR.2
      · rw [hl]
        exact List.forall_mem_append.mpr ⟨hR.2, fun c hc => Voice.mem_hush hc ▸ h.stop⟩
      · cases he
    refine ⟨(List.forall_mem_cons.mp hR.1).2, ?_⟩
    rw [Listener.heard_kill]
    refine List.forall_mem_append.mpr ⟨hl, fun c hc => ?_⟩
    obtain rfl | rfl := Voice.mem_lastWords hc
    · exact h.stop
    · exact h.release

end Player

end Soundscape
