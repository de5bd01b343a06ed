import Soundscape.Proofs.Player.Firing
import Soundscape.Proofs.Recording.Channel

/-!
# The life of a handle

What is done with a handle follows one pattern: it is acquired, placed and played; a held voice may
stop it, give it another clip and play it again, as often as it fires; in the end it is stopped and
released.  `Word` is this pattern with the updates of levels in it, and says where they may stand:

* `Word.signals`: the calls that are more than updates of levels;
* `Word.deeds`: who gives a handle another clip, and who plays it over and over;
* `Word.audible_welltimed`: when levels are updated;
* `Word.protocol`: all of this together.
-/

namespace Soundscape

/-- Where a handle is in its life. -/
inductive Stage where
  | sounding
  | silent
  | ended
  deriving Repr, DecidableEq

/-- Where the handle of a voice in the state is in its life. -/
@[simp] def VoiceState.stage : VoiceState → Stage
  | playing | fadingOut _ => .sounding
  | stopped => .silent
  | released => .ended

variable {α : Type}

/-- Whether a statement can ask for a clip that is missing. -/
def Statement.Lacks (s : Statement α) (missing : List String) : Prop :=
  ∃ clip ∈ missing, Clip.Names s.clip clip

/-- What can be done with the handle of a statement's voice, up to a point in its life. -/
inductive Word (s : Statement α) (missing : List String) : Stage → List (Deed α) → Prop
  | opening (clip : String) (placement : Placement α) (volume pitch : α) :
      Word s missing .sounding [.acquire clip, .told (.place placement), .told (.setVolume volume),
        .told (.setPitch pitch), .told (.play (s.kind = .loop))]
  | writes {ds : List (Deed α)} {ws : List (Cue α)} : Word s missing .sounding ds →
      (∀ c ∈ ws, c.isWrite) → Word s missing .sounding (ds ++ ws.map .told)
  | stop {ds : List (Deed α)} : Word s missing .sounding ds →
      Word s missing .silent (ds ++ [.told .stop])
  | again {ds : List (Deed α)} (clip : String) (volume pitch : α) : s.isHeld →
      Word s missing .silent ds →
      Word s missing .sounding (ds ++ [.loadClip clip, .told (.setVolume volume),
        .told (.setPitch pitch), .told (.play false)])
  | release {ds : List (Deed α)} : Word s missing .silent ds →
      Word s missing .ended (ds ++ [.told .release])
  /-- A sounding handle whose next clip is missing is stopped twice. -/
  | giveUp {ds : List (Deed α)} : s.isHeld → s.Lacks missing → Word s missing .sounding ds →
      Word s missing .ended (ds ++ [.told .stop, .told .stop, .told .release])

/-- A call that is more than an update of a level, as far as the protocol is concerned. -/
inductive Signal where
  | acquire
  | place
  | play (looped : Bool)
  | loadClip
  | stop
  | release
  deriving Repr, DecidableEq

/-- The part of a deed in the protocol, unless it updates a level. -/
def Deed.signal? : Deed α → Option Signal
  | .acquire _ => some .acquire
  | .loadClip _ => some .loadClip
  | .told (.play looped) => some (.play looped)
  | .told .stop => some .stop
  | .told .release => some .release
  | .told (.place _) => some .place
  | .told (.setVolume _) | .told (.setPitch _) => none

def Deed.signals (ds : List (Deed α)) : List Signal := ds.filterMap Deed.signal?

namespace Signal

/-- A handle that plays, after it was started again some number of times. -/
def playing (looped : Bool) (again : Nat) : List Signal :=
  [.acquire, .place, .play looped] ++ (List.replicate again [.stop, .loadClip, .play false]).flatten

theorem playing_succ (looped : Bool) (again : Nat) :
    playing looped (again + 1) = playing looped again ++ [.stop, .loadClip, .play false] := by
  simp [playing, List.replicate_succ']

end Signal

namespace Deed

@[simp] theorem signals_append (ds es : List (Deed α)) :
    signals (ds ++ es) = signals ds ++ signals es :=
  List.filterMap_append

theorem signals_writes {ws : List (Cue α)} (h : ∀ c ∈ ws, c.isWrite) :
    signals (ws.map .told) = [] := by
  simp only [signals, List.filterMap_map, List.filterMap_eq_nil_iff]
  intro c hc
  have := h c hc
  cases c <;> simp_all [Cue.isWrite, signal?]

end Deed

namespace Word

variable {s : Statement α} {missing : List String} {stage : Stage} {ds : List (Deed α)}

theorem mono {missing' : List String} (hm : missing ⊆ missing') (h : Word s missing stage ds) :
    Word s missing' stage ds := by
  induction h with
  | opening clip placement volume pitch => exact .opening clip placement volume pitch
  | writes _ hw ih => exact ih.writes hw
  | stop _ ih => exact ih.stop
  | again clip volume pitch hs _ ih => exact ih.again clip volume pitch hs
  | release _ ih => exact ih.release
  | giveUp hs hl _ ih => exact ih.giveUp hs (hl.imp fun clip hc => ⟨hm hc.1, hc.2⟩)

/-- The calls on a handle that are more than updates of levels. -/
theorem signals (h : Word s missing stage ds) :
    ∃ n, (s.isHeld = false → n = 0) ∧
      match stage with
      | .sounding => Deed.signals ds = Signal.playing (s.kind = .loop) n
      | .silent => Deed.signals ds = Signal.playing (s.kind = .loop) n ++ [.stop]
      | .ended =>
        Deed.signals ds = Signal.playing (s.kind = .loop) n ++ [.stop, .release] ∨
        (s.isHeld ∧ s.Lacks missing ∧
          Deed.signals ds = Signal.playing (s.kind = .loop) n ++ [.stop, .stop, .release]) := by
  induction h with
  | opening clip placement volume pitch => exact ⟨0, fun _ => rfl, rfl⟩
  | writes h hw ih =>
    obtain ⟨n, hn, ih⟩ := ih
    exact ⟨n, hn, by simpa [Deed.signals_writes hw] using ih⟩
  | stop h ih =>
    obtain ⟨n, hn, ih⟩ := ih
    refine ⟨n, hn, ?_⟩
    simp only [Deed.signals_append, ih]
    rfl
  | again clip volume pitch hs h ih =>
    obtain ⟨n, hn, ih⟩ := ih
    refine ⟨n + 1, by simp [hs], ?_⟩
    simp only [Deed.signals_append, ih, Signal.playing_succ, List.append_assoc]
    rfl
  | release h ih =>
    obtain ⟨n, hn, ih⟩ := ih
    refine ⟨n, hn, .inl ?_⟩
    simp only [Deed.signals_append, ih, List.append_assoc]
    rfl
  | giveUp hs hm h ih =>
    obtain ⟨n, hn, ih⟩ := ih
    refine ⟨n, hn, .inr ⟨hs, hm, ?_⟩⟩
    simp only [Deed.signals_append, ih]
    rfl

/-! ### Single deeds -/

/-- Only a held voice is given another clip, and only a loop is played over and over. -/
theorem deeds (h : Word s missing stage ds) :
    (∀ clip, .loadClip clip ∈ ds → s.isHeld) ∧
      ∀ looped, .told (.play looped) ∈ ds → looped = (s.kind = .loop : Bool) := by
  induction h with
  | opening clip placement volume pitch => simp
  | writes h hw ih =>
    refine ⟨fun clip hc => ih.1 clip (by simpa using hc), fun looped hl => ?_⟩
    rcases List.mem_append.mp hl with hl | hl
    · exact ih.2 looped hl
    · obtain ⟨c, hc, he⟩ := List.mem_map.mp hl
      cases he
      simp [Cue.isWrite] at hw
      exact absurd (hw _ hc) (by simp)
  | stop h ih => simpa using ih
  | again clip volume pitch hs h ih =>
    have hk : s.kind ≠ .loop := by simp [(Statement.isHeld_iff.mp hs).1]
    refine ⟨fun _ _ => hs, fun looped hl => ?_⟩
    simp at hl
    rcases hl with hl | hl
    · exact ih.2 looped hl
    · simpa [hk] using hl
  | release h ih => simpa using ih
  | giveUp hs hm h ih => simpa using ih

end Word

/-! ### Updates of levels -/

namespace Deed

/-- Whether the handle is in place, not released, and given another clip since it was last
stopped. -/
structure Audible (ds : List (Deed α)) : Prop where
  placed : ∃ p, .told (.place p) ∈ ds
  unreleased : .told .release ∉ ds
  unstopped : ∀ xs ys, ds = xs ++ .told .stop :: ys → ∃ clip, .loadClip clip ∈ ys

/-- Levels are updated only while the handle is audible. -/
def Welltimed (ds : List (Deed α)) : Prop :=
  ∀ xs c ys, ds = xs ++ .told c :: ys → c.isWrite → Audible xs

variable {ds : List (Deed α)}

theorem Audible.concat (h : Audible ds) {d : Deed α} (hs : d ≠ .told .stop)
    (hr : d ≠ .told .release) : Audible (ds ++ [d]) where
  placed := h.placed.imp fun p hp => List.mem_append_left _ hp
  unreleased := by simpa [h.unreleased] using hr.symm
  unstopped xs ys he := by
    obtain rfl | ⟨ys, y, rfl⟩ := ys.eq_nil_or_concat
    · have := List.append_inj_right' he rfl
      simp_all
    · have he' : ds ++ [d] = (xs ++ .told .stop :: ys) ++ [y] := by simpa using he
      obtain ⟨clip, hc⟩ := h.unstopped xs ys (List.append_inj_left' he' rfl)
      exact ⟨clip, by simp [hc]⟩

theorem audible_loadClip (hp : ∃ p, .told (.place p) ∈ ds) (hr : .told .release ∉ ds)
    (clip : String) : Audible (ds ++ [.loadClip clip]) where
  placed := hp.imp fun p hp => List.mem_append_left _ hp
  unreleased := by simpa using hr
  unstopped xs ys he := by
    obtain rfl | ⟨ys, y, rfl⟩ := ys.eq_nil_or_concat
    · have := List.append_inj_right' he rfl
      simp at this
    · have he' : ds ++ [.loadClip clip] = (xs ++ .told .stop :: ys) ++ [y] := by simpa using he
      have hy := List.append_inj_right' he' rfl
      exact ⟨clip, by simp_all⟩

theorem Welltimed.concat (h : Welltimed ds) {d : Deed α}
    (hd : ∀ c, d = .told c → c.isWrite → Audible ds) : Welltimed (ds ++ [d]) := by
  intro xs c ys he hc
  obtain rfl | ⟨ys, y, rfl⟩ := ys.eq_nil_or_concat
  · obtain rfl := List.append_inj_left' he rfl
    have := List.append_inj_right' he rfl
    exact hd c (by simpa using this) hc
  · have he' : ds ++ [d] = (xs ++ .told c :: ys) ++ [y] := by simpa using he
    exact h xs c ys (List.append_inj_left' he' rfl) hc

theorem Audible.append (h : Audible ds) (hw : Welltimed ds) (es : List (Deed α))
    (he : ∀ e ∈ es, e ≠ .told .stop ∧ e ≠ .told .release) :
    Audible (ds ++ es) ∧ Welltimed (ds ++ es) := by
  induction es generalizing ds with
  | nil => simpa using ⟨h, hw⟩
  | cons e es ih =>
    obtain ⟨⟨hs, hr⟩, he⟩ := List.forall_mem_cons.mp he
    simpa using ih (h.concat hs hr) (hw.concat fun _ _ _ => h) he

theorem Welltimed.append (h : Welltimed ds) (es : List (Deed α))
    (he : ∀ c, .told c ∈ es → c.isWrite = false) : Welltimed (ds ++ es) := by
  induction es generalizing ds with
  | nil => simpa using h
  | cons e es ih =>
    have hw := h.concat (d := e) fun c hc hw => by simp [he c (by simp [hc])] at hw
    simpa using ih hw fun c hc => he c (List.mem_cons_of_mem _ hc)

end Deed

/-- What may be done with the handle of a statement's voice, as seen from outside. -/
structure Protocol (s : Statement α) (missing : List String) (ds : List (Deed α)) : Prop where
  /-- The calls that are more than updates of levels follow the pattern, but for a sounding handle
  that is stopped twice as its next clip is missing. -/
  signals : ∃ n,
    Deed.signals ds <+: Signal.playing (s.kind = .loop) n ++ [.stop, .release] ∨
    (s.isHeld ∧ s.Lacks missing ∧
      Deed.signals ds = Signal.playing (s.kind = .loop) n ++ [.stop, .stop, .release])
  loads : ∀ clip, .loadClip clip ∈ ds → s.isHeld
  /-- A clip is played over and over exactly for a loop. -/
  plays : ∀ looped, .told (.play looped) ∈ ds → looped = (s.kind = .loop : Bool)
  /-- Levels are updated after the handle was placed and before it is released, and not between a
  stop and the next clip. -/
  levels : Deed.Welltimed ds

namespace Word

variable {s : Statement α} {missing : List String} {stage : Stage} {ds : List (Deed α)}

theorem audible_welltimed (h : Word s missing stage ds) :
    Deed.Welltimed ds ∧
      match stage with
      | .sounding => Deed.Audible ds
      | .silent => (∃ p, .told (.place p) ∈ ds) ∧ .told .release ∉ ds
      | .ended => True := by
  induction h with
  | opening clip placement volume pitch =>
    have hd (xs ys : List (Deed α)) (d : Deed α) :
        [.acquire clip, .told (.place placement)] = xs ++ d :: ys →
          d = .acquire clip ∨ d = .told (.place placement) := by
      intro he
      have : d ∈ xs ++ d :: ys := by simp
      simpa [← he] using this
    have ha : Deed.Audible [.acquire clip, .told (.place placement)] :=
      ⟨⟨placement, by simp⟩, by simp, fun xs ys he => by simpa using hd xs ys _ he⟩
    have hw : Deed.Welltimed [.acquire clip, .told (.place placement)] := by
      intro xs c ys he hc
      obtain h | h := hd xs ys _ he <;> cases h
      simp [Cue.isWrite] at hc
    exact (ha.append hw [_, _, _] (by simp)).symm
  | writes h hw ih =>
    refine (ih.2.append ih.1 _ fun e he => ?_).symm
    obtain ⟨c, hc, rfl⟩ := List.mem_map.mp he
    have := hw c hc
    cases c <;> simp_all [Cue.isWrite]
  | stop h ih =>
    exact ⟨ih.1.append _ (by simp [Cue.isWrite]), by simpa using ⟨ih.2.placed, ih.2.unreleased⟩⟩
  | again clip volume pitch hs h ih =>
    have ha := Deed.audible_loadClip ih.2.1 ih.2.2 clip
    have := ha.append (ih.1.concat (by simp))
      [.told (.setVolume volume), .told (.setPitch pitch), .told (.play false)] (by simp)
    simpa using this.symm
  | release h ih => exact ⟨ih.1.append _ (by simp [Cue.isWrite]), trivial⟩
  | giveUp hs hm h ih => exact ⟨ih.1.append _ (by simp [Cue.isWrite]), trivial⟩

theorem protocol (h : Word s missing stage ds) : Protocol s missing ds := by
  obtain ⟨n, -, hw⟩ := h.signals
  refine ⟨⟨n, ?_⟩, h.deeds.1, h.deeds.2, h.audible_welltimed.1⟩
  cases stage with
  | sounding => exact .inl ⟨[.stop, .release], by rw [hw]⟩
  | silent => exact .inl ⟨[.release], by rw [hw, List.append_assoc]; rfl⟩
  | ended => exact hw.imp_left fun hw => ⟨[], by rw [hw, List.append_nil]⟩

theorem getLast_signals (h : Word s missing .ended ds) :
    (Deed.signals ds).getLast? = some .release := by
  obtain ⟨n, -, hw | ⟨-, -, hw⟩⟩ := h.signals <;> simp [hw]

end Word

end Soundscape
