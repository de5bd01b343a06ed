import Soundscape.Proofs.Voice.Cue

/-!
# How the fade-outs of a voice end

The fade-outs of one voice all end alike: those of a held voice leave it silent, all others give
the handle back.  `Voice.Fades` says so of a voice, together with what is easy to lose: a fade-out
is due only while the voice is playing.  Every operation keeps it (`Voice.Fades.next`,
`Voice.Fades.scheduleFadeOut`), and of a voice that keeps it `Voice.Fades.tells_cases` says all
that its handle can be told in a step of time.
-/

namespace Soundscape

namespace Voice

variable {α : Type}

/-- The fade-outs of the voice give the handle back, or leave it silent, as `release` says. -/
structure Fades (release : Bool) (v : Voice α) : Prop where
  /-- A fade-out is due only while the voice is playing. -/
  due : ∀ f, v.pending = some f → v.state = .playing ∧ f.release = release
  fading : ∀ r, v.state = .fadingOut r → r = release
  stopped : v.state = .stopped → release = false
  released : v.state = .released → release = true

namespace Fades

variable {release : Bool} {v : Voice α}

theorem of_playing (h : v.state = .playing)
    (hp : ∀ f, v.pending = some f → f.release = release) : v.Fades release where
  due f hf := ⟨h, hp f hf⟩
  fading r hr := by simp [h] at hr
  stopped hs := by simp [h] at hs
  released hs := by simp [h] at hs

variable [Scalar α]

theorem scheduleFadeOut (h : v.state = .playing) (delay length : α) :
    (v.scheduleFadeOut delay length release).Fades release :=
  of_playing h fun f hf => by
    rw [← Option.some.inj hf]

theorem fadeNow (hv : v.Fades release) {f : PendingFade α} (hf : f.release = release) :
    (v.fadeNow f).Fades release := by
  by_cases hs : v.state = .playing
  · rw [fadeNow_of_playing hs]
    exact ⟨by simp, fun r hr => by simp_all, by simp, by simp⟩
  · have he : v.fadeNow f = { v with pending := none } := by
      simp [Voice.fadeNow, beginFadeOut, hs]
    rw [he]
    exact ⟨by simp, hv.fading, hv.stopped, hv.released⟩

theorem fadeSooner (hv : v.Fades release) {f : PendingFade α} (hf : v.pending = some f) (dt : α) :
    (v.fadeSooner f dt).Fades release :=
  of_playing (hv.due f hf).1 fun g hg => by
    rw [← Option.some.inj hg]
    exact (hv.due f hf).2

variable [Easing α]

theorem stepped (hv : v.Fades release) (dt : α) : (v.stepped dt).Fades release := by
  obtain ⟨-, he, -⟩ | ⟨-, -, he, -⟩ | ⟨r, hs, -, he, -⟩ := v.stepped_cases dt
  · rw [he]
    exact ⟨hv.due, hv.fading, hv.stopped, hv.released⟩
  · rw [he]
    exact ⟨hv.due, hv.fading, hv.stopped, hv.released⟩
  · obtain rfl := hv.fading r hs
    rw [he]
    refine ⟨fun f hf => ?_, fun r' hr => ?_, fun hr => ?_, fun hr => ?_⟩
    · have := (hv.due f hf).1
      simp [hs] at this
    · cases r <;> simp [VoiceState.afterFade] at hr
    · cases r <;> simp [VoiceState.afterFade] at hr ⊢
    · cases r <;> simp [VoiceState.afterFade] at hr ⊢

theorem next (hv : v.Fades release) (dt : α) : (v.next dt).Fades release := by
  obtain ⟨-, he, -⟩ | ⟨-, -, he, -⟩ | ⟨f, _, _, -, hf, -, -, -, he, -⟩ | ⟨f, -, hf, -, he, -⟩ :=
    v.next_cases dt <;> rw [he]
  · exact hv
  · exact hv.stepped _
  · exact ((hv.stepped _).fadeNow (hv.due f hf).2).stepped _
  · exact (hv.fadeSooner hf _).stepped _

theorem stepTells_cases (hv : v.Fades release) (dt : α) :
    (v.state.isSounding = false ∧ (v.stepped dt).state = v.state ∧ v.stepTells dt = []) ∨
    (v.state.isSounding ∧ ∃ ws : List (Cue α), (∀ c ∈ ws, c.isWrite) ∧
      ((v.stepped dt).state = v.state ∧ v.stepTells dt = ws ∨
        (v.stepped dt).state = .afterFade release ∧
          v.stepTells dt = ws ++ Cue.farewell release)) := by
  obtain ⟨hs, he, ht⟩ | ⟨hs, -, he, ht⟩ | ⟨r, hs, -, he, ht⟩ := v.stepped_cases dt
  · exact .inl ⟨hs, by rw [he]; rfl, ht⟩
  · exact .inr ⟨hs, _, by simp [Cue.isWrite], .inl ⟨by rw [he]; rfl, ht⟩⟩
  · obtain rfl := hv.fading r hs
    refine .inr ⟨by rw [hs]; rfl, [.setVolume (v.shape dt).2.1, .setPitch (v.shape dt).2.2],
      by simp [Cue.isWrite], .inr ⟨by rw [he], by rw [ht]; rfl⟩⟩

/-- In a step of time a sounding voice writes levels, and may end a fade-out; any other voice is
left alone. -/
theorem tells_cases (hv : v.Fades release) (dt : α) :
    (v.state.isSounding = false ∧ (v.next dt).state = v.state ∧ v.tells dt = []) ∨
    (v.state.isSounding ∧ ∃ ws : List (Cue α), (∀ c ∈ ws, c.isWrite) ∧
      ((v.next dt).state.isSounding ∧ v.tells dt = ws ∨
        (v.next dt).state = .afterFade release ∧
          v.tells dt = ws ++ Cue.farewell release)) := by
  obtain ⟨hr, he, ht⟩ | ⟨-, -, he, ht⟩ | ⟨f, before, rest, -, hf, -, -, -, he, ht⟩ |
      ⟨f, -, hf, -, he, ht⟩ := v.next_cases dt <;> rw [he, ht]
  · have hs : v.state = .released := by simpa [isReleased] using hr
    exact .inl ⟨by simp [hs, VoiceState.isSounding], rfl, rfl⟩
  · obtain h | ⟨hs, ws, hws, h | h⟩ := hv.stepTells_cases (Scalar.larger dt 0)
    · exact .inl h
    · exact .inr ⟨hs, ws, hws, .inl ⟨by rw [h.1]; exact hs, h.2⟩⟩
    · exact .inr ⟨hs, ws, hws, .inr h⟩
  · have hp : v.state = .playing := (hv.due f hf).1
    have hp' : (v.stepped before).state = .playing := stepped_state_of_playing hp before
    have hv' := (hv.stepped before).fadeNow (hv.due f hf).2
    have hs' : ((v.stepped before).fadeNow f).state.isSounding := by
      rw [fadeNow_of_playing hp']
      rfl
    refine .inr ⟨by simp [hp, VoiceState.isSounding], ?_⟩
    obtain ⟨hn, -⟩ | ⟨-, ws, hws, h⟩ := hv'.stepTells_cases rest
    · simp [hs'] at hn
    · refine ⟨v.stepTells before ++ ws, ?_, ?_⟩
      · rw [stepTells_of_playing hp]
        simpa [Cue.isWrite, or_imp, forall_and] using hws
      · obtain ⟨h, ht⟩ | ⟨h, ht⟩ := h
        · exact .inl ⟨by rw [h]; exact hs', by rw [ht]⟩
        · exact .inr ⟨h, by rw [ht, List.append_assoc]⟩
  · have hp : v.state = .playing := (hv.due f hf).1
    have hv' := hv.fadeSooner hf (Scalar.larger dt 0)
    refine .inr ⟨by simp [hp, VoiceState.isSounding], ?_⟩
    have hs' : (v.fadeSooner f (Scalar.larger dt 0)).state.isSounding := by
      simp [Voice.fadeSooner, hp, VoiceState.isSounding]
    obtain ⟨hn, -⟩ | ⟨-, ws, hws, h⟩ := hv'.stepTells_cases (Scalar.larger dt 0)
    · simp [hs'] at hn
    · refine ⟨ws, hws, h.imp (fun h => ⟨by rw [h.1]; exact hs', h.2⟩) id⟩

end Fades

end Voice

end Soundscape
