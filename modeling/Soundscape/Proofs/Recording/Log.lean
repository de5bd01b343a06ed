import Soundscape.Proofs.Recording.Channel

/-!
# The calls of a recording as its whole story

A recording keeps its calls and its live handles side by side.  The calls alone tell the live
handles (`Call.replay`), for each request either does nothing, or is counted as one on a handle that
is not live, or becomes one call and does what the call says (`Recording.Moves`).  So nothing is
missing from the calls, whatever the recording is asked for (`Recording.performAll_logged`).
-/

namespace Soundscape

open AudioBackend

variable {α : Type}

/-! ### Calls without the recording -/

namespace Call

def acquired? : Call α → Option Handle
  | .acquire h _ => some h
  | _ => none

/-- What a call does to the live handles. -/
def change : Call α → LiveHandles (HandleState α) → LiveHandles (HandleState α)
  | .acquire h clip, live => live ++ [(h, ⟨clip, none, none, false⟩)]
  | .loadClip h clip, live => live.update h fun s => { s with clip, playing := false }
  | .setVolume h v, live => live.update h fun s => { s with volume := some v }
  | .setPitch h v, live => live.update h fun s => { s with pitch := some v }
  | .play h _, live => live.update h fun s => { s with playing := true }
  | .stop h, live => live.update h fun s => { s with playing := false }
  | .release h, live => live.erase h
  | .place _ _, live => live

/-- The live handles after some calls, of which there were none before. -/
def replay (calls : List (Call α)) : LiveHandles (HandleState α) :=
  calls.foldl (fun live c => c.change live) []

theorem replay_concat (calls : List (Call α)) (c : Call α) :
    replay (calls ++ [c]) = c.change (replay calls) :=
  List.foldl_append

end Call

def Reply.handle? : Reply α → Option Handle
  | .handle h => some h
  | _ => none

theorem LiveHandles.update_id {A : Type} (live : LiveHandles A) (h : Handle) :
    live.update h id = live := by
  unfold update
  simp

namespace Recording

variable {r r' : Recording α} {given : Option Handle} {missed : Bool}

/-! ### One request -/

/-- The request is for a handle that is not live.  A clip that is missing is refused before the
handle is looked at, and who asks for a length does not count. -/
def misses (r : Recording α) : Request α → Bool
  | .acquire _ | .clipLength _ => false
  | .loadClip h clip => !r.missing.contains clip && !r.live.holds h
  | .setVolume h _ | .setPitch h _ | .play h _ | .stop h | .release h | .place h _ =>
    !r.live.holds h

/-- What a request can make of a recording: the handle that it gives, whether the handle that it is
for was not live, and the recording after it. -/
inductive Moves (r : Recording α) : Option Handle → Bool → Recording α → Prop where
  | nothing : Moves r none false r
  | missed : Moves r none true { r with stale := r.stale + 1 }
  | opened (clip : String) : Moves r (some r.nextHandle) false (r.opened clip)
  | called {c : Call α} : c.acquired? = none → r.live.holds c.handle →
      Moves r none false { r with live := c.change r.live, calls := r.calls.push c }

theorem moves_onLive {h : Handle} {c : Call α} {f : HandleState α → HandleState α}
    (hn : c.acquired? = none) (hc : c.handle = h) (hf : c.change r.live = r.live.update h f) :
    Moves r none (!r.live.holds h) (r.onLive h c f) := by
  subst hc
  unfold onLive
  cases hl : r.live.holds c.handle with
  | true =>
    rw [if_pos rfl, ← hf]
    exact .called hn hl
  | false => exact .missed

theorem moves_release (r : Recording α) (h : Handle) :
    Moves r none (!r.live.holds h) (r.release h) := by
  unfold release
  cases hl : r.live.holds h with
  | true => exact .called (c := .release h) rfl hl
  | false => exact .missed

theorem moves_perform (r : Recording α) (q : Request α) :
    Moves r (perform r q).1.handle? (r.misses q) (perform r q).2 := by
  cases q with
  | acquire clip =>
    unfold perform
    dsimp only
    rw [show AudioBackend.acquire r clip = _ from r.acquire_eq clip]
    split
    · next he =>
      split at he <;> cases he
      exact .opened clip
    · next he =>
      split at he <;> cases he
      exact .nothing
  | loadClip h clip =>
    have hload : AudioBackend.loadClip r h clip = r.loadClip h clip := rfl
    have hmoves : Moves r none (r.misses (.loadClip h clip)) (r.loadClip h clip).2 := by
      unfold misses loadClip
      dsimp only
      cases r.missing.contains clip with
      | true => exact .nothing
      | false =>
        exact moves_onLive (c := .loadClip h clip)
          (f := fun s => { s with clip, playing := false }) rfl rfl rfl
    unfold perform
    dsimp only
    rw [hload]
    generalize r.loadClip h clip = x at hmoves ⊢
    obtain ⟨e | ⟨⟩, r'⟩ := x
    · exact hmoves
    · exact hmoves
  | setVolume h v => exact moves_onLive (c := .setVolume h v) rfl rfl rfl
  | setPitch h v => exact moves_onLive (c := .setPitch h v) rfl rfl rfl
  | play h looped => exact moves_onLive (c := .play h looped) rfl rfl rfl
  | stop h => exact moves_onLive (c := .stop h) rfl rfl rfl
  | release h => exact r.moves_release h
  | place h p => exact moves_onLive (c := .place h p) rfl rfl (r.live.update_id h).symm
  | clipLength h => exact .nothing

/-! ### All requests -/

/-- The calls tell the live handles, each is for a handle that was live, and the handles that were
acquired have the numbers from one on. -/
structure Logged (r : Recording α) : Prop where
  live : Call.replay r.calls.toList = r.live
  target {before after : List (Call α)} {c : Call α} : r.calls.toList = before ++ c :: after →
    c.acquired? = none → (Call.replay before).holds c.handle
  acquired : r.calls.toList.filterMap Call.acquired? = (List.range r.acquired).map .nth

theorem logged_empty (len : α) (lens : List (String × α)) (missing : List String) :
    (empty len lens missing).Logged where
  live := rfl
  target h := absurd h (by simp [empty])
  acquired := rfl

theorem Logged.push (hr : r.Logged) {c : Call α} (hlive : r'.live = c.change r.live)
    (hcalls : r'.calls = r.calls.push c)
    (htarget : c.acquired? = none → r.live.holds c.handle)
    (hacquired : (List.range r'.acquired).map Handle.nth =
      (List.range r.acquired).map .nth ++ c.acquired?.toList) : r'.Logged := by
  have htoList : r'.calls.toList = r.calls.toList ++ [c] := by rw [hcalls, Array.toList_push]
  constructor
  · rw [htoList, Call.replay_concat, hr.live, hlive]
  · intro before after d hsplit hd
    rw [htoList] at hsplit
    -- the call is the last one, or it was there before
    obtain rfl | ⟨rest, last, rfl⟩ := after.eq_nil_or_concat
    · obtain ⟨rfl, h⟩ := List.append_inj' hsplit rfl
      obtain rfl := List.singleton_inj.mp h
      rw [hr.live]
      exact htarget hd
    · rw [List.concat_eq_append, ← List.cons_append, ← List.append_assoc] at hsplit
      exact hr.target (List.append_inj' hsplit rfl).1 hd
  · rw [htoList, List.filterMap_append, hr.acquired, hacquired]
    cases c <;> rfl

theorem Logged.moves (hr : r.Logged) (h : Moves r given missed r') : r'.Logged := by
  cases h with
  | nothing => exact hr
  | missed => exact ⟨hr.live, hr.target, hr.acquired⟩
  | opened clip =>
    refine hr.push (c := .acquire r.nextHandle clip) rfl rfl nofun ?_
    rw [opened_acquired, List.range_succ, List.map_append]
    rfl
  | @called c hn hl =>
    refine hr.push (c := c) rfl rfl (fun _ => hl) ?_
    rw [hn, Option.toList_none, List.append_nil]

theorem Logged.performAll (hr : r.Logged) (qs : List (Request α)) :
    (AudioBackend.performAll r qs).2.Logged := by
  induction qs generalizing r with
  | nil => exact hr
  | cons q qs ih => exact ih (hr.moves (r.moves_perform q))

/-- The handles that the calls of a recording acquired. -/
def acquisitions (r : Recording α) : List Handle := r.calls.toList.filterMap Call.acquired?

theorem Logged.acquisitions_nodup (hr : r.Logged) : r.acquisitions.Nodup := by
  rw [acquisitions, hr.acquired]
  exact List.Pairwise.map Handle.nth (fun _ _ h e => h (Handle.nth_inj.mp e)) List.nodup_range

theorem Moves.acquisitions (h : Moves r given missed r') :
    r'.acquisitions = r.acquisitions ++ given.toList := by
  have hpush (c : Call α) : (r.calls.push c).toList.filterMap Call.acquired? =
      r.acquisitions ++ c.acquired?.toList := by
    rw [Array.toList_push, List.filterMap_append]
    cases c <;> rfl
  cases h with
  | nothing | missed => exact (List.append_nil _).symm
  | opened clip => exact hpush (.acquire r.nextHandle clip)
  | @called c hn _ => exact (hpush c).trans (by rw [hn])

theorem acquisitions_performAll (r : Recording α) (qs : List (Request α)) :
    (performAll r qs).2.acquisitions =
      r.acquisitions ++ (performAll r qs).1.filterMap Reply.handle? := by
  induction qs generalizing r with
  | nil => exact (List.append_nil _).symm
  | cons q qs ih =>
    show (performAll (perform r q).2 qs).2.acquisitions =
      r.acquisitions ++ ((perform r q).1 :: (performAll (perform r q).2 qs).1).filterMap _
    rw [ih, (r.moves_perform q).acquisitions, List.append_assoc]
    cases h : (perform r q).1.handle? <;> simp [h]

/-- How many of some requests, made one after the other, are for a handle that is not live when it
is their turn. -/
def countMissed (r : Recording α) : List (Request α) → Nat
  | [] => 0
  | q :: qs => (r.misses q).toNat + countMissed (perform r q).2 qs

theorem Moves.stale (h : Moves r given missed r') : r'.stale = r.stale + missed.toNat := by
  cases h <;> rfl

theorem stale_performAll (r : Recording α) (qs : List (Request α)) :
    (performAll r qs).2.stale = r.stale + r.countMissed qs := by
  induction qs generalizing r with
  | nil => rfl
  | cons q qs ih =>
    show (performAll (perform r q).2 qs).2.stale =
      r.stale + ((r.misses q).toNat + (perform r q).2.countMissed qs)
    rw [ih, (r.moves_perform q).stale, Nat.add_assoc]

/-- Whatever a recording is asked for, on handles that are live or not: its calls alone tell its
live handles, every call but the acquiring ones is for a handle that the calls before it leave live,
the handles it gave are those of its calls and no two are the same, and its count is that of the
requests on handles that were not live. -/
theorem performAll_logged (len : α) (lens : List (String × α)) (missing : List String)
    (qs : List (Request α)) :
    let r := (performAll (empty len lens missing) qs).2
    Call.replay r.calls.toList = r.live ∧
      (∀ before c after, r.calls.toList = before ++ c :: after → c.acquired? = none →
        (Call.replay before).holds c.handle) ∧
      (performAll (empty len lens missing) qs).1.filterMap Reply.handle? = r.acquisitions ∧
      r.acquisitions.Nodup ∧
      r.stale = (empty len lens missing).countMissed qs := by
  have hr := (logged_empty len lens missing).performAll qs
  refine ⟨hr.live, fun _ _ _ h => hr.target h, ?_, hr.acquisitions_nodup, ?_⟩
  · exact (acquisitions_performAll (empty len lens missing) qs).symm
  · exact (stale_performAll (empty len lens missing) qs).trans (Nat.zero_add _)

end Recording

end Soundscape
