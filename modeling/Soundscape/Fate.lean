/-!
# Fates

A computation of the program need not come back: a draw that cannot be made aborts the program, and
a loop over doubles may go on for ever.  The definitions of this library all give a result, and so
beside each that draws or loops stands another that goes the same way and tells its fate.  Where the
fate is not `ok` the program has no result, and the one that is given stands for none.
-/

namespace Soundscape

/-- Why a computation does not come back. -/
inductive Failure where
  /-- A draw that cannot be made ends the program, and all that it plays with it. -/
  | aborted
  /-- A loop has used up its turns.  They suffice on exact fractions; on doubles the loop of the
  program goes on, and may never end. -/
  | exhausted
  deriving Repr, DecidableEq

abbrev Fate := Except Failure Unit

namespace Fate

def aborts : Fate → Bool
  | .error .aborted => true
  | _ => false

@[simp] theorem seq_eq_ok {x y : Fate} : (do x; y) = .ok () ↔ x = .ok () ∧ y = .ok () := by
  cases x with
  | error e => exact ⟨nofun, fun h => h.1⟩
  | ok u => exact ⟨fun h => ⟨rfl, h⟩, fun h => h.2⟩

@[simp] theorem forM_eq_ok {A : Type} {f : A → Fate} {xs : List A} :
    xs.forM f = .ok () ↔ ∀ x ∈ xs, f x = .ok () := by
  induction xs with
  | nil => exact ⟨fun _ => nofun, fun _ => rfl⟩
  | cons x xs ih =>
    show (do f x; xs.forM f) = .ok () ↔ _
    rw [seq_eq_ok, ih, List.forall_mem_cons]

/-! ### What does not abort -/

theorem aborts_of_eq_ok {x : Fate} (h : x = .ok ()) : x.aborts = false := by
  rw [h]
  rfl

theorem aborts_seq {x y : Fate} (hx : x.aborts = false) (hy : y.aborts = false) :
    aborts (do x; y) = false := by
  cases x with
  | error e => exact hx
  | ok u => exact hy

theorem aborts_forM {A : Type} {f : A → Fate} {xs : List A} (h : ∀ x ∈ xs, (f x).aborts = false) :
    aborts (xs.forM f) = false := by
  induction xs with
  | nil => rfl
  | cons x xs ih =>
    obtain ⟨hx, hxs⟩ := List.forall_mem_cons.mp h
    exact aborts_seq hx (ih hxs)

end Fate

end Soundscape
