import Soundscape.Script.Document

/-!
# Scripts with some lines made blank

A line that is made blank has no content any more, and all other content lines keep their numbers
(`Line.ofSource_blank`).  What the remaining lines give depends on the context that the lines before
them leave (`Context.reads_append`).
-/

namespace Soundscape

/-! ## Blank lines -/

/-- The text without the characters of the marked lines; its first line has the given number. -/
def Text.blank (marked : Nat → Bool) (n : Nat) : List Char → List Char
  | [] => []
  | c :: cs =>
    if c = '\n' then c :: blank marked (n + 1) cs
    else if marked n then blank marked n cs
    else c :: blank marked n cs

theorem Text.pieces_cons_of_not {p : Char → Bool} {c : Char} {cs first : List Char}
    {rest : List (List Char)} (hc : ¬ p c) (h : pieces p cs = first :: rest) :
    pieces p (c :: cs) = (c :: first) :: rest := by
  rw [pieces, if_neg hc, h]

theorem Text.pieces_blank (marked : Nat → Bool) (n : Nat) (cs : List Char) :
    pieces (· == '\n') (blank marked n cs) =
      (pieces (· == '\n') cs).mapIdx fun i raw => if marked (n + i) then [] else raw := by
  induction cs generalizing n with
  | nil => simp [blank, pieces]
  | cons c cs ih =>
    rw [blank]
    by_cases hc : c = '\n'
    · -- the next line begins, so its number is one more
      have hp : (c == '\n') = true := by simpa using hc
      rw [if_pos hc, pieces, pieces, if_pos hp, if_pos hp, ih, List.mapIdx_cons, ite_self]
      simp only [Nat.add_assoc, Nat.add_comm 1]
    · have hp : ¬ (c == '\n') = true := by simpa using hc
      obtain ⟨first, rest, hcs⟩ : ∃ first rest, pieces (· == '\n') cs = first :: rest :=
        List.exists_cons_of_ne_nil (pieces_ne_nil _ cs)
      have hblank := ih n
      rw [hcs, List.mapIdx_cons, Nat.add_zero] at hblank
      rw [if_neg hc, pieces_cons_of_not (p := (· == '\n')) hp hcs, List.mapIdx_cons, Nat.add_zero]
      by_cases hm : marked n
      · rw [if_pos hm] at hblank
        rw [if_pos hm, if_pos hm, hblank]
      · rw [if_neg hm] at hblank
        rw [if_neg hm, if_neg hm, pieces_cons_of_not (p := (· == '\n')) hp hblank]

namespace Line

theorem number_of_ofRaw? {n : Nat} {raw : List Char} {l : Line} (h : ofRaw? n raw = some l) :
    l.number = n := by
  unfold ofRaw? at h
  dsimp only at h
  split at h <;> cases h
  rfl

@[simp] theorem ofRaw?_nil (n : Nat) : ofRaw? n [] = none := rfl

theorem ofRaws_blank (marked : Nat → Bool) (n : Nat) (raws : List (List Char)) :
    ofRaws n (raws.mapIdx fun i raw => if marked (n + i) then [] else raw) =
      (ofRaws n raws).filter fun l => !marked l.number := by
  induction raws generalizing n with
  | nil => rfl
  | cons raw rest ih =>
    have hrest := ih (n + 1)
    simp only [Nat.add_assoc, Nat.add_comm 1] at hrest
    rw [List.mapIdx_cons, ofRaws, ofRaws, List.filter_append, hrest, Nat.add_zero]
    congr 1
    cases hl : ofRaw? n raw with
    | none => split <;> simp [hl]
    | some l =>
      have hn := number_of_ofRaw? hl
      split
      · next hm => simp [hn, hm]
      · next hm => simp [hn, hm, hl]

theorem le_number_of_mem_ofRaws {n : Nat} {raws : List (List Char)} {l : Line}
    (h : l ∈ ofRaws n raws) : n ≤ l.number := by
  induction raws generalizing n with
  | nil => cases h
  | cons raw rest ih =>
    rw [ofRaws, List.mem_append, Option.mem_toList] at h
    obtain h | h := h
    · exact Nat.le_of_eq (number_of_ofRaw? h).symm
    · exact Nat.le_of_succ_le (ih h)

theorem pairwise_ofRaws (n : Nat) (raws : List (List Char)) :
    (ofRaws n raws).Pairwise fun l m => l.number < m.number := by
  induction raws generalizing n with
  | nil => exact .nil
  | cons raw rest ih =>
    rw [ofRaws, List.pairwise_append]
    refine ⟨?_, ih (n + 1), ?_⟩
    · cases ofRaw? n raw with
      | none => exact .nil
      | some l => exact List.pairwise_singleton _ l
    · intro l hl m hm
      rw [number_of_ofRaw? (Option.mem_toList.mp hl)]
      exact le_number_of_mem_ofRaws hm

def blank (ls : List Line) (source : String) : String :=
  String.ofList (Text.blank (fun n => ls.any (·.number == n)) 1 source.toList)

theorem ofSource_blank_eq_filter (ls : List Line) (source : String) :
    ofSource (blank ls source).toList =
      (ofSource source.toList).filter fun l => !ls.any (·.number == l.number) := by
  unfold blank ofSource
  rw [String.toList_ofList, Text.pieces_blank, ofRaws_blank fun n => ls.any (·.number == n)]

/-- Without the lines that are made blank, the content lines are the same. -/
theorem ofSource_blank {source : String} {before ls after : List Line}
    (h : ofSource source.toList = before ++ ls ++ after) :
    ofSource (blank ls source).toList = before ++ after := by
  have hsource : (before ++ ls ++ after).Pairwise fun l m => l.number < m.number :=
    h ▸ pairwise_ofRaws 1 _
  obtain ⟨hleft, -, hright⟩ := List.pairwise_append.mp hsource
  have hbefore := (List.pairwise_append.mp hleft).2.2
  -- no two lines have the same number, so only the given ones are marked
  have hkeep (l : Line) (hl : ∀ m ∈ ls, m.number ≠ l.number) :
      (!ls.any (·.number == l.number)) = true := by
    simpa using hl
  have hdrop (l : Line) (hl : l ∈ ls) : ¬ (!ls.any (·.number == l.number)) = true := by
    simpa using ⟨l, hl, rfl⟩
  rw [ofSource_blank_eq_filter, h, List.filter_append, List.filter_append,
    List.filter_eq_nil_iff.mpr hdrop, List.filter_eq_self.mpr, List.filter_eq_self.mpr,
    List.append_nil]
  · intro l hl
    exact hkeep l fun m hm => Nat.ne_of_lt (hright m (List.mem_append_right _ hm) l hl)
  · intro l hl
    exact hkeep l fun m hm => Nat.ne_of_gt (hbefore l hl m hm)

end Line

/-! ## Reading on -/

namespace Context

variable {α : Type} [Scalar α] (strict : Bool) (c : Context α)

/-- What lines give after others that left a context, when the script ends with them. -/
def reads (ls : List Line) : Findings α := (run strict c ls).2 ++ (run strict c ls).1.close

theorem reads_cons (l : Line) (ls : List Line) :
    reads strict c (l :: ls) = (step strict c l).2 ++ reads strict (step strict c l).1 ls :=
  Findings.append_assoc _ _ _

theorem reads_append (as bs : List Line) :
    reads strict c (as ++ bs) = (run strict c as).2 ++ reads strict (run strict c as).1 bs := by
  unfold reads
  rw [run_append, Findings.append_assoc]

end Context

theorem readScript_of_lines {α : Type} [Scalar α] (strict : Bool) {source : String}
    {before ls : List Line} (h : Line.ofSource source.toList = before ++ ls) :
    readScript strict source =
      (Context.run strict (.top .none : Context α) before).2 ++
        Context.reads strict (Context.run strict (.top .none) before).1 ls := by
  unfold readScript
  rw [h]
  exact Context.reads_append strict (.top .none) before ls

end Soundscape
