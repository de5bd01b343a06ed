import Mathlib.Data.List.Basic
import Mathlib.Data.List.TakeWhile
import Soundscape.Number.Numeral
import Soundscape.Text.Blank

/-!
# Parts of texts

Where a start, an end or a piece of a text is cut off, there is one place for the cut: the parts
are known from their characters and from the one next to the cut.
-/

namespace Soundscape

open Numeral (isDigit)

/-! ## Kinds of characters -/

theorem isAlpha_iff {c : Char} :
    c.isAlpha ↔ (65 ≤ c.toNat ∧ c.toNat ≤ 90) ∨ (97 ≤ c.toNat ∧ c.toNat ≤ 122) := by
  have halpha : c.isAlpha = (c.isUpper || c.isLower) := rfl
  have hupper : c.isUpper = decide (65 ≤ c.val ∧ c.val ≤ 90) := rfl
  have hlower : c.isLower = (decide (97 ≤ c.val) && decide (c.val ≤ 122)) := rfl
  simp [halpha, hupper, hlower, UInt32.le_iff_toNat_le, ← Char.toNat_val]

theorem isDigit_iff {c : Char} : isDigit c ↔ 48 ≤ c.toNat ∧ c.toNat ≤ 57 := by
  simp [isDigit, Char.le_def, UInt32.le_iff_toNat_le, ← Char.toNat_val]

theorem isBlank_eq_false {c : Char} (h : c.isAlpha ∨ isDigit c) : isBlank c = false := by
  have hn := h.imp isAlpha_iff.mp isDigit_iff.mp
  simp only [isBlank, Bool.or_eq_false_iff, Bool.and_eq_false_iff, decide_eq_false_iff_not,
    beq_eq_false_iff_ne]
  omega

theorem isDigit_eq_false {c : Char} (h : isBlank c) : isDigit c = false := by
  by_contra hdigit
  rw [isBlank_eq_false (.inr (by simpa using hdigit))] at h
  cases h

namespace Text

/-! ## The start of a text -/

theorem mem_head?_of_prefix {cs ds : List Char} (h : cs <+: ds) {c : Char} (hc : c ∈ cs.head?) :
    c ∈ ds.head? := by
  obtain ⟨rest, rfl⟩ := h
  rw [List.head?_append, Option.mem_def.mp hc]
  rfl

theorem takeWhile_append {p : Char → Bool} {cs ds : List Char} (hcs : ∀ c ∈ cs, p c)
    (hds : ∀ c ∈ ds.head?, p c = false) : (cs ++ ds).takeWhile p = cs := by
  rw [List.takeWhile_append_of_pos hcs]
  cases ds with
  | nil => simp
  | cons d ds => rw [List.takeWhile_cons_of_neg (by simp [hds d rfl]), List.append_nil]

theorem dropWhile_append {p : Char → Bool} {cs ds : List Char} (hcs : ∀ c ∈ cs, p c)
    (hds : ∀ c ∈ ds.head?, p c = false) : (cs ++ ds).dropWhile p = ds := by
  rw [List.dropWhile_append_of_pos hcs]
  cases ds with
  | nil => rfl
  | cons d ds => exact List.dropWhile_cons_of_neg (by simp [hds d rfl])

theorem head_dropWhile (p : Char → Bool) (cs : List Char) :
    ∀ c ∈ (cs.dropWhile p).head?, p c = false := fun c hc => by
  have hnot := List.head?_dropWhile_not p cs
  rwa [Option.mem_def.mp hc] at hnot

/-! ## The end of a text -/

theorem dropEnding_ending_iff {p : Char → Bool} {cs before after : List Char} :
    dropEnding p cs = before ∧ ending p cs = after ↔
      cs = before ++ after ∧ (∀ c ∈ after, p c) ∧ ∀ c ∈ before.getLast?, p c = false := by
  constructor
  · rintro ⟨rfl, rfl⟩
    refine ⟨(dropEnding_append_ending p cs).symm, fun c hc => ?_, fun c hc => ?_⟩
    · exact List.mem_takeWhile_imp (List.mem_reverse.mp hc)
    · rw [dropEnding, List.getLast?_reverse] at hc
      exact head_dropWhile _ _ c hc
  · rintro ⟨rfl, hafter, hbefore⟩
    have hafter' : ∀ c ∈ after.reverse, p c := fun c hc => hafter c (List.mem_reverse.mp hc)
    have hbefore' : ∀ c ∈ before.reverse.head?, p c = false := by rwa [List.head?_reverse]
    unfold dropEnding ending
    rw [List.reverse_append, takeWhile_append hafter' hbefore', dropWhile_append hafter' hbefore',
      List.reverse_reverse, List.reverse_reverse]
    exact ⟨rfl, rfl⟩

/-! ## Trimming -/

theorem mem_trim {cs : List Char} {c : Char} (h : c ∈ cs) (hc : isBlank c = false) :
    c ∈ trim cs := by
  have hblank {bs : List Char} : c ∉ bs.takeWhile isBlank := fun hmem => by
    rw [List.mem_takeWhile_imp hmem] at hc
    cases hc
  have hstart : c ∈ trimStart cs := by
    rw [← List.takeWhile_append_dropWhile (p := isBlank) (l := cs)] at h
    exact (List.mem_append.mp h).resolve_left hblank
  rw [← dropEnding_append_ending isBlank (trimStart cs)] at hstart
  exact (List.mem_append.mp hstart).resolve_right fun hmem => hblank (List.mem_reverse.mp hmem)

theorem trimEnd_append {cs after : List Char} (hafter : ∀ c ∈ after, isBlank c)
    (hlast : ∀ c ∈ cs.getLast?, isBlank c = false) : trimEnd (cs ++ after) = cs :=
  (dropEnding_ending_iff.mpr ⟨rfl, hafter, hlast⟩).1

theorem trim_append {before cs after : List Char} (hcs : cs ≠ [])
    (hbefore : ∀ c ∈ before, isBlank c) (hafter : ∀ c ∈ after, isBlank c)
    (hhead : ∀ c ∈ cs.head?, isBlank c = false) (hlast : ∀ c ∈ cs.getLast?, isBlank c = false) :
    trim (before ++ cs ++ after) = cs := by
  have hstart : trimStart (before ++ cs ++ after) = cs ++ after := by
    unfold trimStart
    rw [List.append_assoc]
    refine dropWhile_append hbefore fun c hc => hhead c ?_
    rwa [List.head?_append_of_ne_nil _ hcs] at hc
  rw [trim, hstart, trimEnd_append hafter hlast]

/-- A text without blanks is trimmed to itself, whatever blanks stand around it. -/
theorem trim_solid {before cs after : List Char} (hne : cs ≠ []) (hcs : ∀ c ∈ cs, isBlank c = false)
    (hbefore : ∀ c ∈ before, isBlank c) (hafter : ∀ c ∈ after, isBlank c) :
    trim (before ++ cs ++ after) = cs :=
  trim_append hne hbefore hafter (fun c hc => hcs c (List.mem_of_mem_head? hc))
    fun c hc => hcs c (List.mem_of_mem_getLast? hc)

/-! ## Pieces -/

theorem pieces_eq_splitOnP (p : Char → Bool) (cs : List Char) : pieces p cs = cs.splitOnP p := by
  induction cs with
  | nil => rfl
  | cons c cs ih =>
    rw [pieces, List.splitOnP_cons_eq_if_modifyHead, ← ih]
    split
    · rfl
    · cases hp : pieces p cs with
      | nil => exact absurd hp (pieces_ne_nil p cs)
      | cons first rest => rfl

theorem exists_mem_pieces {p : Char → Bool} {c : Char} {cs : List Char} (h : c ∈ cs)
    (hc : p c = false) : ∃ piece ∈ pieces p cs, c ∈ piece := by
  induction cs with
  | nil => cases h
  | cons d cs ih =>
    rw [pieces]
    obtain rfl | h := List.mem_cons.mp h
    · rw [if_neg (by simp [hc])]
      split <;> exact ⟨_, List.mem_cons_self, List.mem_cons_self⟩
    · obtain ⟨piece, hpiece, hmem⟩ := ih h
      split
      · exact ⟨piece, List.mem_cons_of_mem _ hpiece, hmem⟩
      · split
        · next hnil => exact absurd hnil (pieces_ne_nil p cs)
        · next first rest hp =>
          rw [hp] at hpiece
          obtain rfl | hpiece := List.mem_cons.mp hpiece
          · exact ⟨_, List.mem_cons_self, List.mem_cons_of_mem _ hmem⟩
          · exact ⟨piece, List.mem_cons_of_mem _ hpiece, hmem⟩

theorem pieces_append {p : Char → Bool} {c : Char} (hc : p c) (a b : List Char) :
    pieces p (a ++ c :: b) = pieces p a ++ pieces p b := by
  induction a with
  | nil => simp [pieces, hc]
  | cons d a ih =>
    rw [List.cons_append, pieces, pieces, ih]
    split
    · rfl
    · cases ha : pieces p a with
      | nil => exact absurd ha (pieces_ne_nil p a)
      | cons first rest => rfl

theorem length_pieces (p : Char → Bool) (cs : List Char) :
    (pieces p cs).length = cs.countP p + 1 := by
  induction cs with
  | nil => rfl
  | cons c cs ih =>
    rw [pieces, List.countP_cons]
    split
    · rw [List.length_cons, ih]
    · cases hp : pieces p cs with
      | nil => exact absurd hp (pieces_ne_nil p cs)
      | cons first rest => simpa [hp] using ih

/-! ## Sizes -/

theorem length_toList_le (s : String) : s.toList.length ≤ s.utf8ByteSize := by
  have hlength (cs : List Char) : cs.length ≤ (String.ofList cs).utf8ByteSize := by
    induction cs with
    | nil => exact Nat.zero_le _
    | cons c cs ih =>
      have := c.utf8Size_pos
      rw [List.length_cons, String.ofList_cons, String.utf8ByteSize_append,
        String.utf8ByteSize_singleton]
      omega
  simpa using hlength s.toList

end Text

end Soundscape
