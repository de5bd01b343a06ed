import Soundscape.Clip
import Soundscape.Proofs.Random.Drawn
import Soundscape.Proofs.Text.Parts

/-!
# What a clip reference stands for

The parts of a reference are described by what they look like: its alternatives
(`Clip.IsAlternative`), the last segment of a path (`Clip.LastSegment`) and the two numbers at the
end of a segment (`Clip.Numbered.Ends`).  Each description fits in one way at most and is what the
reader finds.  The paths that an alternative stands for (`Clip.StandsFor`) are then exactly those
that some random words resolve it to (`Clip.resolve_image`).
-/

namespace Soundscape

namespace Clip

open Numeral (isDigit natural)

/-! ## Alternatives -/

/-- A piece of a reference between bars, without blanks at its ends, if it is not blank. -/
def IsAlternative (reference a : List Char) : Prop :=
  a ≠ [] ∧ ∃ piece ∈ reference.splitOn '|', Text.trim piece = a

theorem mem_alternatives_iff {reference a : List Char} :
    a ∈ alternatives reference ↔ IsAlternative reference a := by
  unfold alternatives IsAlternative List.splitOn
  rw [List.mem_filter, List.mem_map, Text.pieces_eq_splitOnP, and_comm]
  simp

theorem alternatives_eq_nil_iff {reference : List Char} :
    alternatives reference = [] ↔ ¬ ∃ a, IsAlternative reference a := by
  simp only [List.eq_nil_iff_forall_not_mem, mem_alternatives_iff, not_exists]

theorem length_alternatives_le (reference : List Char) :
    (alternatives reference).length ≤ reference.length + 1 := by
  have hfilter := List.length_filter_le (fun a : List Char => !a.isEmpty)
    ((Text.pieces (· == '|') reference).map Text.trim)
  rw [List.length_map, Text.length_pieces] at hfilter
  have hcount := List.countP_le_length (p := (· == '|')) (l := reference)
  exact hfilter.trans (Nat.add_le_add_right hcount 1)

theorem not_isDigit_of_alternatives_eq_nil {reference : List Char}
    (h : alternatives reference = []) : ∀ c ∈ reference, isDigit c = false := by
  intro c hc
  by_contra hdigit
  rw [Bool.not_eq_false] at hdigit
  obtain ⟨piece, hpiece, hmem⟩ : ∃ piece ∈ Text.pieces (· == '|') reference, c ∈ piece :=
    Text.exists_mem_pieces hc (beq_false_of_ne (by rintro rfl; exact absurd hdigit (by decide)))
  have htrim : c ∈ Text.trim piece := Text.mem_trim hmem (isBlank_eq_false (.inr hdigit))
  have halternative : Text.trim piece ∈ alternatives reference := by
    unfold alternatives
    exact List.mem_filter.mpr
      ⟨List.mem_map_of_mem hpiece, by simpa using List.ne_nil_of_mem htrim⟩
  rw [h] at halternative
  cases halternative

/-! ## Segments that end in two numbers -/

/-- The directory of a path ends with the last `/`, and the segment is what comes after. -/
structure LastSegment (path dir segment : List Char) : Prop where
  eq : path = dir ++ segment
  segment : ∀ c ∈ segment, c ≠ '/'
  dir : ∀ c ∈ dir.getLast?, c = '/'

theorem splitPath_eq_iff {path dir segment : List Char} :
    splitPath path = (dir, segment) ↔ LastSegment path dir segment := by
  unfold splitPath
  rw [Prod.mk.injEq, Text.dropEnding_ending_iff]
  constructor
  · rintro ⟨heq, hsegment, hdir⟩
    exact ⟨heq, by simpa using hsegment, by simpa using hdir⟩
  · rintro ⟨heq, hsegment, hdir⟩
    exact ⟨heq, by simpa using hsegment, by simpa using hdir⟩

def joints : List (List Char) := [['.', '.'], ['t', 'o']]

theorem beforeJoint?_eq_some_iff {cs before : List Char} :
    beforeJoint? cs = some before ↔ ∃ joint ∈ joints, cs = before ++ joint := by
  have hreverse (joint : List Char) :
      cs = before ++ joint ↔ cs.reverse = joint.reverse ++ before.reverse := by
    rw [← List.reverse_append, List.reverse_inj]
  simp only [joints, hreverse, List.mem_cons, List.not_mem_nil, or_false, exists_eq_or_imp,
    exists_eq_left]
  unfold beforeJoint?
  split
  · next rest h => simp [h, List.reverse_eq_iff]
  · next rest h => simp [h, List.reverse_eq_iff]
  · next h h' =>
    simp only [reduceCtorEq, false_iff, not_or]
    exact ⟨h _, h' _⟩

/-- The segment ends in the two numbers, with a joint between them and blanks about it; the stem
leaves no digit of the first number out. -/
structure Numbered.Ends (x : Numbered) (segment : List Char) : Prop where
  eq : ∃ gap joint gap', joint ∈ joints ∧ (∀ c ∈ gap, isBlank c) ∧ (∀ c ∈ gap', isBlank c) ∧
    segment = x.stem ++ x.first ++ gap ++ joint ++ gap' ++ x.last
  stem : ∀ c ∈ x.stem.getLast?, isDigit c = false
  first : x.first ≠ [] ∧ ∀ c ∈ x.first, isDigit c
  last : x.last ≠ [] ∧ ∀ c ∈ x.last, isDigit c

theorem joints_solid : ∀ joint ∈ joints,
    joint ≠ [] ∧ joint.all fun c => !isDigit c && !isBlank c := by
  decide

theorem ends_of_numbered? {segment : List Char} {x : Numbered} (h : numbered? segment = some x) :
    x.Ends segment := by
  unfold numbered? at h
  dsimp only at h
  split at h
  · cases h
  next hlast =>
  obtain ⟨joined, hjoined, h⟩ := Option.bind_eq_some_iff.mp h
  split at h
  · cases h
  next hfirst =>
  cases h
  obtain ⟨joint, hjoint, hjoined⟩ := beforeJoint?_eq_some_iff.mp hjoined
  obtain ⟨hsegment, hlastdigits, -⟩ := Text.dropEnding_ending_iff.mp
    ⟨rfl (a := Text.dropEnding isDigit segment), rfl⟩
  obtain ⟨hrest', hgap', -⟩ := Text.dropEnding_ending_iff.mp
    ⟨rfl (a := Text.trimEnd (Text.dropEnding isDigit segment)), rfl⟩
  obtain ⟨hrest, hgap, -⟩ := Text.dropEnding_ending_iff.mp ⟨rfl (a := Text.trimEnd joined), rfl⟩
  obtain ⟨hstem, hfirstdigits, hstemend⟩ := Text.dropEnding_ending_iff.mp
    ⟨rfl (a := Text.dropEnding isDigit (Text.trimEnd joined)), rfl⟩
  refine ⟨⟨_, joint, _, hjoint, hgap, hgap', ?_⟩, hstemend, ⟨by simpa using hfirst, hfirstdigits⟩,
    ⟨by simpa using hlast, hlastdigits⟩⟩
  dsimp only
  rw [← hstem, ← hrest, ← hjoined, ← hrest', ← hsegment]

theorem numbered?_of_ends {segment : List Char} {x : Numbered} (h : x.Ends segment) :
    numbered? segment = some x := by
  obtain ⟨⟨gap, joint, gap', hjoint, hgap, hgap', rfl⟩, hstem, ⟨hfirst, hfirst'⟩, hlast, hlast'⟩ := h
  -- each part is cut off where the one before it ends: with a character of the other kind
  obtain ⟨hne, hsolid⟩ := joints_solid joint hjoint
  have hjointend (before : List Char) :
      ∀ c ∈ (before ++ joint).getLast?, isDigit c = false ∧ isBlank c = false := by
    rw [List.getLast?_append_of_ne_nil _ hne]
    exact fun c hc => by simpa using List.all_eq_true.mp hsolid c (List.mem_of_mem_getLast? hc)
  have hgapend (before : List Char) :
      ∀ c ∈ (before ++ joint ++ gap').getLast?, isDigit c = false := by
    intro c hc
    rw [List.getLast?_append, Option.mem_def, Option.or_eq_some_iff] at hc
    obtain hc | ⟨-, hc⟩ := hc
    · exact isDigit_eq_false (hgap' c (List.mem_of_mem_getLast? hc))
    · exact (hjointend before c hc).1
  have hnumberend : ∀ c ∈ (x.stem ++ x.first).getLast?, isBlank c = false := by
    rw [List.getLast?_append_of_ne_nil _ hfirst]
    exact fun c hc => isBlank_eq_false (.inr (hfirst' c (List.mem_of_mem_getLast? hc)))
  obtain ⟨hlastcut, hlastend⟩ :=
    Text.dropEnding_ending_iff.mpr ⟨rfl, hlast', hgapend (x.stem ++ x.first ++ gap)⟩
  obtain ⟨hfirstcut, hfirstend⟩ := Text.dropEnding_ending_iff.mpr ⟨rfl, hfirst', hstem⟩
  unfold numbered?
  dsimp only
  rw [hlastcut, hlastend, Text.trimEnd_append hgap' fun c hc => (hjointend _ c hc).2,
    beforeJoint?_eq_some_iff.mpr ⟨joint, hjoint, rfl⟩, if_neg (by simpa using hlast)]
  show (if (Text.ending isDigit (Text.trimEnd _)).isEmpty then _ else _) = _
  rw [Text.trimEnd_append hgap hnumberend, hfirstcut, hfirstend, if_neg (by simpa using hfirst)]

theorem numbered?_eq_some_iff {segment : List Char} {x : Numbered} :
    numbered? segment = some x ↔ x.Ends segment :=
  ⟨ends_of_numbered?, numbered?_of_ends⟩

/-! ## The paths of an alternative -/

/-- A number, with zeros up to the length of the first one if that begins with one and goes on. -/
def numeral (first : List Char) (n : Nat) : List Char :=
  if 1 < first.length ∧ first.head? = some '0' then (Nat.toDigits 10 n).leftpad first.length '0'
  else Nat.toDigits 10 n

theorem padded_width (first : List Char) (n : Nat) : padded (width first) n = numeral first n := by
  unfold padded width numeral
  dsimp only
  split
  · rfl
  · rw [Nat.zero_sub, List.replicate_zero, List.nil_append]

/-- The paths that an alternative stands for: itself, unless its last segment ends in two numbers of
64 bits; and then each number from the lesser to the greater, in the place of the two. -/
inductive StandsFor (a : List Char) : List Char → Prop
  | itself (h : ∀ dir segment x, LastSegment a dir segment → Numbered.Ends x segment →
      2 ^ 64 ≤ natural x.first ∨ 2 ^ 64 ≤ natural x.last) : StandsFor a a
  | numbered {dir segment : List Char} {x : Numbered} {n : Nat} (hpath : LastSegment a dir segment)
      (hends : x.Ends segment) (hfirst : natural x.first < 2 ^ 64) (hlast : natural x.last < 2 ^ 64)
      (hmin : min (natural x.first) (natural x.last) ≤ n)
      (hmax : n ≤ max (natural x.first) (natural x.last)) :
      StandsFor a (dir ++ x.stem ++ numeral x.first n)

theorem pick_itself {a : List Char}
    (h : ∀ dir segment x, LastSegment a dir segment → Numbered.Ends x segment →
      2 ^ 64 ≤ natural x.first ∨ 2 ^ 64 ≤ natural x.last) (s : Source) : pick a s = (a, s) := by
  have hpath : LastSegment a (splitPath a).1 (splitPath a).2 := splitPath_eq_iff.mp rfl
  unfold pick
  dsimp only
  cases hx : numbered? (splitPath a).2 with
  | none => rfl
  | some x =>
    have hlarge := h _ _ _ hpath (numbered?_eq_some_iff.mp hx)
    dsimp only
    rw [if_neg (by simp only [limit, UInt64.size]; omega)]
    rfl

theorem pick_numbered {a dir segment : List Char} {x : Numbered} (hpath : LastSegment a dir segment)
    (hends : x.Ends segment) (hfirst : natural x.first < 2 ^ 64) (hlast : natural x.last < 2 ^ 64)
    (s : Source) :
    let drawn := Draw.between (min (natural x.first) (natural x.last))
      (max (natural x.first) (natural x.last)) s
    pick a s = (dir ++ x.stem ++ numeral x.first drawn.1, drawn.2) := by
  intro drawn
  unfold pick
  rw [splitPath_eq_iff.mpr hpath]
  dsimp only
  rw [numbered?_eq_some_iff.mpr hends]
  dsimp only
  rw [if_pos ⟨hfirst, hlast⟩]
  show (dir ++ x.stem ++ padded (width x.first) drawn.1, drawn.2) = _
  rw [padded_width]

theorem standsFor_pick (a : List Char) (s : Source) : StandsFor a (pick a s).1 := by
  by_cases h : ∀ dir segment x, LastSegment a dir segment → Numbered.Ends x segment →
      2 ^ 64 ≤ natural x.first ∨ 2 ^ 64 ≤ natural x.last
  · rw [pick_itself h]
    exact .itself h
  · simp only [not_forall, not_or, Nat.not_le] at h
    obtain ⟨dir, segment, x, hpath, hends, hfirst, hlast⟩ := h
    have horder : min (natural x.first) (natural x.last) ≤ max (natural x.first) (natural x.last) :=
      Nat.le_trans (Nat.min_le_left _ _) (Nat.le_max_left _ _)
    obtain ⟨hmin, hmax⟩ := Draw.between_mem horder (.inr (Nat.max_lt.mpr ⟨hfirst, hlast⟩)) s
    rw [pick_numbered hpath hends hfirst hlast]
    exact .numbered hpath hends hfirst hlast hmin hmax

theorem exists_pick {a path : List Char} (h : StandsFor a path) :
    (∀ s, pick a s = (path, s)) ∨
      ∃ w : UInt64, ∀ s : Source, s.next.1 = w → pick a s = (path, s.next.2) := by
  cases h with
  | itself h => exact .inl (pick_itself h)
  | numbered hpath hends hfirst hlast hmin hmax =>
    obtain ⟨w, hw⟩ := Draw.exists_between hmin hmax (Nat.max_lt.mpr ⟨hfirst, hlast⟩)
    refine .inr ⟨w, fun s hs => ?_⟩
    rw [pick_numbered hpath hends hfirst hlast, hw s hs]

/-! ## The clips of a reference -/

theorem resolve_eq (reference : String) (s : Source) :
    let chosen := Draw.choose (alternatives reference.toList) s
    let picked := pick (chosen.1.getD reference.toList) chosen.2
    resolve reference s = (String.ofList picked.1, picked.2) :=
  rfl

theorem pick_of_alternatives_eq_nil {reference : List Char} (h : alternatives reference = [])
    (s : Source) : pick reference s = (reference, s) := by
  refine pick_itself (fun dir segment x hpath hends => ?_) s
  obtain ⟨gap, joint, gap', -, -, -, hsegment⟩ := hends.eq
  obtain ⟨c, hc⟩ := List.exists_mem_of_ne_nil _ hends.last.1
  have hmem : c ∈ reference := by
    rw [hpath.eq, hsegment]
    exact List.mem_append_right _ (List.mem_append_right _ hc)
  have hdigit := hends.last.2 c hc
  rw [not_isDigit_of_alternatives_eq_nil h c hmem] at hdigit
  cases hdigit

/-- A reference is resolved to the paths of its alternatives, to all of them and to nothing else; a
reference without alternatives, to itself.  A path is resolved by a script all of whose words are
drawn once, so none of them is refused; the bound on the size holds of every text in memory, and
makes one word enough for the choice of an alternative. -/
theorem resolve_image (reference : String) :
    ((¬ ∃ a, IsAlternative reference.toList a) → ∀ s, resolve reference s = (reference, s)) ∧
    ((∃ a, IsAlternative reference.toList a) → ∀ s, ∃ a, IsAlternative reference.toList a ∧
      StandsFor a (resolve reference s).1.toList) ∧
    (reference.utf8ByteSize < 2 ^ 63 → ∀ a path, IsAlternative reference.toList a →
      StandsFor a path → ∃ words, resolve reference (.ofWords words) =
        (String.ofList path, .script words words.length)) := by
  refine ⟨fun h s => ?_, fun h s => ?_, fun hsize a path ha hpath => ?_⟩
  · rw [← alternatives_eq_nil_iff] at h
    rw [resolve_eq, h, Draw.choose_nil, Option.getD_none, pick_of_alternatives_eq_nil h,
      String.ofList_toList]
  · rw [← not_not (a := ∃ a, _), ← alternatives_eq_nil_iff] at h
    obtain ⟨a, ha, hchosen⟩ := Draw.choose_mem h s
    rw [resolve_eq, hchosen, String.toList_ofList]
    exact ⟨a, mem_alternatives_iff.mp ha, standsFor_pick a _⟩
  · have hlength : (alternatives reference.toList).length ≤ UInt64.size := by
      have hbytes := Text.length_toList_le reference
      have hcount := length_alternatives_le reference.toList
      simp only [UInt64.size]
      omega
    obtain ⟨w, hw⟩ := Draw.exists_choose (mem_alternatives_iff.mpr ha) hlength
    obtain hpick | ⟨v, hv⟩ := exists_pick hpath
    · refine ⟨[w], ?_⟩
      rw [resolve_eq, Source.ofWords, hw [w] 0 rfl, Option.getD_some, hpick]
      rfl
    · refine ⟨[w, v], ?_⟩
      rw [resolve_eq, Source.ofWords, hw [w, v] 0 rfl, Option.getD_some, hv _ rfl]
      rfl

/-- Bars alone, and numbers that are padded to the length of the first. -/
theorem resolve_image_birds :
    let reference := "wind | birds/010 .. 8"
    (∀ s, resolve " | " s = (" | ", s)) ∧
    (∀ s, ∃ a, IsAlternative reference.toList a ∧ StandsFor a (resolve reference s).1.toList) ∧
    ∃ words, resolve reference (.ofWords words) = ("birds/009", .script words words.length) := by
  have hbars : ¬ ∃ a, IsAlternative " | ".toList a := alternatives_eq_nil_iff.mp (by decide)
  have hbirds : IsAlternative "wind | birds/010 .. 8".toList "birds/010 .. 8".toList :=
    mem_alternatives_iff.mp (by decide)
  have hpath : LastSegment "birds/010 .. 8".toList "birds/".toList "010 .. 8".toList :=
    splitPath_eq_iff.mp (by decide)
  have hends : Numbered.Ends ⟨[], "010".toList, "8".toList⟩ "010 .. 8".toList :=
    numbered?_eq_some_iff.mp (by decide)
  have hstands : StandsFor "birds/010 .. 8".toList ("birds/".toList ++ [] ++ numeral "010".toList 9) :=
    .numbered hpath hends (by decide) (by decide) (by decide) (by decide)
  exact ⟨(resolve_image " | ").1 hbars, (resolve_image _).2.1 ⟨_, hbirds⟩,
    (resolve_image _).2.2 (by decide) _ _ hbirds hstands⟩

end Clip

end Soundscape
