import Soundscape.Proofs.Script.Comments

/-!
# Ranges as tokens and as text

A quantity is read in two ways: from the tokens of a header or a call, where the reading of numbers
looks ahead for a `..`, and from a text that is split at its first `..`.  A number is no place to
split (`Token.splitDots_append`), so both find the same ends, and make the same of them
(`Reader.quantity_iff_read`).
-/

namespace Soundscape

open Numeral (isDigit)

/-! ## The first `..` -/

namespace Quantity

def splitAfter (cs : List Char) : Option (List Char × List Char) → Option (List Char × List Char) :=
  Option.map fun (before, after) => (cs ++ before, after)

theorem splitAfter_nil (x : Option (List Char × List Char)) : splitAfter [] x = x := by
  cases x <;> rfl

theorem splitAfter_append (cs ds : List Char) (x : Option (List Char × List Char)) :
    splitAfter (cs ++ ds) x = splitAfter cs (splitAfter ds x) := by
  cases x <;> simp [splitAfter]

theorem splitDots_cons {c : Char} {cs : List Char} (h : c = '.' → ∀ d ∈ cs.head?, d ≠ '.') :
    splitDots (c :: cs) = splitAfter [c] (splitDots cs) := by
  rw [splitDots]
  · rfl
  · rintro rest rfl rfl
    exact h rfl '.' rfl rfl

theorem splitDots_skip {cs : List Char} (h : ∀ c ∈ cs, c ≠ '.') (rest : List Char) :
    splitDots (cs ++ rest) = splitAfter cs (splitDots rest) := by
  induction cs with
  | nil => exact (splitAfter_nil _).symm
  | cons c cs ih =>
    obtain ⟨hc, hcs⟩ := List.forall_mem_cons.mp h
    rw [List.cons_append, splitDots_cons fun he => absurd he hc, ih hcs, ← splitAfter_append]
    rfl

end Quantity

namespace Token

open Quantity (splitDots splitAfter splitDots_skip splitDots_cons splitAfter_nil splitAfter_append)

theorem ne_point_of_isDigit {c : Char} (h : isDigit c) : c ≠ '.' := by
  rintro rfl
  cases h

theorem splitDots_pointText {after rest : List Char} (h : after = pointText after ++ rest) :
    splitDots after = splitAfter (pointText after) (splitDots rest) := by
  by_cases hpoint : ∃ fraction, after = '.' :: fraction ∧ ∀ c ∈ fraction.head?, c ≠ '.'
  · obtain ⟨fraction, rfl, hsecond⟩ := hpoint
    rw [pointText_cons hsecond] at h ⊢
    have hdigits : ∀ c ∈ fraction.takeWhile isDigit, c ≠ '.' := fun c hc =>
      ne_point_of_isDigit (List.mem_takeWhile_imp hc)
    have hfraction : fraction = fraction.takeWhile isDigit ++ rest := (List.cons.inj h).2
    rw [splitDots_cons fun _ => hsecond]
    conv_lhs => rw [hfraction, splitDots_skip hdigits, ← splitAfter_append]
    rfl
  · have hnil : pointText after = [] := by
      unfold pointText
      split
      · rfl
      · next fraction hno =>
        refine absurd ⟨fraction, rfl, ?_⟩ hpoint
        rintro c hc rfl
        obtain ⟨rest, rfl⟩ := List.head?_eq_some_iff.mp hc
        exact hno rest rfl
      · rfl
    rw [hnil] at h ⊢
    rw [splitAfter_nil, h, List.nil_append]

/-- A number is no place to split: the first `..` is the first behind it. -/
theorem splitDots_append {w rest : List Char} (h : numberText (w ++ rest) = w) :
    splitDots (w ++ rest) = splitAfter w (splitDots rest) := by
  obtain ⟨sign, whole, after, hcs, hparts⟩ := Parted.exists_eq (w ++ rest)
  rw [hcs, hparts.numberText_eq] at h
  have hafter : after = pointText after ++ rest := by
    rw [← h, List.append_assoc, List.append_cancel_left_eq] at hcs
    exact hcs.symm
  have hdots : ∀ c ∈ sign ++ whole, c ≠ '.' := by
    intro c hc
    obtain hc | hc := List.mem_append.mp hc
    · rintro rfl
      obtain rfl | ⟨rfl, -⟩ := hparts.sign
      · exact absurd hc (by decide)
      · cases hc
    · exact ne_point_of_isDigit (hparts.whole c hc)
  rw [hcs, splitDots_skip hdots, splitDots_pointText hafter, ← splitAfter_append, h]

variable {α : Type}

theorem isWord_ofWord (cs : List Char) : (ofWord cs : Token α).isWord := by
  unfold ofWord
  split <;> rfl

variable [Scalar α]

theorem Leads.of_range {t : Token α} {w rest : List Char} (h : Leads t w rest) :
    (∀ v, t = .number v →
      numberText (w ++ rest) = w ∧ (Numeral.read? w).bind Scalar.ofNumeral? = some v) ∧
    (t = .dots → w = ['.', '.']) := by
  cases h with
  | mark h =>
    refine ⟨?_, ?_⟩
    · rintro v rfl
      simp [marks] at h
    · rintro rfl
      simp [marks] at h
  | str h => exact ⟨by rintro _ ⟨⟩, by rintro ⟨⟩⟩
  | dots => exact ⟨by rintro _ ⟨⟩, fun _ => rfl⟩
  | number h hv =>
    refine ⟨?_, by rintro ⟨⟩⟩
    rintro _ ⟨⟩
    exact ⟨h, hv⟩
  | @word c w _ hc hw h =>
    have hword := isWord_ofWord (α := α) (c :: w)
    refine ⟨fun v ht => ?_, fun ht => ?_⟩
    · rw [ht] at hword
      cases hword
    · rw [ht] at hword
      cases hword

theorem isBlank_of_numberText {w rest : List Char} (h : numberText (w ++ rest) = w) :
    ∀ c ∈ w, isBlank c = false := by
  intro c hc
  obtain rfl | rfl | hd := mem_numberText (by rwa [h])
  · decide
  · decide
  · exact isBlank_eq_false (.inr hd)

theorem Reading.of_nil {column : Nat} {text : List Char}
    (h : Reading column text ([] : List (Placed α))) : ∀ c ∈ text, isBlank c := by
  generalize hts : ([] : List (Placed α)) = ts at h
  induction h with
  | nil => nofun
  | blank hc _ ih => exact List.forall_mem_cons.mpr ⟨hc, ih hts⟩
  | token => cases hts

theorem Reading.of_cons {column : Nat} {text : List Char} {t : Placed α} {ts : List (Placed α)}
    (h : Reading column text (t :: ts)) :
    ∃ blanks w rest column', text = blanks ++ w ++ rest ∧ (∀ c ∈ blanks, isBlank c) ∧
      Leads t.token w rest ∧ Reading column' rest ts := by
  generalize hts : t :: ts = us at h
  induction h with
  | nil => cases hts
  | @blank column c cs us hc _ ih =>
    obtain ⟨blanks, w, rest, column', rfl, hblanks, h⟩ := ih hts
    exact ⟨c :: blanks, w, rest, column', rfl, List.forall_mem_cons.mpr ⟨hc, hblanks⟩, h⟩
  | token _ hleads h =>
    cases hts
    exact ⟨[], _, _, _, rfl, nofun, hleads, h⟩

end Token

variable {α : Type} [Scalar α]

open Token (Leads)

namespace Quantity

theorem ne_nil_of_leads {v : α} {w rest : List Char} (h : Leads (.number v) w rest) : w ≠ [] := by
  rintro rfl
  cases (h.of_range.1 v rfl).2

/-- The text of a number with blanks around it is read as that number, if it is finite. -/
theorem readNumber_of_leads {v : α} {before w after rest : List Char}
    (h : Leads (.number v) w rest) (hv : Scalar.isFinite v) (hbefore : ∀ c ∈ before, isBlank c)
    (hafter : ∀ c ∈ after, isBlank c) : readNumber (before ++ w ++ after) = .ok v := by
  obtain ⟨hw, hread⟩ := h.of_range.1 v rfl
  unfold readNumber
  rw [Text.trim_solid (ne_nil_of_leads h) (Token.isBlank_of_numberText hw) hbefore hafter, hread]
  exact if_pos hv

theorem read_of_number {v : α} {before w after rest : List Char}
    (h : Leads (.number v) w rest) (hv : Scalar.isFinite v) (hbefore : ∀ c ∈ before, isBlank c)
    (hafter : ∀ c ∈ after, isBlank c) : read (before ++ w ++ after) = .ok (.fixed v) := by
  have hw := (h.of_range.1 v rfl).1
  have hsplit : splitDots w = none := by
    have halone := Token.splitDots_append (Token.numberText_append hw List.nil_prefix (by simp))
    rwa [List.append_nil] at halone
  have hnumber : readNumber ([] ++ w ++ []) = .ok v := readNumber_of_leads h hv nofun nofun
  rw [List.nil_append, List.append_nil] at hnumber
  unfold read
  rw [Text.trim_solid (ne_nil_of_leads h) (Token.isBlank_of_numberText hw) hbefore hafter]
  dsimp only
  rw [if_neg (by simpa using ne_nil_of_leads h), hsplit]
  dsimp only
  rw [hnumber]
  rfl

/-- Two numbers with `..` between them, and blanks anywhere, are the range between them, if its
width is finite. -/
theorem read_of_range {a b : α} {before w gap gap' w' after rest : List Char}
    (h : Leads (.number a) w (gap ++ '.' :: '.' :: (gap' ++ w' ++ after)))
    (h' : Leads (.number b) w' rest) (ha : Scalar.isFinite a) (hb : Scalar.isFinite b)
    (hbefore : ∀ c ∈ before, isBlank c) (hgap : ∀ c ∈ gap, isBlank c)
    (hgap' : ∀ c ∈ gap', isBlank c) (hafter : ∀ c ∈ after, isBlank c) :
    let text := w ++ (gap ++ '.' :: '.' :: (gap' ++ w'))
    read (before ++ text ++ after) = if Scalar.isFinite (b - a) then .ok (between a b)
      else .error (.tooWide (String.ofList text)) := by
  intro text
  have hw := (h.of_range.1 a rfl).1
  have hw' := (h'.of_range.1 b rfl).1
  have htrim : Text.trim (before ++ text ++ after) = text := by
    refine Text.trim_append (by simp [text]) hbefore hafter (fun c hc => ?_) fun c hc => ?_
    · rw [List.head?_append_of_ne_nil _ (ne_nil_of_leads h)] at hc
      exact Token.isBlank_of_numberText hw c (List.mem_of_mem_head? hc)
    · have hlast : text.getLast? = w'.getLast? := by
        have htext : text = (w ++ gap ++ '.' :: '.' :: gap') ++ w' := by simp [text]
        rw [htext, List.getLast?_append_of_ne_nil _ (ne_nil_of_leads h')]
      rw [hlast] at hc
      exact Token.isBlank_of_numberText hw' c (List.mem_of_mem_getLast? hc)
  have hsplit : splitDots text = some (w ++ gap, gap' ++ w') := by
    have hcut : gap ++ '.' :: '.' :: (gap' ++ w') <+:
        gap ++ '.' :: '.' :: (gap' ++ w' ++ after) := ⟨after, by simp⟩
    have hpoints : ∀ c ∈ gap, c ≠ '.' := by
      rintro c hc rfl
      exact absurd (hgap _ hc) (by decide)
    rw [Token.splitDots_append (Token.numberText_append hw hcut (by cases gap <;> simp)),
      splitDots_skip hpoints, ← splitAfter_append]
    simp [splitDots, splitAfter]
  have hlow : readNumber ([] ++ w ++ gap) = .ok a := readNumber_of_leads h ha nofun hgap
  have hhigh : readNumber (gap' ++ w' ++ []) = .ok b := readNumber_of_leads h' hb hgap' nofun
  rw [List.nil_append] at hlow
  rw [List.append_nil] at hhigh
  unfold read
  rw [htrim]
  dsimp only
  rw [if_neg (by simp [text]), hsplit]
  dsimp only
  rw [hlow, hhigh]
  rfl

end Quantity

/-- The quantity that is read from the tokens of a text is the one that is read from the text. -/
theorem Reader.quantity_iff_read {column : Nat} {text : List Char} {ts : List (Placed α)}
    (h : Token.tokenize column text = .ok ts)
    (hts : (∃ a, ts.map Placed.token = [.number a] ∧ Scalar.isFinite a) ∨
      ∃ a b, ts.map Placed.token = [.number a, .dots, .number b] ∧ Scalar.isFinite a ∧
        Scalar.isFinite b) (q : Quantity α) :
    (∃ rest, Reader.quantity ts = .ok (q, rest)) ↔ Quantity.read text = .ok q := by
  have hread := Token.tokenize_eq_ok_iff.mp h
  obtain ⟨a, htokens, ha⟩ | ⟨a, b, htokens, ha, hb⟩ := hts
  · obtain ⟨⟨_, k⟩, _, rfl, rfl, hnil⟩ := List.map_eq_cons_iff.mp htokens
    obtain rfl := List.map_eq_nil_iff.mp hnil
    obtain ⟨before, w, after, _, rfl, hbefore, hleads, hrest⟩ := hread.of_cons
    rw [Quantity.read_of_number hleads ha hbefore hrest.of_nil]
    constructor
    · rintro ⟨rest, ⟨⟩⟩
      rfl
    · rintro ⟨⟩
      exact ⟨[], rfl⟩
  · obtain ⟨⟨_, k⟩, us, rfl, rfl, hus⟩ := List.map_eq_cons_iff.mp htokens
    obtain ⟨⟨_, k'⟩, vs, rfl, rfl, hvs⟩ := List.map_eq_cons_iff.mp hus
    obtain ⟨⟨_, k''⟩, ws, rfl, rfl, hws⟩ := List.map_eq_cons_iff.mp hvs
    obtain rfl := List.map_eq_nil_iff.mp hws
    obtain ⟨before, w, _, _, rfl, hbefore, hleads, hread₁⟩ := hread.of_cons
    obtain ⟨gap, _, _, _, rfl, hgap, hdots, hread₂⟩ := hread₁.of_cons
    obtain ⟨gap', w', after, _, rfl, hgap', hleads', hread₃⟩ := hread₂.of_cons
    obtain rfl := hdots.of_range.2 rfl
    have htext : before ++ w ++ (gap ++ ['.', '.'] ++ (gap' ++ w' ++ after)) =
        before ++ (w ++ (gap ++ '.' :: '.' :: (gap' ++ w'))) ++ after := by simp
    rw [List.append_assoc gap, List.cons_append, List.singleton_append] at hleads
    rw [htext, Quantity.read_of_range hleads hleads' ha hb hbefore hgap hgap' hread₃.of_nil]
    show (∃ rest, (if Scalar.isFinite (b - a) then .ok (Quantity.between a b, [])
      else .error _ : Except (Fault α) _) = .ok (q, rest)) ↔ _
    split
    · constructor
      · rintro ⟨rest, ⟨⟩⟩
        rfl
      · rintro ⟨⟩
        exact ⟨[], rfl⟩
    · constructor <;> nofun

/-- A range with a point on either side of its `..`, and in falling order. -/
theorem Reader.quantity_iff_read_points :
    let text := " 1...5".toList
    let ts : List (Placed Float) := [⟨.number 1, 9⟩, ⟨.dots, 10⟩, ⟨.number 0.5, 12⟩]
    Token.tokenize 8 text = .ok ts ∧
      ts.map Placed.token = [.number 1, .dots, .number 0.5] ∧
      Scalar.isFinite (1 : Float) ∧ Scalar.isFinite (0.5 : Float) ∧
      (∃ rest, Reader.quantity ts = .ok (.range 0.5 1, rest)) ∧
      Quantity.read text = .ok (.range (0.5 : Float) 1) := by
  intro text ts
  have hts : Token.tokenize 8 text = .ok ts := by decide +kernel
  have hfirst : Scalar.isFinite (1 : Float) := by decide +kernel
  have hlast : Scalar.isFinite (0.5 : Float) := by decide +kernel
  have hread : Quantity.read text = .ok (.range (0.5 : Float) 1) := by decide +kernel
  exact ⟨hts, rfl, hfirst, hlast,
    (quantity_iff_read hts (.inr ⟨1, 0.5, rfl, hfirst, hlast⟩) _).mpr hread, hread⟩

end Soundscape
