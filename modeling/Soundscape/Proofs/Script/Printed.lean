import Soundscape.Proofs.Number.Positional
import Soundscape.Proofs.Script.Lexed
import Soundscape.Proofs.Script.Ranges

/-!
# Quantities are read back

The text of a finite double is one number with nothing left over, also in front of the `..` of a
range (`Token.leads_text`): its point, if it has one, stands between digits.  So the first `..` in
the text of a range is the one between its bounds, and a quantity that is written and read again is
the same, down to the sign of a zero (`Quantity.read_text`).
-/

namespace Soundscape

open Numeral (isDigit)

namespace Token

open Plain (head_pointed)

/-- Digits with a point among them are a number, if no digit or point of a number comes next. -/
theorem numberText_plain {whole fraction rest : List Char} (h : Plain whole fraction)
    (negative : Bool) (hrest : ∀ c ∈ rest.head?, isDigit c = false) (hpoint : pointText rest = []) :
    let w := (if negative then ['-'] else []) ++ (whole ++ pointed fraction)
    numberText (w ++ rest) = w := by
  have hparts : Parted (if negative then ['-'] else []) whole (pointed fraction ++ rest) := by
    refine ⟨?_, h.whole, ?_⟩
    · cases negative with
      | true => exact .inl rfl
      | false =>
        refine .inr ⟨rfl, fun c hc => ?_⟩
        rw [List.head?_append_of_ne_nil _ h.ne_nil] at hc
        rintro rfl
        cases h.whole _ (List.mem_of_mem_head? hc)
    · cases fraction with
      | nil => exact hrest
      | cons d ds => exact head_pointed (d :: ds)
  have hafter : pointText (pointed fraction ++ rest) = pointed fraction := by
    cases fraction with
    | nil => exact hpoint
    | cons d ds =>
      have hd : ∀ c ∈ (d :: ds ++ rest).head?, c ≠ '.' := by
        rintro c ⟨⟩
        exact ne_point_of_isDigit (h.fraction d List.mem_cons_self)
      show pointText ('.' :: (d :: ds ++ rest)) = '.' :: d :: ds
      rw [pointText_cons hd, Text.takeWhile_append h.fraction hrest]
  intro w
  have hw : w ++ rest =
      (if negative then ['-'] else []) ++ whole ++ (pointed fraction ++ rest) := by
    simp [w]
  rw [hw, hparts.numberText_eq, hafter]
  simp [w]

/-- The text of a finite double is a number that is read as the double. -/
theorem leads_text {x : Float} (hx : x.isFinite) {rest : List Char}
    (hrest : ∀ c ∈ rest.head?, isDigit c = false) (hpoint : pointText rest = []) :
    Leads (.number x) (Scalar.text x).toList rest := by
  obtain ⟨negative, whole, fraction, htext, hplain, hvalue⟩ := Doubles.text_eq hx
  rw [htext]
  refine .number (numberText_plain hplain negative hrest hpoint) ?_
  rw [hplain.read?_eq, ← hvalue]
  rfl

end Token

namespace Quantity

open Token (Leads leads_text)

theorem read_text_fixed {v : Float} (hv : v.isFinite) :
    read (text (.fixed v)).toList = .ok (.fixed v) := by
  have hread : read ([] ++ (Scalar.text v).toList ++ []) = .ok (.fixed v) :=
    read_of_number (leads_text hv nofun rfl : Leads _ _ []) hv nofun nofun
  rwa [List.nil_append, List.append_nil] at hread

theorem read_text_range {low high : Float} (hlow : low.isFinite) (hhigh : high.isFinite)
    (hle : low ≤ high) (hwidth : (high - low).isFinite) :
    read (text (.range low high)).toList = .ok (.range low high) := by
  have hfinite : Scalar.isFinite (high - low) := hwidth
  have htext : (text (.range low high)).toList =
      (Scalar.text low).toList ++ '.' :: '.' :: (Scalar.text high).toList := by
    unfold text
    simp
  have hfirst : Leads (.number low) (Scalar.text low).toList
      ('.' :: '.' :: (Scalar.text high).toList) :=
    leads_text hlow (by rintro c ⟨⟩; rfl) rfl
  have hread : read ([] ++ ((Scalar.text low).toList ++
      ([] ++ '.' :: '.' :: ([] ++ (Scalar.text high).toList))) ++ []) =
        if Scalar.isFinite (high - low) then .ok (between low high) else .error _ :=
    read_of_range (by rwa [List.append_nil]) (leads_text hhigh nofun rfl : Leads _ _ []) hlow hhigh
      nofun nofun nofun nofun
  rw [List.nil_append, List.append_nil, List.nil_append, List.nil_append] at hread
  rw [htext, hread, if_pos hfinite, between, if_pos hle]

/-- A quantity is read back from its text: a finite number, a range of finite numbers in order and
a finite distance apart, and every quantity that was read from a text. -/
theorem read_text :
    (∀ v : Float, v.isFinite → read (text (.fixed v)).toList = .ok (.fixed v)) ∧
    (∀ low high : Float, low.isFinite → high.isFinite → low ≤ high → (high - low).isFinite →
      read (text (.range low high)).toList = .ok (.range low high)) ∧
    ∀ (cs : List Char) (q : Quantity Float), read cs = .ok q → q.isSet →
      read q.text.toList = .ok q := by
  refine ⟨fun v => read_text_fixed, fun low high => read_text_range, fun cs q hread hset => ?_⟩
  cases measured_read hread with
  | unset => cases hset
  | fixed hv => exact read_text_fixed hv
  | range hlow hhigh hle hwidth => exact read_text_range hlow hhigh hle hwidth

/-- A zero with its sign, two zeros with different signs, and a range in falling order. -/
theorem read_text_zeros :
    let source := " 3 .. -5e-1".toList
    let q : Quantity Float := .range (-0.5) 3
    (-0.0 : Float).isFinite ∧ (0.0 : Float).isFinite ∧ (0.0 : Float) ≤ -0.0 ∧
      (-0.0 - 0.0 : Float).isFinite ∧ read source = .ok q ∧ q.isSet ∧
      read (text (.fixed (-0.0 : Float))).toList = .ok (.fixed (-0.0 : Float)) ∧
      read (text (.range 0.0 (-0.0 : Float))).toList = .ok (.range 0.0 (-0.0 : Float)) ∧
      read q.text.toList = .ok q := by
  intro source q
  have hminus : (-0.0 : Float).isFinite := by decide +kernel
  have hplus : (0.0 : Float).isFinite := by decide +kernel
  have hle : (0.0 : Float) ≤ -0.0 := by decide +kernel
  have hwidth : (-0.0 - 0.0 : Float).isFinite := by decide +kernel
  have hread : read source = .ok q := by decide +kernel
  obtain ⟨hfixed, hrange, hagain⟩ := read_text
  exact ⟨hminus, hplus, hle, hwidth, hread, rfl, hfixed _ hminus,
    hrange _ _ hplus hminus hle hwidth, hagain source q hread rfl⟩

end Quantity

end Soundscape
