import Soundscape.Number.Scalar
import Soundscape.Proofs.Number.Fewest
import Soundscape.Proofs.Text.Parts

/-!
# Written doubles

Values and messages show a double without an exponent: a sign, digits, and a point among the digits
if some are fractional (`Decimal.positional_eq`).  Such a text is read as the decimal that it
shows (`Plain.read?_eq`), and so as the double (`Doubles.text_eq`).
-/

namespace Soundscape

open Numeral (isDigit natural)

/-! ## Digits -/

theorem natural_eq (ds : List Char) : natural ds = Nat.ofDigitChars 10 ds 0 := rfl

theorem isDigit_of_mem_toDigits {c : Char} {n : Nat} (h : c ∈ Nat.toDigits 10 n) : isDigit c := by
  have hc := Nat.isDigit_of_mem_toDigits (by decide) (by decide) h
  rw [isDigit_iff]
  simpa [Char.isDigit, UInt32.le_iff_toNat_le, ← Char.toNat_val] using hc

/-- The point and the digits after it, if there are any. -/
def pointed : List Char → List Char
  | [] => []
  | fraction => '.' :: fraction

theorem pointed_of_ne_nil {fraction : List Char} (h : fraction ≠ []) :
    pointed fraction = '.' :: fraction := by
  cases fraction with
  | nil => exact absurd rfl h
  | cons => rfl

/-- A number written with digits alone, some of them after a point. -/
structure Plain (whole fraction : List Char) : Prop where
  ne_nil : whole ≠ []
  whole : ∀ c ∈ whole, isDigit c
  fraction : ∀ c ∈ fraction, isDigit c

theorem isDigit_of_mem_zeros {n : Nat} : ∀ c ∈ List.replicate n '0', isDigit c := by
  intro c hc
  rw [(List.mem_replicate.mp hc).2]
  rfl

/-- The text is the number `n * 10 ^ j`, written with digits alone. -/
def Shows (text : List Char) (n : Nat) (j : Int) : Prop :=
  ∃ whole fraction, text = whole ++ pointed fraction ∧ Plain whole fraction ∧
    natural (whole ++ fraction) = n * 10 ^ j.toNat ∧ fraction.length = (-j).toNat

namespace Shows

variable {ds : List Char} {j : Int}

theorem of_exponent_nonneg (hne : ds ≠ []) (hdigits : ∀ c ∈ ds, isDigit c) (hj : 0 ≤ j) :
    Shows (ds ++ List.replicate j.toNat '0') (natural ds) j := by
  refine ⟨ds ++ List.replicate j.toNat '0', [], by simp [pointed], ⟨by simp [hne], ?_, nofun⟩,
    ?_, ?_⟩
  · exact List.forall_mem_append.mpr ⟨hdigits, isDigit_of_mem_zeros⟩
  · rw [natural_eq, List.append_nil, Nat.ofDigitChars_append, Nat.ofDigitChars_replicate_zero,
      Nat.mul_comm, natural_eq]
  · rw [List.length_nil]
    omega

theorem of_point_pos (hdigits : ∀ c ∈ ds, isDigit c) (hj : j < 0) (hpoint : 0 < ds.length + j) :
    Shows (ds.take (ds.length + j).toNat ++ '.' :: ds.drop (ds.length + j).toNat)
      (natural ds) j := by
  have htake : ds.take (ds.length + j).toNat ≠ [] := by
    rw [Ne, List.take_eq_nil_iff, ← List.length_eq_zero_iff]
    omega
  have hdrop : ds.drop (ds.length + j).toNat ≠ [] := by
    rw [Ne, List.drop_eq_nil_iff]
    omega
  have hzero : j.toNat = 0 := by omega
  refine ⟨ds.take (ds.length + j).toNat, ds.drop (ds.length + j).toNat, ?_,
    ⟨htake, fun c hc => hdigits c (List.mem_of_mem_take hc),
      fun c hc => hdigits c (List.mem_of_mem_drop hc)⟩, ?_, ?_⟩
  · rw [pointed_of_ne_nil hdrop]
  · rw [List.take_append_drop, hzero, Nat.pow_zero, Nat.mul_one]
  · rw [List.length_drop]
    omega

theorem of_point_nonpos (hne : ds ≠ []) (hdigits : ∀ c ∈ ds, isDigit c) (hpoint : ds.length + j ≤ 0) :
    Shows ('0' :: '.' :: (List.replicate (-(ds.length + j)).toNat '0' ++ ds)) (natural ds) j := by
  have hlength : 0 < ds.length := List.length_pos_iff.mpr hne
  have hzero : j.toNat = 0 := by omega
  refine ⟨['0'], List.replicate (-(ds.length + j)).toNat '0' ++ ds, ?_,
    ⟨nofun, isDigit_of_mem_zeros (n := 1),
      List.forall_mem_append.mpr ⟨isDigit_of_mem_zeros, hdigits⟩⟩, ?_, ?_⟩
  · rw [pointed_of_ne_nil (by simp [hne])]
    rfl
  · have hnone : Nat.ofDigitChars 10 ['0'] 0 = 0 := rfl
    rw [natural_eq, Nat.ofDigitChars_append, hnone, Nat.ofDigitChars_append,
      Nat.ofDigitChars_replicate_zero, Nat.mul_zero, hzero, Nat.pow_zero, Nat.mul_one, natural_eq]
  · rw [List.length_append, List.length_replicate]
    omega

end Shows

theorem Decimal.positional_eq (d : Decimal) :
    Shows (d.positional false).toList d.digits d.exponent := by
  have hne : Nat.toDigits 10 d.digits ≠ [] := Nat.toDigits_ne_nil
  have hdigits : ∀ c ∈ Nat.toDigits 10 d.digits, isDigit c := fun _ => isDigit_of_mem_toDigits
  have hvalue : natural (Nat.toDigits 10 d.digits) = d.digits := Nat.ofDigitChars_ten_toDigits
  unfold positional digitText
  dsimp only
  rw [String.toList_ofList, Nat.toList_repr, if_neg Bool.false_ne_true]
  generalize Nat.toDigits 10 d.digits = ds at *
  rw [← hvalue]
  split
  · next hj => simpa using Shows.of_exponent_nonneg hne hdigits hj
  · next hj =>
    split
    · next hpoint => exact Shows.of_point_pos hdigits (by omega) hpoint
    · next hpoint => exact Shows.of_point_nonpos hne hdigits (by omega)

/-! ## Reading digits back -/

namespace Plain

variable {whole fraction : List Char}

theorem head_pointed (fraction : List Char) :
    ∀ c ∈ (pointed fraction).head?, isDigit c = false := by
  cases fraction with
  | nil => nofun
  | cons d ds =>
    rintro c ⟨⟩
    rfl

theorem mantissa_eq (h : Plain whole fraction) :
    Numeral.mantissa (whole ++ pointed fraction) = (whole, fraction, []) := by
  unfold Numeral.mantissa
  rw [Text.takeWhile_append h.whole (head_pointed fraction),
    Text.dropWhile_append h.whole (head_pointed fraction)]
  cases fraction with
  | nil => rfl
  | cons d ds =>
    show (whole, (d :: ds).takeWhile isDigit, (d :: ds).dropWhile isDigit) = _
    rw [List.takeWhile_eq_self_iff.mpr h.fraction, List.dropWhile_eq_nil_iff.mpr h.fraction]

theorem sign_eq (h : Plain whole fraction) (negative : Bool) :
    Numeral.sign ((if negative then ['-'] else []) ++ (whole ++ pointed fraction)) =
      (negative, whole ++ pointed fraction) := by
  cases negative with
  | true => rfl
  | false =>
    obtain ⟨c, cs, rfl⟩ := List.exists_cons_of_ne_nil h.ne_nil
    have hc := h.whole c List.mem_cons_self
    show Numeral.sign (c :: (cs ++ pointed fraction)) = (false, c :: (cs ++ pointed fraction))
    unfold Numeral.sign
    split
    · next heq =>
      cases heq
      cases hc
    · next heq =>
      cases heq
      cases hc
    · rfl

/-- The digits are read back, with the point as an exponent. -/
theorem read?_eq (h : Plain whole fraction) (negative : Bool) :
    Numeral.read? ((if negative then ['-'] else []) ++ (whole ++ pointed fraction)) =
      some (.decimal negative (natural (whole ++ fraction)) (-fraction.length)) := by
  unfold Numeral.read?
  rw [h.sign_eq]
  dsimp only
  unfold Numeral.magnitude?
  rw [h.mantissa_eq]
  dsimp only
  rw [if_neg (by simp [h.ne_nil])]
  show some (Numeral.decimal negative _ (0 - fraction.length)) = _
  rw [Int.zero_sub]

end Plain

/-! ## Doubles -/

open Doubles (isMinus)
open Float.Model.UnpackedFloat (Sign)

theorem Decimal.toRat_eq (d : Decimal) : d.toRat =
    (d.digits * 10 ^ d.exponent.toNat : Nat) * 10 ^ (-((-d.exponent).toNat : Int)) := by
  unfold toRat
  rw [Shortest.zpow_eq_div (by norm_num) d.exponent, zpow_neg, zpow_natCast]
  push_cast
  field_simp

theorem NumberStyle.toList_plain (negative : Bool) (m : Nat) (q : Int) :
    (plain.text (.finite negative m q)).toList = (if negative then ['-'] else []) ++
      ((if m = 0 then ⟨0, 0⟩ else Decimal.shortest .up m q : Decimal).positional false).toList := by
  unfold text
  rw [String.toList_append]
  cases negative <;> rfl

/-- A finite double is written as a sign and digits that are read as the double. -/
theorem Doubles.text_eq {x : Float} (hx : x.isFinite) : ∃ negative whole fraction,
    (Scalar.text x).toList = (if negative then ['-'] else []) ++ (whole ++ pointed fraction) ∧
      Plain whole fraction ∧
      (Numeral.decimal negative (natural (whole ++ fraction)) (-fraction.length)).toFloat = x := by
  have hfin : x.toModel.unpack.isFinite := hx
  have htext : Scalar.text x = NumberStyle.plain.text (decoded x.toModel.unpack) := by
    rw [← ofFloat_eq]
    rfl
  rw [htext]
  cases hu : x.toModel.unpack with
  | notANumber =>
    rw [hu] at hfin
    cases hfin
  | infinity s =>
    rw [hu] at hfin
    cases hfin
  | zero s =>
    obtain ⟨whole, fraction, hd, hplain, hvalue, -⟩ := Decimal.positional_eq ⟨0, 0⟩
    rw [zero_mul] at hvalue
    refine ⟨isMinus s, whole, fraction, ?_, hplain, ?_⟩
    · rw [decoded, NumberStyle.toList_plain, if_pos rfl, hd]
    · have hread := unpack_toFloat_zero s (-fraction.length)
      rw [hvalue]
      exact (eq_of_unpack (hu.trans hread.symm) hx).symm
  | finite s m q hm =>
    have hcanonical := canonical_unpack hu
    obtain ⟨whole, fraction, hd, hplain, hvalue, hlength⟩ :=
      Decimal.positional_eq (.shortest .up m q)
    refine ⟨isMinus s, whole, fraction, ?_, hplain, ?_⟩
    · rw [decoded, NumberStyle.toList_plain, if_neg hm.ne', hd]
    · obtain ⟨howns, hexponent⟩ := Shortest.owns_shortest hcanonical .up
      rw [Decimal.toRat_eq, ← hvalue, ← hlength] at howns
      have hread := howns.toFloat hcanonical (by omega) s
      exact (eq_of_unpack (hu.trans hread.symm) hx).symm

end Soundscape
