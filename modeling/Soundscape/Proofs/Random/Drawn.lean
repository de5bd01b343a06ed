import Mathlib.Algebra.Group.Nat.Defs
import Mathlib.Logic.Function.Iterate
import Soundscape.Random.Source

/-!
# What can be drawn

A whole number is the high part of the first word that is accepted, times the range.  The words of
a source repeat, so a source that refuses a whole period accepts no word at all, and the turns of a
draw are as good as no limit (`Draw.between_of_first`, `Draw.below_of_first`).  Every number of a
range is the high part of a word that is accepted at once, for every range up to that of all words
(`Draw.exists_accepted`), so it is drawn from some script.
-/

namespace Soundscape

/-! ## Words that come again -/

namespace ChaCha

theorem block_congr (key : Key) {m n : Nat} (hlow : m.toUInt32 = n.toUInt32)
    (hhigh : (m / UInt32.size).toUInt32 = (n / UInt32.size).toUInt32) :
    block key m = block key n := by
  unfold block start
  rw [hlow, hhigh]

theorem word_add_period (key : Key) (position k : Nat) :
    word key (position + k * (16 * UInt64.size)) = word key position := by
  refine congrArg₂ Vector.get (block_congr key ?_ ?_) (Fin.ext (by simp [UInt64.size]; omega))
  all_goals
    apply UInt32.toNat.inj
    simp only [Nat.toUInt32_eq, UInt32.toNat_ofNat', UInt32.size, UInt64.size]
    omega

end ChaCha

namespace Draw

def after (draw : Draw Nat) (n : Nat) (s : Source) : Source := (fun s => (draw s).2)^[n] s

def nth (draw : Draw Nat) (n : Nat) (s : Source) : Nat := (draw (after draw n s)).1

/-- A draw that moves on by the same number of places in each stream, and by one in each script, and
gives the same word a period later. -/
structure Steady (draw : Draw Nat) (step : Nat) : Prop where
  next_stream : ∀ key position, (draw (.stream key position)).2 = .stream key (position + step)
  next_script : ∀ words position, (draw (.script words position)).2 = .script words (position + 1)
  stream : ∀ key position,
    (draw (.stream key (position + step * (16 * UInt64.size)))).1 = (draw (.stream key position)).1
  script : ∀ words position,
    (draw (.script words (position + max 1 words.length))).1 = (draw (.script words position)).1

theorem script_add_period (words : List UInt64) (n : Nat) :
    words[(n + max 1 words.length) % words.length]? = words[n % words.length]? := by
  cases words with
  | nil => rfl
  | cons w words => rw [Nat.max_eq_right (by simp), Nat.add_mod_right]

theorem steady_word : Steady (UInt64.toNat <$> word) 2 where
  next_stream _ _ := rfl
  next_script _ _ := rfl
  stream key position := by
    have hhigh := ChaCha.word_add_period key (position + 1) 2
    rw [Nat.add_right_comm] at hhigh
    show UInt64.toNat (UInt32.toUInt64 _ ||| UInt32.toUInt64 _ <<< 32) = _
    rw [ChaCha.word_add_period, hhigh]
    rfl
  script words position := by
    show UInt64.toNat (Option.getD _ 0) = UInt64.toNat (Option.getD _ 0)
    rw [script_add_period]

theorem steady_half : Steady (UInt32.toNat <$> half) 1 where
  next_stream _ _ := rfl
  next_script _ _ := rfl
  stream key position := congrArg UInt32.toNat (ChaCha.word_add_period key position 1)
  script words position := by
    show UInt32.toNat (UInt64.toUInt32 (Option.getD _ 0)) =
      UInt32.toNat (UInt64.toUInt32 (Option.getD _ 0))
    rw [script_add_period]

namespace Steady

variable {draw : Draw Nat} {step : Nat}

theorem after_stream (h : Steady draw step) (key : ChaCha.Key) (n position : Nat) :
    after draw n (.stream key position) = .stream key (position + step * n) := by
  induction n generalizing position with
  | zero => rfl
  | succ n ih =>
    unfold after at ih ⊢
    rw [Function.iterate_succ_apply, h.next_stream, ih, Nat.mul_succ, Nat.add_assoc,
      Nat.add_comm step]

theorem after_script (h : Steady draw step) (words : List UInt64) (n position : Nat) :
    after draw n (.script words position) = .script words (position + n) := by
  induction n generalizing position with
  | zero => rfl
  | succ n ih =>
    unfold after at ih ⊢
    rw [Function.iterate_succ_apply, h.next_script, ih, Nat.add_assoc, Nat.add_comm 1]

theorem nth_add_period (h : Steady draw step) (n : Nat) (s : Source) :
    nth draw (n + s.period) s = nth draw n s := by
  unfold nth
  cases s with
  | stream key position =>
    rw [h.after_stream, h.after_stream, Source.period, Nat.mul_add, ← Nat.add_assoc, h.stream]
  | script words position =>
    rw [h.after_script, h.after_script, Source.period, ← Nat.add_assoc, h.script]

end Steady

/-! ## The first word that is accepted -/

/-- A word whose low part, times the range, is not too large. -/
def Accepted (bits range v : Nat) : Prop := v * range % 2 ^ bits ≤ zone bits range

instance (bits range v : Nat) : Decidable (Accepted bits range v) :=
  inferInstanceAs (Decidable (_ ≤ _))

/-- The first word that is accepted is the one after `n` others. -/
structure FirstAccepted (bits range : Nat) (draw : Draw Nat) (n : Nat) (s : Source) : Prop where
  accepted : Accepted bits range (nth draw n s)
  refused : ∀ i < n, ¬ Accepted bits range (nth draw i s)

section

variable {bits range : Nat} {draw : Draw Nat} {n : Nat} {s : Source}

theorem FirstAccepted.zero (h : Accepted bits range (nth draw 0 s)) :
    FirstAccepted bits range draw 0 s :=
  ⟨h, fun _ hi => absurd hi (Nat.not_lt_zero _)⟩

theorem FirstAccepted.next (h : FirstAccepted bits range draw (n + 1) s) :
    FirstAccepted bits range draw n (draw s).2 :=
  ⟨h.accepted, fun i hi => h.refused (i + 1) (by omega)⟩

theorem FirstAccepted.lt_period {step : Nat} (h : FirstAccepted bits range draw n s)
    (hdraw : Steady draw step) : n < s.period := by
  by_contra hn
  have hperiod : 0 < s.period := by
    cases s with
    | stream => exact Nat.two_pow_pos 68
    | script => exact Nat.lt_of_lt_of_le Nat.zero_lt_one (Nat.le_max_left _ _)
  have hsame := hdraw.nth_add_period (n - s.period) s
  rw [Nat.sub_add_cancel (by omega)] at hsame
  refine h.refused (n - s.period) (by omega) ?_
  rw [← hsame]
  exact h.accepted

theorem scaled_succ (turns : Nat) :
    scaled bits range draw (turns + 1) s =
      if Accepted bits range (draw s).1 then ((draw s).1 * range / 2 ^ bits, (draw s).2)
      else scaled bits range draw turns (draw s).2 :=
  ite_apply _ _ _ _

theorem scaled_of_first {turns : Nat} (h : FirstAccepted bits range draw n s) (hn : n ≤ turns) :
    scaled bits range draw turns s =
      (nth draw n s * range / 2 ^ bits, after draw (n + 1) s) := by
  induction turns generalizing n s with
  | zero =>
    obtain rfl : n = 0 := by omega
    rfl
  | succ turns ih =>
    rw [scaled_succ]
    cases n with
    | zero => exact if_pos h.accepted
    | succ n => exact (if_neg (h.refused 0 (by omega))).trans (ih h.next (by omega))

theorem scaled_lt (hrange : 0 < range) (hdraw : ∀ s, (draw s).1 < 2 ^ bits) (turns : Nat)
    (s : Source) : (scaled bits range draw turns s).1 < range := by
  have hvalue (s : Source) : (draw s).1 * range / 2 ^ bits < range :=
    Nat.div_lt_of_lt_mul ((Nat.mul_lt_mul_right hrange).mpr (hdraw s))
  induction turns generalizing s with
  | zero => exact hvalue s
  | succ turns ih =>
    rw [scaled_succ]
    split
    · exact hvalue s
    · exact ih _

/-- Every number below the range is the high part of a word that is accepted: of the least one whose
product with the range is high enough. -/
theorem exists_accepted {k : Nat} (hk : k < range) (hrange : range ≤ 2 ^ bits) :
    ∃ v < 2 ^ bits, Accepted bits range v ∧ v * range / 2 ^ bits = k := by
  obtain ⟨v, r, hr, hr_lt⟩ : ∃ v r, v * range = k * 2 ^ bits + r ∧ r < range := by
    let x := k * 2 ^ bits + (range - 1)
    have hdiv : x / range * range + x % range = x := Nat.div_add_mod' x range
    have hmod : x % range < range := Nat.mod_lt x (by omega)
    exact ⟨x / range, range - 1 - x % range, by omega, by omega⟩
  have hpos : 0 < 2 ^ bits := Nat.two_pow_pos bits
  have hzone : range - 1 ≤ zone bits range :=
    Nat.sub_le_sub_right (Nat.le_mul_of_pos_right range (Nat.two_pow_pos _)) 1
  refine ⟨v, ?_, ?_, ?_⟩
  · refine Nat.lt_of_mul_lt_mul_right (a := range) ?_
    calc v * range < (k + 1) * 2 ^ bits := by rw [hr, Nat.succ_mul]; omega
      _ ≤ range * 2 ^ bits := Nat.mul_le_mul_right _ hk
      _ = 2 ^ bits * range := Nat.mul_comm _ _
  · unfold Accepted
    rw [hr, Nat.mul_comm k, Nat.mul_add_mod, Nat.mod_eq_of_lt (by omega)]
    omega
  · rw [hr, Nat.mul_comm k, Nat.mul_add_div hpos, Nat.div_eq_of_lt (by omega), Nat.add_zero]

end

/-! ## Numbers of a range, and members of a list -/

section

variable {low high : Nat}

theorem between_eq (s : Source) :
    between low high s =
      if high - low + 1 = UInt64.size then (s.next.1.toNat, s.next.2)
      else (low + (scaled 64 (high - low + 1) (UInt64.toNat <$> word) (turns s) s).1,
        (scaled 64 (high - low + 1) (UInt64.toNat <$> word) (turns s) s).2) :=
  rfl

/-- The turns are no limit to a draw from a range. -/
theorem between_of_first {n : Nat} {s : Source} (hrange : high - low + 1 ≠ UInt64.size)
    (h : FirstAccepted 64 (high - low + 1) (UInt64.toNat <$> word) n s) :
    between low high s =
      (low + nth (UInt64.toNat <$> word) n s * (high - low + 1) / 2 ^ 64,
        after (UInt64.toNat <$> word) (n + 1) s) := by
  have hturns : n ≤ turns s := Nat.le_of_lt (h.lt_period steady_word)
  rw [between_eq, if_neg hrange, scaled_of_first h hturns]

theorem below_of_first {range n : Nat} {s : Source}
    (h : FirstAccepted 32 range (UInt32.toNat <$> half) n s) :
    below range s =
      (nth (UInt32.toNat <$> half) n s * range / 2 ^ 32, after (UInt32.toNat <$> half) (n + 1) s) :=
  scaled_of_first h (Nat.le_of_lt (h.lt_period steady_half))

theorem between_mem (hle : low ≤ high) (hsize : low = 0 ∨ high < UInt64.size) (s : Source) :
    low ≤ (between low high s).1 ∧ (between low high s).1 ≤ high := by
  rw [between_eq]
  split
  · next hrange =>
    have hword : s.next.1.toNat < UInt64.size := s.next.1.toNat_lt
    dsimp only
    omega
  · have hlt : (scaled 64 (high - low + 1) (UInt64.toNat <$> word) (turns s) s).1 < high - low + 1 :=
      scaled_lt (Nat.succ_pos _) (fun s => s.next.1.toNat_lt) _ _
    dsimp only
    omega

theorem exists_between {k : Nat} (hlow : low ≤ k) (hhigh : k ≤ high) (hsize : high < UInt64.size) :
    ∃ w : UInt64, ∀ s : Source, s.next.1 = w → between low high s = (k, s.next.2) := by
  have htoNat {v : Nat} (hv : v < UInt64.size) : (UInt64.ofNat v).toNat = v := by
    rw [UInt64.toNat_ofNat', Nat.mod_eq_of_lt hv]
  by_cases hrange : high - low + 1 = UInt64.size
  · refine ⟨UInt64.ofNat k, fun s hs => ?_⟩
    rw [between_eq, if_pos hrange, hs, htoNat (by omega)]
  · have hwidth : high - low + 1 ≤ UInt64.size := by omega
    obtain ⟨v, hv, haccepted, hvalue⟩ : ∃ v < 2 ^ 64, Accepted 64 (high - low + 1) v ∧
        v * (high - low + 1) / 2 ^ 64 = k - low := exists_accepted (by omega) hwidth
    refine ⟨UInt64.ofNat v, fun s hs => ?_⟩
    have hnth : nth (UInt64.toNat <$> word) 0 s = v := by
      show s.next.1.toNat = v
      rw [hs, htoNat hv]
    rw [between_of_first hrange (.zero (hnth ▸ haccepted)), hnth, hvalue, Nat.add_sub_cancel' hlow]
    rfl

theorem index_lt {length : Nat} (hlength : length ≠ 0) (s : Source) :
    (index length s).1 < length := by
  unfold index
  split
  · exact scaled_lt (Nat.pos_of_ne_zero hlength) (fun s => s.nextHalf.1.toNat_lt) _ _
  · have hmem := between_mem (Nat.zero_le (length - 1)) (.inl rfl) s
    omega

theorem exists_index {length i : Nat} (hi : i < length) (hsize : length ≤ UInt64.size) :
    ∃ w : UInt64, ∀ (words : List UInt64) (position : Nat),
      (Source.script words position).next.1 = w →
        index length (.script words position) = (i, .script words (position + 1)) := by
  unfold index
  split
  · next hsmall =>
    obtain ⟨v, hv, haccepted, hvalue⟩ : ∃ v < 2 ^ 32, Accepted 32 length v ∧
        v * length / 2 ^ 32 = i := exists_accepted hi (Nat.le_of_lt hsmall)
    refine ⟨UInt64.ofNat v, fun words position hs => ?_⟩
    have hnth : nth (UInt32.toNat <$> half) 0 (.script words position) = v := by
      show (Source.script words position).next.1.toUInt32.toNat = v
      rw [hs, UInt64.toNat_toUInt32, UInt64.toNat_ofNat']
      omega
    rw [below_of_first (.zero (hnth ▸ haccepted)), hnth, hvalue]
    rfl
  · obtain ⟨w, hw⟩ := exists_between (Nat.zero_le i) (Nat.le_sub_one_of_lt hi)
      (by omega : length - 1 < UInt64.size)
    exact ⟨w, fun words position => hw (.script words position)⟩

end

section

variable {A : Type} {xs : List A}

theorem choose_nil (s : Source) : choose ([] : List A) s = (none, s) := rfl

theorem choose_eq (hxs : xs ≠ []) (s : Source) :
    choose xs s = (xs[(index xs.length s).1]?, (index xs.length s).2) :=
  if_neg (by simpa using hxs)

theorem choose_mem (hxs : xs ≠ []) (s : Source) :
    ∃ x ∈ xs, (choose xs s).1 = some x := by
  have hlt := index_lt (mt List.length_eq_zero_iff.mp hxs) s
  rw [choose_eq hxs]
  exact ⟨_, List.getElem_mem hlt, List.getElem?_eq_getElem hlt⟩

theorem exists_choose {x : A} (hx : x ∈ xs) (hsize : xs.length ≤ UInt64.size) :
    ∃ w : UInt64, ∀ (words : List UInt64) (position : Nat),
      (Source.script words position).next.1 = w →
        choose xs (.script words position) = (some x, .script words (position + 1)) := by
  obtain ⟨i, hi, rfl⟩ := List.mem_iff_getElem.mp hx
  obtain ⟨w, hw⟩ := exists_index hi hsize
  refine ⟨w, fun words position hs => ?_⟩
  rw [choose_eq (List.ne_nil_of_mem hx), hw words position hs, List.getElem?_eq_getElem hi]

end

end Draw

end Soundscape
