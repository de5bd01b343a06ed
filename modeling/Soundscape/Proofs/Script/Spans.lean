import Mathlib.Data.List.Forall2
import Soundscape.Proofs.Script.Lexemes

/-!
# The spans of tokens

Reading tokens loses nothing: each token stands for a span of the text that alone is read as that
token, and what is in no span is blank (`Token.Spans`).  The spans of a text behind another one
follow those of the first (`Token.Spans.append`).  Where reading fails, all tokens before the column
that is reported have been read, and the lexeme that starts there has not (`Token.tokenize_lossless`).
-/

namespace Soundscape

/-- A stretch of a text, from one position to just before another. -/
structure Span where
  start : Nat
  stop : Nat
  deriving Repr, DecidableEq

namespace Span

def Holds (s : Span) (i : Nat) : Prop := s.start ≤ i ∧ i < s.stop

/-- The span as it lies with some characters more in front of the text. -/
def shift (n : Nat) (s : Span) : Span := ⟨n + s.start, n + s.stop⟩

end Span

theorem Text.extract_append_left {cs : List Char} {i j : Nat} (h : j ≤ cs.length) (ds : List Char) :
    (cs ++ ds).extract i j = cs.extract i j := by
  by_cases hi : i ≤ cs.length
  · rw [List.extract_eq_take_drop, List.extract_eq_take_drop, List.drop_append_of_le_length hi,
      List.take_append_of_le_length (by rw [List.length_drop]; omega)]
  · have hlength : j - i = 0 := by omega
    rw [List.extract_eq_take_drop, List.extract_eq_take_drop, hlength, List.take_zero,
      List.take_zero]

theorem Text.extract_append_right (cs ds : List Char) (i j : Nat) :
    (cs ++ ds).extract (cs.length + i) (cs.length + j) = ds.extract i j := by
  rw [List.extract_eq_take_drop, List.extract_eq_take_drop, List.drop_length_add_append,
    Nat.add_sub_add_left]

namespace Token

variable {α : Type} [Scalar α]

/-- In a text that starts at a column, the token starts at the first character of the span, which
alone is read as that token and no other. -/
structure Fills (column : Nat) (text : List Char) (t : Placed α) (s : Span) : Prop where
  starts : t.column = column + s.start
  inside : s.stop ≤ text.length
  alone (k : Nat) : tokenize k (text.extract s.start s.stop) = .ok [⟨t.token, k⟩]

namespace Fills

variable {column : Nat} {text : List Char} {t : Placed α} {s : Span}

theorem append_left (h : Fills column text t s) (text' : List Char) :
    Fills column (text ++ text') t s where
  starts := h.starts
  inside := by
    rw [List.length_append]
    exact Nat.le_add_right_of_le h.inside
  alone k := by
    rw [Text.extract_append_left h.inside]
    exact h.alone k

theorem append_right {text' : List Char} (h : Fills (column + text.length) text' t s) :
    Fills column (text ++ text') t (s.shift text.length) where
  starts := h.starts.trans (Nat.add_assoc _ _ _)
  inside := by
    rw [List.length_append]
    exact Nat.add_le_add_left h.inside _
  alone k := by
    show tokenize k ((text ++ text').extract (text.length + s.start) (text.length + s.stop)) = _
    rw [Text.extract_append_right]
    exact h.alone k

end Fills

/-- Spans of a text that starts at a column, one for each of its tokens and in their order; what is
in none of them is blank. -/
structure Spans (column : Nat) (text : List Char) (ts : List (Placed α)) (spans : List Span) :
    Prop where
  fills : List.Forall₂ (Fills column text) ts spans
  apart : spans.Pairwise fun s s' => s.stop ≤ s'.start
  blank {i : Nat} {c : Char} : text[i]? = some c → (∀ s ∈ spans, ¬ s.Holds i) → isBlank c

namespace Spans

variable {column : Nat} {text text' : List Char} {ts ts' : List (Placed α)} {spans spans' : List Span}

theorem inside (h : Spans column text ts spans) : ∀ s ∈ spans, s.stop ≤ text.length := by
  have hfills := h.fills
  clear h
  induction hfills with
  | nil => nofun
  | cons h _ ih => exact List.forall_mem_cons.mpr ⟨h.inside, ih⟩

theorem nil : Spans column [] ([] : List (Placed α)) [] where
  fills := .nil
  apart := .nil
  blank := nofun

theorem ofBlank {c : Char} (h : isBlank c) : Spans column [c] ([] : List (Placed α)) [] where
  fills := .nil
  apart := .nil
  blank {i d} hd _ := by
    obtain rfl : d = c := by simpa using List.mem_of_getElem? hd
    exact h

theorem ofToken {t : Token α} {w : List Char} (h : ∀ k, tokenize k w = .ok [⟨t, k⟩]) :
    Spans column w [⟨t, column⟩] [⟨0, w.length⟩] where
  fills := .cons ⟨rfl, Nat.le_refl _, by simpa using h⟩ .nil
  apart := List.pairwise_singleton _ _
  blank {i c} hc hno := by
    obtain ⟨hi, -⟩ := List.getElem?_eq_some_iff.mp hc
    exact absurd ⟨i.zero_le, hi⟩ (hno _ List.mem_cons_self)

/-- The spans of a text behind another one follow those of the first. -/
theorem append (h : Spans column text ts spans)
    (h' : Spans (column + text.length) text' ts' spans') :
    Spans column (text ++ text') (ts ++ ts') (spans ++ spans'.map (Span.shift text.length)) where
  fills := by
    have hright : List.Forall₂ (Fills column (text ++ text')) ts'
        (spans'.map (Span.shift text.length)) :=
      List.forall₂_map_right_iff.mpr (h'.fills.imp fun _ _ => Fills.append_right)
    exact List.rel_append (h.fills.imp fun _ _ hs => hs.append_left text') hright
  apart := by
    refine List.pairwise_append.mpr ⟨h.apart, ?_, ?_⟩
    · exact List.pairwise_map.mpr (h'.apart.imp fun hs => Nat.add_le_add_left hs _)
    · intro s hs s' hs'
      obtain ⟨s', -, rfl⟩ := List.mem_map.mp hs'
      exact Nat.le_add_right_of_le (h.inside s hs)
  blank {i c} hc hno := by
    obtain hi | hi := Nat.lt_or_ge i text.length
    · rw [List.getElem?_append_left hi] at hc
      exact h.blank hc fun s hs => hno s (List.mem_append_left _ hs)
    · rw [List.getElem?_append_right hi] at hc
      refine h'.blank hc fun s hs hholds => ?_
      have hstart := hholds.1
      have hstop := hholds.2
      refine hno (s.shift text.length) (List.mem_append_right _ (List.mem_map_of_mem hs)) ⟨?_, ?_⟩
      · show text.length + s.start ≤ i
        omega
      · show i < text.length + s.stop
        omega

end Spans

theorem tokenize_of_leads {c : Char} {t : Token α} {w rest : List Char} (hc : isBlank c = false)
    (h : Leads t (c :: w) rest) (k : Nat) : tokenize k (c :: w) = .ok [⟨t, k⟩] := by
  have hread : Reading k (c :: w ++ []) [⟨t, k⟩] :=
    .token hc (h.cut List.nil_prefix (by simp)) .nil
  rw [List.append_nil] at hread
  exact tokenize_eq_ok_iff.mpr hread

theorem Reading.spans {column : Nat} {text : List Char} {ts : List (Placed α)}
    (h : Reading column text ts) : ∃ spans, Spans column text ts spans := by
  induction h with
  | nil => exact ⟨[], .nil⟩
  | blank hc _ ih =>
    obtain ⟨spans, h⟩ := ih
    exact ⟨_, (Spans.ofBlank hc).append h⟩
  | @token column c w rest t ts hc hleads _ ih =>
    obtain ⟨spans, h⟩ := ih
    rw [show column + 1 + w.length = column + (c :: w).length by
      rw [List.length_cons]; omega] at h
    exact ⟨_, (Spans.ofToken (tokenize_of_leads hc hleads)).append h⟩

theorem not_reading_point {column : Nat} {ts : List (Placed α)} : ¬ Reading column ['.'] ts := by
  intro h
  have hread := tokenize_eq_ok_iff.mpr h
  rw [tokenize] at hread
  cases hread

theorem reading_before_error {column found : Nat} {text : List Char} {e : LexicalError}
    (h : tokenize (α := α) column text = .error (e, found)) :
    ∃ before c after ts, text = before ++ c :: after ∧ found = column + before.length ∧
      isBlank c = false ∧ lexeme (α := α) c after = .error e ∧
      Reading (α := α) column before ts := by
  induction column, text using tokenize.induct (α := α) with
  | case1 column =>
    unfold tokenize at h
    cases h
  | case2 column c cs hc ih =>
    unfold tokenize at h
    rw [if_pos hc] at h
    obtain ⟨before, d, after, ts, rfl, rfl, hd, he, hread⟩ := ih h
    exact ⟨c :: before, d, after, ts, rfl, by rw [List.length_cons]; omega, hd, he, .blank hc hread⟩
  | case3 column c cs hc e' he =>
    unfold tokenize at h
    rw [if_neg hc, he] at h
    cases h
    exact ⟨[], c, cs, [], rfl, rfl, by simpa using hc, he, .nil⟩
  | case4 column c cs hc x hx ih =>
    unfold tokenize at h
    rw [if_neg hc, hx] at h
    obtain ⟨w, rest, rfl, hlength, hleads⟩ := lexeme_eq_ok_iff.mp hx
    dsimp only at h
    rw [← hlength, List.drop_left] at h ih
    cases hrest : tokenize (α := α) (column + 1 + w.length) rest with
    | ok ts =>
      rw [hrest] at h
      cases h
    | error f =>
      rw [hrest] at h
      cases h
      obtain ⟨before, d, after, ts, rfl, rfl, hd, he, hread⟩ := ih hrest
      refine ⟨c :: w ++ before, d, after, _, by simp, by simp; omega, hd, he,
        .token (by simpa using hc) (hleads.cut (List.prefix_append _ _) ?_) hread⟩
      -- a point that is left over would not have been read
      rintro rfl
      exact not_reading_point hread

/-- Reading tokens loses nothing.  The tokens of a text have spans of it, in order and apart, each of
which alone is read as its token, with blanks outside them.  If reading fails, then at the first
character of a lexeme that cannot be read, and the text before it is read. -/
theorem tokenize_lossless (column : Nat) (text : List Char) :
    (∀ ts : List (Placed α), tokenize column text = .ok ts → ∃ spans, Spans column text ts spans) ∧
    ∀ e found, tokenize (α := α) column text = .error (e, found) →
      ∃ before c after, text = before ++ c :: after ∧ found = column + before.length ∧
        isBlank c = false ∧ lexeme (α := α) c after = .error e ∧
        ∃ ts : List (Placed α), tokenize column before = .ok ts := by
  refine ⟨fun ts h => (tokenize_eq_ok_iff.mp h).spans, fun e found h => ?_⟩
  obtain ⟨before, c, after, ts, htext, hfound, hc, he, hread⟩ := reading_before_error h
  exact ⟨before, c, after, htext, hfound, hc, he, ts, tokenize_eq_ok_iff.mpr hread⟩

/-- Points that belong to numbers and points between them, and a sign that no number follows. -/
theorem tokenize_lossless_points :
    (∃ spans : List Span, Spans 1 "-.5..1...5".toList
      [⟨.number (-0.5 : Float), 1⟩, ⟨.dots, 4⟩, ⟨.number 1, 6⟩, ⟨.dots, 7⟩, ⟨.number 0.5, 9⟩] spans) ∧
    tokenize (α := Float) 1 "1.5.2 ..-..5".toList = .error (.invalidNumber "-", 9) ∧
    ∃ before c after, "1.5.2 ..-..5".toList = before ++ c :: after ∧ 9 = 1 + before.length ∧
      isBlank c = false ∧ lexeme (α := Float) c after = .error (.invalidNumber "-") ∧
      ∃ ts : List (Placed Float), tokenize 1 before = .ok ts := by
  have hread : tokenize 1 "-.5..1...5".toList = .ok [⟨.number (-0.5 : Float), 1⟩, ⟨.dots, 4⟩,
      ⟨.number 1, 6⟩, ⟨.dots, 7⟩, ⟨.number 0.5, 9⟩] := by decide +kernel
  have herror : tokenize (α := Float) 1 "1.5.2 ..-..5".toList = .error (.invalidNumber "-", 9) := by
    decide +kernel
  exact ⟨(tokenize_lossless 1 _).1 _ hread, herror, (tokenize_lossless 1 _).2 _ _ herror⟩

end Token

end Soundscape
