import Mathlib.Data.List.TakeWhile
import Soundscape.Proofs.Script.Written
import Soundscape.Proofs.Text.Parts

/-!
# The first word of a text

Lines and values are sorted by their first word, which is cut out of the characters, and are then
read as tokens.  Where the first token is a word, the characters of the text up to the next token
are that word and blanks (`Token.word_of_tokenize`).  So wherever a word of letters is cut at
blanks and at the character that the next token starts with, what is cut out is the first token.
-/

namespace Soundscape

open Numeral (isDigit)

/-! ## Letters and digits -/

theorem isAlpha_of_toLower {c : Char} (h : c.toLower.isLower) : c.isAlpha := by
  unfold Char.toLower at h
  split at h
  · next hc =>
    have hupper : c.isUpper := decide_eq_true hc
    exact Bool.or_eq_true_iff.mpr (.inl hupper)
  · exact Bool.or_eq_true_iff.mpr (.inr h)

theorem isDigit_toLower {c : Char} : isDigit c.toLower = isDigit c := by
  rw [Bool.eq_iff_iff, isDigit_iff, isDigit_iff]
  unfold Char.toLower
  split
  · next h =>
    have hlow : 65 ≤ c.val.toNat := UInt32.le_iff_toNat_le.mp h.1
    have hhigh : c.val.toNat ≤ 90 := UInt32.le_iff_toNat_le.mp h.2
    have hsum : (c.val + ('a'.val - 'A'.val)).toNat = c.val.toNat + 32 := by
      rw [UInt32.toNat_add, show ('a'.val - 'A'.val).toNat = 32 from rfl,
        Nat.mod_eq_of_lt (by omega)]
    show 48 ≤ (c.val + ('a'.val - 'A'.val)).toNat ∧ (c.val + ('a'.val - 'A'.val)).toNat ≤ 57 ↔ _
    rw [hsum, ← Char.toNat_val]
    omega
  · rfl

namespace Text

theorem isAlpha_of_lower {word : List Char} (h : (lower word).all Char.isLower) :
    ∀ c ∈ word, c.isAlpha := fun _ hc =>
  isAlpha_of_toLower (List.all_eq_true.mp h _ (List.mem_map_of_mem hc))

theorem head_trim {cs : List Char} {c : Char} (h : c ∈ (trim cs).head?) : isBlank c = false := by
  have hprefix : trim cs ++ ending isBlank (trimStart cs) = trimStart cs :=
    dropEnding_append_ending isBlank (trimStart cs)
  have hhead : c ∈ (cs.dropWhile isBlank).head? := by
    show c ∈ (trimStart cs).head?
    rw [← hprefix, List.head?_append, Option.mem_def.mp h]
    rfl
  have hnot := List.head?_dropWhile_not isBlank cs
  rw [Option.mem_def.mp hhead] at hnot
  exact hnot

end Text

namespace Token

variable {α : Type}

/-- The characters that a token can start with. -/
def StartsWith (c : Char) : Token α → Prop
  | keyword _ | ident _ => isAlphabetic c ∨ c = '_'
  | number _ => c = '.' ∨ c = '-' ∨ isDigit c
  | str _ => c = '"'
  | star => c = '*'
  | colon => c = ':'
  | comma => c = ','
  | equals => c = '='
  | openParen => c = '('
  | closeParen => c = ')'
  | dots => c = '.'

def isWord : Token α → Bool
  | keyword _ | ident _ => true
  | _ => false

/-- The lexeme starts with its character, and a word goes as far as characters of words do. -/
structure Starts (c : Char) (cs : List Char) (x : Lexeme α) : Prop where
  first : x.token.StartsWith c
  word : x.token.isWord → x = ⟨ofWord (c :: cs.takeWhile inWord), (cs.takeWhile inWord).length⟩

/-- If a lexeme was read, then it starts with its character. -/
def Lexes (c : Char) (cs : List Char) (r : Except LexicalError (Lexeme α)) : Prop :=
  ∀ x, r = .ok x → Starts c cs x

namespace Lexes

variable {c : Char} {cs : List Char}

theorem ite {p : Prop} [Decidable p] {r r' : Except LexicalError (Lexeme α)}
    (h : p → Lexes c cs r) (h' : Lexes c cs r') : Lexes c cs (if p then r else r') := by
  split
  · next hp => exact h hp
  · exact h'

theorem mark {t : Token α} {more : Nat} (hc : t.StartsWith c) (ht : t.isWord = false) :
    Lexes c cs (.ok ⟨t, more⟩) := by
  rintro _ ⟨⟩
  exact ⟨hc, fun h => absurd h (Bool.not_eq_true _ ▸ ht)⟩

theorem lexString (hc : c = '"') : Lexes c cs (lexString (α := α) cs) :=
  ite (fun _ => nofun) (mark hc rfl)

theorem lexNumber [Scalar α] (cs' : List Char) (hc : c = '.' ∨ c = '-' ∨ isDigit c) :
    Lexes c cs (lexNumber (α := α) cs') := by
  unfold Token.lexNumber
  dsimp only
  split
  · exact mark hc rfl
  · nofun

theorem word (hc : isAlphabetic c ∨ c = '_') :
    Lexes (α := α) c cs (.ok ⟨ofWord (c :: cs.takeWhile inWord), (cs.takeWhile inWord).length⟩) := by
  rintro _ ⟨⟩
  refine ⟨?_, fun _ => rfl⟩
  unfold ofWord
  split <;> exact hc

theorem lexeme [Scalar α] (c : Char) (cs : List Char) : Lexes (α := α) c cs (lexeme c cs) := by
  unfold Token.lexeme
  dsimp only
  iterate 6 refine ite (fun hc => mark hc rfl) ?_
  refine ite lexString ?_
  refine ite (fun hc => mark hc.1 rfl) ?_
  refine ite (fun hc => lexNumber _ (.inl hc.1)) ?_
  refine ite (fun hc => lexNumber _ (.inr (.inl hc.1))) ?_
  refine ite (fun hc => lexNumber _ (.inr (.inr hc))) ?_
  exact ite word nofun

end Lexes

variable [Scalar α]

/-- The tokens of a text that does not start with a blank: the first one, and those of the rest. -/
theorem tokenize_cons {column : Nat} {c : Char} {cs : List Char} {ts : List (Placed α)}
    (hc : isBlank c = false) (h : tokenize column (c :: cs) = .ok ts) :
    ∃ x rest, lexeme c cs = .ok x ∧ tokenize (column + 1 + x.more) (cs.drop x.more) = .ok rest ∧
      ts = ⟨x.token, column⟩ :: rest := by
  unfold tokenize at h
  rw [if_neg (by simp [hc])] at h
  split at h
  · cases h
  · next x hx =>
    obtain ⟨rest, hrest, h⟩ := Outcome.of_bind_eq_ok h
    cases h
    exact ⟨x, rest, hx, hrest, rfl⟩

theorem head_of_tokenize {column : Nat} {cs : List Char} {t : Placed α} {ts : List (Placed α)}
    (h : tokenize column cs = .ok (t :: ts)) :
    ∃ c rest, cs = c :: rest ∧ (isBlank c ∨ t.token.StartsWith c) := by
  cases cs with
  | nil =>
    unfold tokenize at h
    cases h
  | cons c cs =>
    refine ⟨c, cs, rfl, ?_⟩
    cases hc : isBlank c with
    | true => exact .inl rfl
    | false =>
      obtain ⟨x, rest, hx, -, hts⟩ := tokenize_cons hc h
      cases hts
      exact .inr (Lexes.lexeme _ _ _ hx).first

theorem mem_of_tokenize {column : Nat} {cs : List Char} {ts : List (Placed α)}
    (h : tokenize column cs = .ok ts) : ∀ t ∈ ts, ∃ c ∈ cs, t.token.StartsWith c := by
  induction column, cs using tokenize.induct (α := α) generalizing ts with
  | case1 column =>
    unfold tokenize at h
    cases h
    nofun
  | case2 column c cs hc ih =>
    unfold tokenize at h
    rw [if_pos hc] at h
    intro t ht
    obtain ⟨d, hd, ht⟩ := ih h t ht
    exact ⟨d, List.mem_cons_of_mem c hd, ht⟩
  | case3 column c cs hc e he =>
    unfold tokenize at h
    rw [if_neg hc, he] at h
    cases h
  | case4 column c cs hc x hx ih =>
    obtain ⟨x', rest, hx', hrest, rfl⟩ := tokenize_cons (by simpa using hc) h
    obtain rfl : x = x' := by simpa [hx] using hx'
    intro t ht
    obtain rfl | ht := List.mem_cons.mp ht
    · exact ⟨c, List.mem_cons_self, (Lexes.lexeme _ _ _ hx).first⟩
    · obtain ⟨d, hd, ht⟩ := ih hrest t ht
      exact ⟨d, List.mem_cons_of_mem c (List.mem_of_mem_drop hd), ht⟩

/-- Where the first token is a word, the text is that word, and then there is a blank or the next
token. -/
theorem word_of_tokenize {column : Nat} {cs : List Char} {t u : Placed α} {ts : List (Placed α)}
    (hcs : ∀ c ∈ cs.head?, isBlank c = false) (h : tokenize column cs = .ok (t :: u :: ts))
    (ht : t.token.isWord) :
    ∃ word d rest, cs = word ++ d :: rest ∧ t.token = ofWord word ∧
      (isBlank d ∨ u.token.StartsWith d) := by
  obtain ⟨c, cs, rfl, -⟩ := head_of_tokenize h
  obtain ⟨x, after, hx, hafter, hts⟩ := tokenize_cons (hcs c rfl) h
  cases hts
  -- the word ends where the characters of words do, and the rest is read on its own
  have hword := (Lexes.lexeme _ _ _ hx).word ht
  obtain ⟨d, rest, hd, hu⟩ := head_of_tokenize hafter
  refine ⟨c :: cs.takeWhile inWord, d, rest, ?_, by rw [hword], hu⟩
  rw [← hd, hword, List.cons_append]
  exact congrArg (c :: ·) (List.prefix_iff_eq_append.mp (List.takeWhile_prefix inWord)).symm

omit [Scalar α] in
theorem lower_of_ofWord_keyword {word : List Char} {k : Keyword}
    (h : (ofWord word : Token α) = .keyword k) : Text.lower word = k.word.toList := by
  unfold ofWord at h
  split at h
  · next k' hk =>
    cases h
    unfold Keyword.ofWord? at hk
    have hword := List.find?_some hk
    exact (eq_of_beq hword).symm
  · cases h

omit [Scalar α] in
theorem eq_of_ofWord_ident {word : List Char} {name : String}
    (h : (ofWord word : Token α) = .ident name) : word = name.toList := by
  unfold ofWord at h
  split at h <;> cases h
  exact String.toList_ofList.symm

/-- A word of letters is the part of the text before the first character that is blank or starts the
next token. -/
theorem ofWord_takeWhile {column : Nat} {cs : List Char} {t u : Placed α} {ts : List (Placed α)}
    {p : Char → Bool} (hcs : ∀ c ∈ cs.head?, isBlank c = false)
    (h : tokenize column cs = .ok (t :: u :: ts)) (ht : t.token.isWord)
    (hletters : ∀ word, t.token = ofWord word → ∀ c ∈ word, c.isAlpha)
    (hp : ∀ c, c.isAlpha → p c) (hblank : ∀ c, isBlank c → p c = false)
    (hnext : ∀ c, u.token.StartsWith c → p c = false) : t.token = ofWord (cs.takeWhile p) := by
  obtain ⟨word, d, rest, rfl, hword, hd⟩ := word_of_tokenize hcs h ht
  have hpd : ¬ p d := by simpa using hd.elim (hblank d) (hnext d)
  rw [List.takeWhile_append_of_pos fun c hc => hp c (hletters word hword c hc),
    List.takeWhile_cons_of_neg hpd, List.append_nil]
  exact hword

end Token

end Soundscape
