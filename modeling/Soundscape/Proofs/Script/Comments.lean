import Soundscape.Proofs.Script.Lexed
import Soundscape.Proofs.Script.Spans

/-!
# Comments and strings

The comment of a line is cut off by counting quotes, before anything is read as tokens.  Reading
tokens takes quotes in the same pairs: what it has not read yet has no comment, if the whole text
has none (`Token.Reading.uncommented`).  So every `#` that is left in a line or in the value of a
property lies in a quoted string (`Line.hash_quoted`).
-/

namespace Soundscape

/-! ## Texts without a comment -/

/-- No comment starts in the text; `quoted` tells whether a string is open before it. -/
def Uncommented (quoted : Bool) (cs : List Char) : Prop := Line.beforeComment quoted cs = cs

namespace Uncommented

variable {quoted : Bool} {c : Char} {cs ds : List Char}

theorem cons_iff : Uncommented quoted (c :: cs) ↔
    ¬ (c = '#' ∧ quoted = false) ∧ Uncommented (if c = '"' then !quoted else quoted) cs := by
  unfold Uncommented
  rw [Line.beforeComment]
  split
  · next hc => simp [hc]
  · split
    · next hc => simp [hc]
    · next hc => simp [hc]

theorem beforeComment (quoted : Bool) (cs : List Char) :
    Uncommented quoted (Line.beforeComment quoted cs) := by
  induction cs generalizing quoted with
  | nil => rfl
  | cons c cs ih =>
    rw [Line.beforeComment]
    split
    · next hc => exact cons_iff.mpr ⟨by simp [hc], by simpa [hc] using ih (!quoted)⟩
    · next hc =>
      split
      · rfl
      · next hhash => exact cons_iff.mpr ⟨hhash, by simpa [hc] using ih quoted⟩

theorem of_append (h : Uncommented quoted (cs ++ ds)) : Uncommented quoted cs := by
  induction cs generalizing quoted with
  | nil => rfl
  | cons c cs ih =>
    obtain ⟨hhash, h⟩ := cons_iff.mp h
    exact cons_iff.mpr ⟨hhash, ih h⟩

theorem drop (h : Uncommented quoted (cs ++ ds)) (hcs : '"' ∉ cs) : Uncommented quoted ds := by
  induction cs with
  | nil => exact h
  | cons c cs ih =>
    obtain ⟨hc, hcs⟩ := List.ne_and_not_mem_of_not_mem_cons hcs
    obtain ⟨-, h⟩ := cons_iff.mp h
    rw [if_neg (Ne.symm hc)] at h
    exact ih h hcs

theorem hash_not_mem (h : Uncommented false cs) (hcs : '"' ∉ cs) : '#' ∉ cs := by
  induction cs with
  | nil => exact List.not_mem_nil
  | cons c cs ih =>
    obtain ⟨hc, hcs⟩ := List.ne_and_not_mem_of_not_mem_cons hcs
    obtain ⟨hhash, h⟩ := cons_iff.mp h
    rw [if_neg (Ne.symm hc)] at h
    exact List.not_mem_cons_of_ne_of_not_mem (fun he => hhash ⟨he.symm, rfl⟩) (ih h hcs)

theorem drop_string (h : Uncommented false ('"' :: cs ++ '"' :: ds)) (hcs : '"' ∉ cs) :
    Uncommented false ds := by
  have hinside : Uncommented true (cs ++ '"' :: ds) := (cons_iff.mp h).2
  exact (cons_iff.mp (hinside.drop hcs)).2

theorem trim (h : Uncommented false cs) : Uncommented false (Text.trim cs) := by
  have hblank {bs : List Char} (hbs : ∀ c ∈ bs, isBlank c) : '"' ∉ bs := fun hmem =>
    absurd (hbs _ hmem) (by decide)
  have hstart : Uncommented false (Text.trimStart cs) := by
    rw [← List.takeWhile_append_dropWhile (p := isBlank) (l := cs)] at h
    exact h.drop (hblank fun _ => List.mem_takeWhile_imp)
  rw [← Text.dropEnding_append_ending isBlank (Text.trimStart cs)] at hstart
  exact hstart.of_append

end Uncommented

/-! ## Tokens -/

namespace Token

variable {α : Type} [Scalar α]

/-- The position in a text that starts at a column lies between the quotes of one of the strings. -/
def InString (column : Nat) (ts : List (Placed α)) (i : Nat) : Prop :=
  ∃ t ∈ ts, ∃ s : String, t.token = .str s ∧ t.column < column + i ∧ column + i ≤ t.column + s.length

omit [Scalar α] in
theorem InString.later {column n : Nat} {t : Placed α} {ts : List (Placed α)} {i : Nat}
    (h : InString (column + n) ts i) : InString column (t :: ts) (n + i) := by
  obtain ⟨u, hu, s, hs, hstart, hstop⟩ := h
  exact ⟨u, List.mem_cons_of_mem t hu, s, hs, by omega, by omega⟩

theorem Leads.string_or_not_mem {t : Token α} {w rest : List Char} (h : Leads t w rest) :
    (∃ s, t = .str (String.ofList s) ∧ w = '"' :: s ++ ['"'] ∧ '"' ∉ s) ∨ '"' ∉ w := by
  cases h with
  | mark h =>
    refine .inr fun hmem => ?_
    rw [← List.mem_singleton.mp hmem] at h
    simp [marks] at h
  | str h => exact .inl ⟨_, rfl, rfl, h⟩
  | dots => exact .inr (by decide)
  | number h hv =>
    refine .inr fun hmem => ?_
    obtain hc | hc | hc := mem_numberText (by rwa [h])
    all_goals exact absurd hc (by decide)
  | word hc hw h =>
    refine .inr fun hmem => ?_
    obtain rfl | hmem := List.mem_cons.mp hmem
    · exact absurd hc (by decide)
    · exact absurd (hw _ hmem) (by decide)

/-- What follows a text that is read has no comment if they have none together, and each `#` of the
text lies in a string. -/
theorem Reading.uncommented {column : Nat} {text rest : List Char} {ts : List (Placed α)}
    (h : Reading column text ts) (hcs : Uncommented false (text ++ rest)) :
    Uncommented false rest ∧ ∀ i, text[i]? = some '#' → InString column ts i := by
  induction h with
  | nil => exact ⟨hcs, nofun⟩
  | @blank column c cs ts hc _ ih =>
    have hquote : '"' ∉ [c] := fun hmem => by
      rw [← List.mem_singleton.mp hmem] at hc
      exact absurd hc (by decide)
    have hcs' : Uncommented false ([c] ++ (cs ++ rest)) := hcs
    obtain ⟨hrest, hin⟩ := ih (hcs'.drop hquote)
    refine ⟨hrest, fun i hi => ?_⟩
    cases i with
    | zero =>
      obtain rfl : c = '#' := by simpa using hi
      exact absurd hc (by decide)
    | succ i =>
      obtain ⟨t, ht, s, hs, hstart, hstop⟩ := hin i (by simpa using hi)
      exact ⟨t, ht, s, hs, by omega, by omega⟩
  | @token column c w after t ts _ hleads _ ih =>
    rw [List.append_assoc] at hcs
    rw [show column + 1 + w.length = column + (c :: w).length by
      rw [List.length_cons]; omega] at ih
    generalize c :: w = cs at hleads hcs ih ⊢
    have hlater (hrest : Uncommented false (after ++ rest)) {i : Nat} (hlength : cs.length ≤ i)
        (hi : (cs ++ after)[i]? = some '#') : InString column (⟨t, column⟩ :: ts) i := by
      rw [List.getElem?_append_right hlength] at hi
      have hin := ((ih hrest).2 _ hi).later (t := ⟨t, column⟩)
      rwa [Nat.add_sub_cancel' hlength] at hin
    obtain ⟨s, rfl, rfl, hs⟩ | hquote := hleads.string_or_not_mem
    · have hrest : Uncommented false (after ++ rest) :=
        Uncommented.drop_string (by simpa using hcs) hs
      refine ⟨(ih hrest).1, fun i hi => ?_⟩
      obtain hlt | hge := Nat.lt_or_ge i ('"' :: s ++ ['"']).length
      · -- the `#` is not one of the two quotes
        rw [List.getElem?_append_left hlt] at hi
        have hfirst : i ≠ 0 := by
          rintro rfl
          simp at hi
        have hlast : i ≠ s.length + 1 := by
          rintro rfl
          simp at hi
        simp only [List.length_cons, List.length_append, List.length_nil] at hlt
        refine ⟨_, List.mem_cons_self, _, rfl, ?_, ?_⟩
        · show column < column + i
          omega
        · rw [String.length_ofList]
          show column + i ≤ column + s.length
          omega
      · exact hlater hrest hge hi
    · have hrest := hcs.drop hquote
      refine ⟨(ih hrest).1, fun i hi => hlater hrest (Nat.le_of_not_lt fun hlt => ?_) hi⟩
      rw [List.getElem?_append_left hlt] at hi
      exact hcs.of_append.hash_not_mem hquote (List.mem_of_getElem? hi)

theorem lexeme_unexpected {c d : Char} {cs : List Char}
    (h : lexeme (α := α) c cs = .error (.unexpected d)) : d = c := by
  have ite {p : Prop} [Decidable p] {r r' : Except LexicalError (Lexeme α)}
      (hr : r = .error (.unexpected d) → d = c) (hr' : r' = .error (.unexpected d) → d = c) :
      (if p then r else r') = .error (.unexpected d) → d = c := by
    split
    · exact hr
    · exact hr'
  have hstring : lexString (α := α) cs = .error (.unexpected d) → d = c := ite nofun nofun
  have hnumber : lexNumber (α := α) (c :: cs) = .error (.unexpected d) → d = c := by
    unfold lexNumber
    dsimp only
    split <;> nofun
  revert h
  unfold lexeme
  dsimp only
  iterate 6 refine ite nofun ?_
  refine ite hstring (ite nofun ?_)
  iterate 3 refine ite hnumber ?_
  refine ite nofun ?_
  rintro ⟨⟩
  rfl

end Token

/-! ## Lines and values -/

namespace Line

theorem uncommented_text {source : String} {l : Line} (hl : l ∈ ofSource source.toList) :
    Uncommented false l.text := by
  have hraws {n : Nat} {raws : List (List Char)} (hl : l ∈ ofRaws n raws) :
      ∃ raw, l.text = Text.trim (beforeComment false raw) := by
    induction raws generalizing n with
    | nil => cases hl
    | cons raw rest ih =>
      rw [ofRaws, List.mem_append, Option.mem_toList] at hl
      obtain hl | hl := hl
      · unfold ofRaw? at hl
        dsimp only at hl
        split at hl <;> cases hl
        exact ⟨raw, rfl⟩
      · exact ih hl
  obtain ⟨raw, htext⟩ := hraws hl
  rw [htext]
  exact (Uncommented.beforeComment false raw).trim

theorem uncommented_value {l : Line} (h : Uncommented false l.text)
    (hkey : '"' ∉ (Setting.key l).toList) : Uncommented false (Setting.value l) := by
  have hbefore : '"' ∉ l.text.takeWhile (· != '=') := fun hmem => hkey (by
    unfold Setting.key
    rw [String.toList_ofList]
    exact List.mem_map.mpr ⟨'"', Text.mem_trim hmem (by decide), rfl⟩)
  rw [← List.takeWhile_append_dropWhile (p := (· != '=')) (l := l.text)] at h
  have hafter := h.drop hbefore
  unfold Setting.value Setting.splitEquals
  refine Uncommented.trim ?_
  cases hdrop : l.text.dropWhile (· != '=') with
  | nil => rfl
  | cons c rest =>
    obtain rfl : c = '=' := by
      simpa using Text.head_dropWhile (· != '=') l.text c (by rw [hdrop]; rfl)
    have hafter' : Uncommented false (['='] ++ rest) := by rwa [hdrop] at hafter
    exact hafter'.drop (by decide)

variable {α : Type} [Scalar α]

/-- A `#` in a line or in a value that is read as tokens lies in a quoted string, and reading does
not fail at it. -/
theorem hash_quoted {source : String} {l : Line} (hl : l ∈ ofSource source.toList)
    {text : List Char} (htext : text = l.text ∨
      Setting.key l ∈ ["volume", "pitch", "visual"] ∧ text = Setting.value l) (column : Nat) :
    (∀ e found, Token.tokenize (α := α) column text = .error (e, found) →
      e ≠ .unexpected '#' ∧ ∃ i c, found = column + i ∧ text[i]? = some c ∧ c ≠ '#') ∧
    ∀ ts : List (Placed α), Token.tokenize column text = .ok ts →
      ∀ i, text[i]? = some '#' → ∃ t ∈ ts, ∃ s : String, t.token = .str s ∧
        t.column < column + i ∧ column + i ≤ t.column + s.length := by
  have hcs : Uncommented false text := by
    have hline := uncommented_text hl
    obtain rfl | ⟨hkey, rfl⟩ := htext
    · exact hline
    · have hquote : ∀ key ∈ ["volume", "pitch", "visual"], '"' ∉ key.toList := by decide
      exact uncommented_value hline (hquote _ hkey)
  constructor
  · intro e found h
    obtain ⟨before, c, after, ts, rfl, rfl, -, he, hread⟩ := Token.reading_before_error h
    have hc : c ≠ '#' := fun hc =>
      (Uncommented.cons_iff.mp (hread.uncommented hcs).1).1 ⟨hc, rfl⟩
    refine ⟨?_, before.length, c, rfl, by simp, hc⟩
    rintro rfl
    exact hc (Token.lexeme_unexpected he).symm
  · intro ts h
    rw [← List.append_nil text] at hcs
    exact ((Token.tokenize_eq_ok_iff.mp h).uncommented hcs).2

/-- A `#` in a string and one behind it, where a string is left open. -/
theorem hash_quoted_visual :
    let source := "loop \"a#1\":\n  visual = object \"take#2\" and x  # \"old\"\n  pitch = \"b # c\n"
    let l : Line := ⟨2, 2, 3, "visual = object \"take#2\" and x".toList⟩
    let l' : Line := ⟨3, 2, 3, "pitch = \"b # c".toList⟩
    l ∈ ofSource source.toList ∧ l' ∈ ofSource source.toList ∧
      Setting.value l = "object \"take#2\" and x".toList ∧
      (∃ t ∈ [(⟨.keyword .object, 12⟩ : Placed Float), ⟨.str "take#2", 19⟩, ⟨.keyword .and, 28⟩,
        ⟨.ident "x", 32⟩], ∃ s : String, t.token = .str s ∧ t.column < 12 + 12 ∧
          12 + 12 ≤ t.column + s.length) ∧
      Token.tokenize (α := Float) 11 (Setting.value l') = .error (.unmatchedQuote, 11) ∧
      ∃ i c, 11 = 11 + i ∧ (Setting.value l')[i]? = some c ∧ c ≠ '#' := by
  intro source l l'
  have hl : l ∈ ofSource source.toList := by decide +kernel
  have hl' : l' ∈ ofSource source.toList := by decide +kernel
  have hts : Token.tokenize 12 (Setting.value l) = .ok [(⟨.keyword .object, 12⟩ : Placed Float),
      ⟨.str "take#2", 19⟩, ⟨.keyword .and, 28⟩, ⟨.ident "x", 32⟩] := by decide +kernel
  have herror : Token.tokenize (α := Float) 11 (Setting.value l') = .error (.unmatchedQuote, 11) := by
    decide +kernel
  exact ⟨hl, hl', by decide +kernel,
    (hash_quoted hl (.inr ⟨by decide +kernel, rfl⟩) 12).2 _ hts 12 (by decide +kernel), herror,
    ((hash_quoted hl' (.inr ⟨by decide +kernel, rfl⟩) 11).1 _ _ herror).2⟩

end Line

end Soundscape
