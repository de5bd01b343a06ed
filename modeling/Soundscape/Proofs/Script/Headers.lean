import Soundscape.Proofs.Script.FirstWord
import Soundscape.Proofs.Script.Grammar

/-!
# Headers of statements

A line is taken for a statement by its characters (`Line.kind_eq_statement_iff`) and is then read
as tokens.  Both ways agree on a header without a count, since its first word is its first token
(`Line.firstWord_of_keyword`).  A count is a number in tokens, but in characters it has to start
with a digit, so a number with a leading point that is rounded to a whole number is no count of a
statement.  Apart from that the headers are those of the grammar (`Line.reads_statement_iff`).
-/

namespace Soundscape

open Numeral (isDigit)

/-! ## Lines that look like statements -/

namespace Line

theorem endsWord_eq_false {c : Char} (h : c.isAlpha ∨ isDigit c) : endsWord c = false := by
  have hne {d : Char} (hd : ¬ (d.isAlpha ∨ isDigit d)) : c ≠ d := by
    rintro rfl
    exact hd h
  simp only [endsWord, isBlank_eq_false h, Bool.false_or, Bool.or_eq_false_iff,
    beq_eq_false_iff_ne]
  exact ⟨⟨⟨⟨hne (by decide), hne (by decide)⟩, hne (by decide)⟩, hne (by decide)⟩, hne (by decide)⟩

theorem isBlank_head {source : String} {l : Line} (hl : l ∈ ofSource source.toList) :
    ∀ c ∈ l.text.head?, isBlank c = false := by
  have hraw {n : Nat} {raws : List (List Char)} (hl : l ∈ ofRaws n raws) :
      ∃ cs, l.text = Text.trim cs := by
    induction raws generalizing n with
    | nil => cases hl
    | cons raw rest ih =>
      rw [ofRaws, List.mem_append, Option.mem_toList] at hl
      obtain hl | hl := hl
      · unfold ofRaw? at hl
        dsimp only at hl
        split at hl <;> cases hl
        exact ⟨_, rfl⟩
      · exact ih hl
  obtain ⟨cs, htext⟩ := hraw hl
  rw [htext]
  exact fun c => Text.head_trim

theorem head_firstWord (l : Line) : l.firstWord.head?.any isDigit = l.text.head?.any isDigit := by
  unfold firstWord
  cases l.text with
  | nil => rfl
  | cons c cs =>
    by_cases hc : endsWord c
    · have hdigit : isDigit c = false := by
        by_contra hd
        rw [endsWord_eq_false (.inr (by simpa using hd))] at hc
        cases hc
      simp [hc, Text.lower, hdigit]
    · simp [hc, Text.lower, isDigit_toLower]

theorem kind_eq_statement_iff {l : Line} : l.kind = .statement ↔
    (∃ kind : StatementKind, l.firstWord = kind.name.toList) ∨
      (l.text.head?.any isDigit ∧ '*' ∈ l.text) := by
  rw [← head_firstWord]
  have hword {word : String} (h : String.ofList l.firstWord = word) :
      l.firstWord = word.toList := by
    rw [← h, String.toList_ofList]
  unfold kind
  split
  · next h =>
    rw [hword h]
    refine iff_of_false nofun ?_
    rintro (⟨kind, hkind⟩ | ⟨hdigit, -⟩)
    · cases kind <;> exact absurd hkind (by decide)
    · exact absurd hdigit (by decide)
  · next h =>
    rw [hword h]
    refine iff_of_false nofun ?_
    rintro (⟨kind, hkind⟩ | ⟨hdigit, -⟩)
    · cases kind <;> exact absurd hkind (by decide)
    · exact absurd hdigit (by decide)
  · next h => exact iff_of_true rfl (.inl ⟨.loop, hword h⟩)
  · next h => exact iff_of_true rfl (.inl ⟨.oneshot, hword h⟩)
  · next hloop honeshot =>
    have hno : ¬ ∃ kind : StatementKind, l.firstWord = kind.name.toList := by
      rintro ⟨kind, hkind⟩
      have hkind : String.ofList l.firstWord = kind.name := by rw [hkind, String.ofList_toList]
      cases kind with
      | loop => exact hloop hkind
      | oneshot => exact honeshot hkind
    rw [or_iff_right hno, ← List.contains_iff_mem, ← Bool.and_eq_true]
    split
    · next h => exact iff_of_true rfl h
    · next h =>
      refine iff_of_false ?_ h
      split <;> nofun

/-! ## Lines that are headers -/

section Headers

variable {α : Type} [Scalar α] {l : Line}

/-- The first word of a header without a count is its first token. -/
theorem firstWord_of_keyword {t u : Placed α} {ts : List (Placed α)} {kind : StatementKind}
    {clip : String} (hhead : ∀ c ∈ l.text.head?, isBlank c = false)
    (h : Token.tokenize l.column l.text = .ok (t :: u :: ts))
    (ht : t.token = .keyword kind.keyword) (hu : u.token = .str clip) :
    l.firstWord = kind.name.toList := by
  have hletters (word : List Char) (hword : t.token = Token.ofWord word) :
      ∀ c ∈ word, c.isAlpha := by
    apply Text.isAlpha_of_lower
    rw [Token.lower_of_ofWord_keyword (hword.symm.trans ht)]
    cases kind <;> decide
  have hword := Token.ofWord_takeWhile (p := (!endsWord ·)) hhead h (by rw [ht]; rfl) hletters
    (fun c hc => by simp [endsWord_eq_false (.inl hc)]) (fun c hc => by simp [endsWord, hc])
    (fun c hc => by
      rw [hu] at hc
      obtain rfl : c = '"' := hc
      rfl)
  show Text.lower _ = _
  rw [Token.lower_of_ofWord_keyword (hword.symm.trans ht)]
  cases kind <;> rfl

theorem readHeader_eq_ok {A : Type} {x : Reader α A} {a : A} :
    l.readHeader x = .ok a ↔
      Setting.readTokens l.column l.text (fun ts => Prod.fst <$> x ts) = .ok a := by
  unfold readHeader
  split <;> simp_all

theorem ofHeader_eq_statement {h : Reader.StatementHeader α} :
    Body.ofHeader l = (.statement l.indent
        { kind := h.kind, clip := h.clip, count := h.count, props := { every := h.every },
          line := l.number }, []) ↔ l.readHeader Reader.statementHeader = .ok h := by
  obtain ⟨kind, clip, count, every⟩ := h
  unfold Body.ofHeader
  split
  · next h hh =>
    obtain ⟨kind, clip, count, every⟩ := h
    simp [hh]
  · next d hd => simp [hd]

theorem kind_of_spelled {h : Reader.StatementHeader α} {ts : List (Placed α)}
    (hhead : ∀ c ∈ l.text.head?, isBlank c = false)
    (hts : Token.tokenize l.column l.text = .ok ts) (hh : h.Spelled (ts.map Placed.token))
    (hdigit : Reader.numberNext ts → l.text.head?.any isDigit) : l.kind = .statement := by
  rw [kind_eq_statement_iff]
  generalize hw : ts.map Placed.token = w at hh
  cases hh with
  | mk kind hcount hclip hevery =>
    cases hcount with
    | absent =>
      obtain ⟨t, _, rfl, ht, hw⟩ := List.map_eq_cons_iff.mp hw
      obtain ⟨u, rest, rfl, hu, -⟩ := List.map_eq_cons_iff.mp hw
      exact .inl ⟨kind, firstWord_of_keyword hhead hts ht hu⟩
    | written hn =>
      obtain ⟨t, _, rfl, ht, hw⟩ := List.map_eq_cons_iff.mp hw
      obtain ⟨u, rest, rfl, hu, -⟩ := List.map_eq_cons_iff.mp hw
      refine .inr ⟨hdigit (by simp [Reader.numberNext, ht, Reader.number?]), ?_⟩
      obtain ⟨c, hc, hstar⟩ := Token.mem_of_tokenize hts u (by simp)
      rw [hu] at hstar
      obtain rfl : c = '*' := hstar
      exact hc

/-- The number that a line starts with, if it is taken for a statement, starts with a digit. -/
theorem digit_of_kind {ts : List (Placed α)} (hhead : ∀ c ∈ l.text.head?, isBlank c = false)
    (hkind : l.kind = .statement) (hts : Token.tokenize l.column l.text = .ok ts)
    (hnumber : Reader.numberNext ts) : l.text.head?.any isDigit := by
  obtain ⟨kind, hword⟩ | ⟨hdigit, -⟩ := kind_eq_statement_iff.mp hkind
  · cases ts with
    | nil => cases hnumber
    | cons t ts =>
      obtain ⟨v, hv⟩ :=
        Option.isSome_iff_exists.mp (show (Reader.number? t.token).isSome from hnumber)
      obtain ⟨c, cs, htext, hc⟩ := Token.head_of_tokenize hts
      rw [Reader.number?_eq_some.mp hv, hhead c (by rw [htext]; rfl)] at hc
      -- the first word of a statement has another first letter
      have hfirst {d : Char} (hd : endsWord d = false ∧ d.toLower ≠ 'l' ∧ d.toLower ≠ 'o') :
          c ≠ d := by
        rintro rfl
        unfold firstWord at hword
        rw [htext, List.takeWhile_cons_of_pos (by simp [hd.1])] at hword
        cases kind
        · exact hd.2.1 (List.cons.inj hword).1
        · exact hd.2.2 (List.cons.inj hword).1
      obtain hc | rfl | rfl | hc := hc
      · cases hc
      · exact absurd rfl (hfirst (by decide))
      · exact absurd rfl (hfirst (by decide))
      · rw [htext]
        exact hc
  · exact hdigit

variable [Scalar.Ordered α]

/-- A line is a statement whose header can be read if and only if its tokens are those of a header,
and the count, where it is written, starts with a digit.  The statement is as the header says. -/
theorem reads_statement_iff {source : String} (hl : l ∈ ofSource source.toList)
    (h : Reader.StatementHeader α) :
    l.kind = .statement ∧
        Body.ofHeader l = (.statement l.indent
          { kind := h.kind, clip := h.clip, count := h.count, props := { every := h.every },
            line := l.number }, []) ↔
      ∃ ts, Token.tokenize l.column l.text = .ok ts ∧ h.Spelled (ts.map Placed.token) ∧
        (Reader.numberNext ts → l.text.head?.any isDigit) := by
  have hhead := isBlank_head hl
  rw [ofHeader_eq_statement, readHeader_eq_ok, Reader.GoesBy.statementHeader.readTokens_eq_ok]
  constructor
  · rintro ⟨hkind, ts, hts, hh⟩
    exact ⟨ts, hts, hh, digit_of_kind hhead hkind hts⟩
  · rintro ⟨ts, hts, hh, hdigit⟩
    exact ⟨kind_of_spelled hhead hts hh hdigit, ts, hts, hh⟩

end Headers

/-- A header with a count, and with a range whose ends are written the other way round. -/
theorem reads_statement_reversed :
    let source := "  3 * Oneshot \" birds/a \" every 5..2.5:  # at dawn\n"
    let l : Line := ⟨1, 2, 3, "3 * Oneshot \" birds/a \" every 5..2.5:".toList⟩
    l ∈ ofSource source.toList ∧ l.kind = .statement ∧
      Body.ofHeader l = (.statement 2
        ⟨.oneshot, "birds/a", 3, { every := some (.range (2.5 : Float) 5) }, 1⟩, []) := by
  intro source l
  have hl : l ∈ ofSource source.toList := by decide +kernel
  have hts : Token.tokenize l.column l.text = .ok [⟨.number (3 : Float), 3⟩, ⟨.star, 5⟩,
      ⟨.keyword .oneshot, 7⟩, ⟨.str " birds/a ", 15⟩, ⟨.keyword .every, 27⟩, ⟨.number 5, 33⟩,
      ⟨.dots, 34⟩, ⟨.number 2.5, 36⟩, ⟨.colon, 39⟩] := by decide +kernel
  have hclip : "birds/a" = String.ofList (Text.trim " birds/a ".toList) := by decide +kernel
  have hcount : IsCount (3 : Float) 3 := ⟨by decide +kernel, by decide, by decide⟩
  have hh : Reader.StatementHeader.Spelled
      (⟨.oneshot, "birds/a", 3, some (.range 2.5 5)⟩ : Reader.StatementHeader Float)
      [.number 3, .star, .keyword .oneshot, .str " birds/a ", .keyword .every, .number 5, .dots,
        .number 2.5, .colon] := by
    rw [hclip]
    exact .mk .oneshot (.written hcount) (by decide +kernel)
      (.written (.reversed (by decide +kernel) (by decide +kernel)))
  exact ⟨hl, (reads_statement_iff hl _).mpr ⟨_, hts, hh, by decide +kernel⟩⟩

/-- A number with a leading point can be a whole number in tokens, but no count of a statement. -/
theorem kind_leadingPoint :
    let source := ".99999999999999999 * loop \"a\":"
    let l : Line := ⟨1, 0, 1, source.toList⟩
    l ∈ ofSource source.toList ∧
      (∃ ts, Token.tokenize l.column l.text = .ok ts ∧
        Reader.StatementHeader.Spelled (⟨.loop, "a", 1, none⟩ : Reader.StatementHeader Float)
          (ts.map Placed.token)) ∧
      l.kind = .unknown ∧
      readScript false source = (⟨[], [⟨.unrecognised source, 1, 1⟩]⟩ : Findings Float) := by
  intro source l
  have hts : Token.tokenize l.column l.text = .ok [⟨.number (1 : Float), 1⟩, ⟨.star, 20⟩,
      ⟨.keyword .loop, 22⟩, ⟨.str "a", 27⟩, ⟨.colon, 30⟩] := by decide +kernel
  have hclip : "a" = String.ofList (Text.trim "a".toList) := by decide +kernel
  have hcount : IsCount (1 : Float) 1 := ⟨by decide +kernel, by decide, by decide⟩
  have hh : Reader.StatementHeader.Spelled (⟨.loop, "a", 1, none⟩ : Reader.StatementHeader Float)
      [.number 1, .star, .keyword .loop, .str "a", .colon] := by
    have hblank : Text.trim "a".toList ≠ [] := by decide +kernel
    have hmk := Reader.StatementHeader.Spelled.mk .loop (.written hcount) hblank .absent
    rwa [← hclip] at hmk
  exact ⟨by decide +kernel, ⟨_, hts, hh⟩, by decide +kernel, by decide +kernel⟩

end Line

end Soundscape
