import Soundscape.Proofs.Script.FirstWord

/-!
# The lexemes of a text

How each token is written, and what cannot come right after it (`Token.Leads`); a text is read as
its lexemes with blanks between them, and in no other way (`Token.tokenize_eq_ok_iff`).  A lexeme
stays what it is when the text behind it is cut short, except that a point may not be left over
from a `..` (`Token.Leads.cut`): only the end of a number depends on more than one character.
-/

namespace Soundscape

open Numeral (isDigit)

namespace Token

/-! ## The text of a number -/

/-- The point of a number and the digits after it, at the head of the text behind the whole digits:
a point that is the first of two does not belong to the number. -/
def pointText : List Char → List Char
  | '.' :: '.' :: _ => []
  | '.' :: fraction => '.' :: fraction.takeWhile isDigit
  | _ => []

theorem pointText_of_head {after : List Char} (h : ∀ c ∈ after.head?, c ≠ '.') :
    pointText after = [] := by
  unfold pointText
  split
  · rfl
  · exact absurd rfl (h '.' rfl)
  · rfl

theorem pointText_cons {fraction : List Char} (h : ∀ c ∈ fraction.head?, c ≠ '.') :
    pointText ('.' :: fraction) = '.' :: fraction.takeWhile isDigit := by
  unfold pointText
  split
  · next heq =>
    cases heq
    exact absurd rfl (h '.' rfl)
  · next heq =>
    cases heq
    rfl
  · next hno => exact absurd rfl (hno fraction)

/-- A point with its digits stays what it is when the text behind it is cut short, if no point is
left over from two. -/
theorem pointText_append {after p q : List Char} (h : after = pointText after ++ q) (hp : p <+: q)
    (hdot : p ≠ ['.']) : pointText (pointText after ++ p) = pointText after := by
  by_cases hpoint : ∀ c ∈ after.head?, c ≠ '.'
  · rw [pointText_of_head hpoint] at h ⊢
    exact pointText_of_head fun c hc => hpoint c (h ▸ Text.mem_head?_of_prefix hp hc)
  · obtain ⟨fraction, rfl⟩ : ∃ fraction, after = '.' :: fraction := by
      simpa [List.head?_eq_some_iff] using hpoint
    by_cases hsecond : ∀ c ∈ fraction.head?, c ≠ '.'
    · have hq : fraction = fraction.takeWhile isDigit ++ q := by
        rw [pointText_cons hsecond] at h
        exact (List.cons.inj h).2
      have hdigit : ∀ c ∈ p.head?, isDigit c = false := fun c hc => by
        have hc := Text.mem_head?_of_prefix hp hc
        rw [List.append_cancel_left (hq.symm.trans List.takeWhile_append_dropWhile.symm)] at hc
        exact Text.head_dropWhile _ _ c hc
      have hcut : fraction.takeWhile isDigit ++ p <+: fraction := by
        conv_rhs => rw [hq]
        exact (List.prefix_append_right_inj _).mpr hp
      have hhead : ∀ c ∈ (fraction.takeWhile isDigit ++ p).head?, c ≠ '.' := fun c hc =>
        hsecond c (Text.mem_head?_of_prefix hcut hc)
      rw [pointText_cons hsecond, List.cons_append, pointText_cons hhead,
        Text.takeWhile_append (fun c => List.mem_takeWhile_imp) hdigit]
    · obtain ⟨rest, rfl⟩ : ∃ rest, fraction = '.' :: rest := by
        simpa [List.head?_eq_some_iff] using hsecond
      obtain rfl : '.' :: '.' :: rest = q := h
      match p, hp, hdot with
      | [], _, _ => rfl
      | [c], hp, hdot =>
        obtain rfl : c = '.' := (List.cons_prefix_cons.mp hp).1
        exact absurd rfl hdot
      | c :: d :: p, hp, _ =>
        obtain ⟨rfl, htail⟩ := List.cons_prefix_cons.mp hp
        obtain rfl : d = '.' := (List.cons_prefix_cons.mp htail).1
        rfl

/-- A text taken apart into a sign, digits and the rest. -/
structure Parted (sign whole after : List Char) : Prop where
  sign : sign = ['-'] ∨ sign = [] ∧ ∀ c ∈ (whole ++ after).head?, c ≠ '-'
  whole : ∀ c ∈ whole, isDigit c
  after : ∀ c ∈ after.head?, isDigit c = false

namespace Parted

variable {sign whole after : List Char}

theorem exists_eq (cs : List Char) :
    ∃ sign whole after, cs = sign ++ whole ++ after ∧ Parted sign whole after := by
  have hdigits (ds : List Char) : ds = ds.takeWhile isDigit ++ ds.dropWhile isDigit :=
    List.takeWhile_append_dropWhile.symm
  by_cases hc : cs.head? = some '-'
  · obtain ⟨rest, rfl⟩ := List.head?_eq_some_iff.mp hc
    exact ⟨['-'], _, _, congrArg ('-' :: ·) (hdigits rest), .inl rfl,
      fun _ => List.mem_takeWhile_imp, Text.head_dropWhile _ _⟩
  · refine ⟨[], _, _, hdigits cs, .inr ⟨rfl, ?_⟩, fun _ => List.mem_takeWhile_imp,
      Text.head_dropWhile _ _⟩
    rw [← hdigits]
    rintro _ hmem rfl
    exact hc hmem

theorem of_prefix {after' : List Char} (h : Parted sign whole after) (ha : after' <+: after) :
    Parted sign whole after' where
  sign := h.sign.imp_right fun ⟨hs, hc⟩ => ⟨hs, fun c hmem =>
    hc c (Text.mem_head?_of_prefix ((List.prefix_append_right_inj whole).mpr ha) hmem)⟩
  whole := h.whole
  after := fun c hmem => h.after c (Text.mem_head?_of_prefix ha hmem)

theorem numberText_eq (h : Parted sign whole after) :
    numberText (sign ++ whole ++ after) = sign ++ whole ++ pointText after := by
  have hsign : (sign ++ (whole ++ after)).take
      (if (sign ++ (whole ++ after)).head? = some '-' then 1 else 0) = sign := by
    obtain rfl | ⟨rfl, hc⟩ := h.sign
    · rfl
    · have hhead : ¬ (whole ++ after).head? = some '-' := fun hmem => hc _ hmem rfl
      rw [List.nil_append, if_neg hhead, List.take_zero]
  unfold numberText
  simp only [List.append_assoc, hsign, List.drop_left, Text.takeWhile_append h.whole h.after,
    Text.dropWhile_append h.whole h.after]
  unfold pointText
  split <;> simp

end Parted

/-- The text of a number stays what it is when the text behind it is cut short, if no point is left
over from two. -/
theorem numberText_append {w p q : List Char} (h : numberText (w ++ q) = w) (hp : p <+: q)
    (hdot : p ≠ ['.']) : numberText (w ++ p) = w := by
  obtain ⟨sign, whole, after, hcs, hparts⟩ := Parted.exists_eq (w ++ q)
  rw [hcs, hparts.numberText_eq] at h
  have hafter : after = pointText after ++ q := by
    rw [← h, List.append_assoc, List.append_cancel_left_eq] at hcs
    exact hcs.symm
  have hcut : pointText after ++ p <+: after := by
    conv_rhs => rw [hafter]
    exact (List.prefix_append_right_inj _).mpr hp
  have hw : w ++ p = sign ++ whole ++ (pointText after ++ p) := by rw [← h, List.append_assoc]
  rw [hw, (hparts.of_prefix hcut).numberText_eq, pointText_append hafter hp hdot, h]

/-! ## Lexemes -/

section Lexemes

variable {α : Type}

def marks : List (Char × Token α) :=
  [('*', star), (':', colon), (',', comma), ('=', equals), ('(', openParen), (')', closeParen)]

variable [Scalar α]

/-- In front of a rest, a text is the lexeme of a token. -/
inductive Leads : Token α → List Char → List Char → Prop where
  | mark {c : Char} {t : Token α} {rest : List Char} : (c, t) ∈ marks → Leads t [c] rest
  | str {s rest : List Char} : '"' ∉ s → Leads (.str (String.ofList s)) ('"' :: s ++ ['"']) rest
  | dots {rest : List Char} : Leads .dots ['.', '.'] rest
  | number {w rest : List Char} {v : α} : numberText (w ++ rest) = w →
      (Numeral.read? w).bind Scalar.ofNumeral? = some v → Leads (.number v) w rest
  | word {c : Char} {w rest : List Char} : isAlphabetic c ∨ c = '_' → (∀ d ∈ w, inWord d) →
      (∀ d ∈ rest.head?, inWord d = false) → Leads (ofWord (c :: w)) (c :: w) rest

/-- A lexeme stays what it is when the text behind it is cut short, if no point is left over from
two. -/
theorem Leads.cut {t : Token α} {w p q : List Char} (h : Leads t w q) (hp : p <+: q)
    (hdot : p ≠ ['.']) : Leads t w p := by
  cases h with
  | mark h => exact .mark h
  | str h => exact .str h
  | dots => exact .dots
  | number h hv => exact .number (numberText_append h hp hdot) hv
  | word hc hw h => exact .word hc hw fun d hd => h d (Text.mem_head?_of_prefix hp hd)

omit [Scalar α] in
theorem numberText_prefix (cs : List Char) : numberText cs <+: cs := by
  obtain ⟨sign, whole, after, rfl, hparts⟩ := Parted.exists_eq cs
  rw [hparts.numberText_eq]
  refine (List.prefix_append_right_inj _).mpr ?_
  unfold pointText
  split
  · exact List.nil_prefix
  · exact List.cons_prefix_cons.mpr ⟨rfl, List.takeWhile_prefix _⟩
  · exact List.nil_prefix

/-- If a lexeme was read, then the text starts with it. -/
def Found (c : Char) (cs : List Char) (r : Except LexicalError (Lexeme α)) : Prop :=
  ∀ x, r = .ok x →
    ∃ w rest, cs = w ++ rest ∧ w.length = x.more ∧ Leads x.token (c :: w) rest

namespace Found

variable {c : Char} {cs : List Char}

theorem ite {p : Prop} [Decidable p] {r r' : Except LexicalError (Lexeme α)}
    (h : p → Found c cs r) (h' : Found c cs r') : Found c cs (if p then r else r') := by
  split
  · next hp => exact h hp
  · exact h'

theorem mark {t : Token α} (h : (c, t) ∈ marks) : Found c cs (.ok ⟨t, 0⟩) := by
  rintro _ ⟨⟩
  exact ⟨[], cs, rfl, rfl, .mark h⟩

theorem lexString (hc : c = '"') : Found (α := α) c cs (lexString cs) := by
  subst hc
  unfold Token.lexString
  dsimp only
  have hcs : cs.takeWhile (· != '"') ++ cs.dropWhile (· != '"') = cs :=
    List.takeWhile_append_dropWhile
  have hquote : '"' ∉ cs.takeWhile (· != '"') := fun hmem => by
    simpa using List.mem_takeWhile_imp hmem
  cases hrest : cs.dropWhile (· != '"') with
  | nil =>
    rw [hrest, List.append_nil] at hcs
    rw [if_pos (by rw [hcs])]
    nofun
  | cons d rest =>
    obtain rfl : d = '"' := by
      simpa using Text.head_dropWhile (· != '"') cs d (by rw [hrest]; rfl)
    rw [hrest] at hcs
    rw [if_neg (by
      intro hlength
      have := congrArg List.length hcs
      simp at this
      omega)]
    rintro _ ⟨⟩
    exact ⟨_, rest, hcs.symm.trans (List.append_cons _ _ _), by simp, .str hquote⟩

theorem lexNumber : Found (α := α) c cs (lexNumber (c :: cs)) := by
  unfold Token.lexNumber
  dsimp only
  split
  · next v hv =>
    obtain ⟨rest, hrest⟩ := numberText_prefix (c :: cs)
    rintro _ ⟨⟩
    match hw : numberText (c :: cs) with
    | [] =>
      rw [hw] at hv
      cases hv
    | d :: w =>
      rw [hw] at hrest hv
      obtain ⟨rfl, rfl⟩ := List.cons.inj hrest
      exact ⟨w, rest, rfl, rfl, .number hw hv⟩
  · nofun

theorem word (hc : isAlphabetic c ∨ c = '_') :
    Found (α := α) c cs
      (.ok ⟨ofWord (c :: cs.takeWhile inWord), (cs.takeWhile inWord).length⟩) := by
  rintro _ ⟨⟩
  exact ⟨_, cs.dropWhile inWord, List.takeWhile_append_dropWhile.symm, rfl,
    .word hc (fun _ => List.mem_takeWhile_imp) (Text.head_dropWhile _ _)⟩

theorem lexeme (c : Char) (cs : List Char) : Found (α := α) c cs (lexeme c cs) := by
  unfold Token.lexeme
  dsimp only
  iterate 6 refine ite (fun hc => mark (by simp [marks, hc])) ?_
  refine ite lexString ?_
  refine ite (fun hc => ?_) ?_
  · obtain ⟨rfl, hnext⟩ := hc
    obtain ⟨rest, rfl⟩ := List.head?_eq_some_iff.mp hnext
    rintro _ ⟨⟩
    exact ⟨['.'], rest, rfl, rfl, .dots⟩
  iterate 3 refine ite (fun _ => lexNumber) ?_
  exact ite word nofun

end Found

/-- Whether a number starts with the character, where it goes on in the text. -/
def OpensNumber (c : Char) (cs : List Char) : Prop :=
  c = '.' ∧ cs.head?.any isDigit ∨ c = '-' ∧ cs.head?.any (fun d => isDigit d || d == '.') ∨ isDigit c

theorem lexeme_of_not_mem {c : Char} {cs : List Char}
    (h : c ∉ ['*', ':', ',', '=', '(', ')', '"', '.']) :
    lexeme (α := α) c cs =
      if c = '-' ∧ cs.head?.any (fun d => isDigit d || d == '.') then lexNumber (c :: cs)
      else if isDigit c then lexNumber (c :: cs)
      else if isAlphabetic c ∨ c = '_' then
        .ok ⟨ofWord (c :: cs.takeWhile inWord), (cs.takeWhile inWord).length⟩
      else .error (.unexpected c) := by
  simp only [List.mem_cons, List.not_mem_nil, or_false, not_or] at h
  unfold lexeme
  simp [h]

theorem lexeme_of_opensNumber {c : Char} {cs : List Char} (h : OpensNumber c cs) :
    lexeme (α := α) c cs = lexNumber (c :: cs) := by
  obtain ⟨rfl, hd⟩ | ⟨rfl, hd⟩ | hd := h
  · have hnext : cs.head? ≠ some '.' := fun hnext => by
      rw [hnext] at hd
      cases hd
    unfold lexeme
    simp [hd, hnext]
  · rw [lexeme_of_not_mem (by decide), if_pos ⟨rfl, hd⟩]
  · have hno : ['*', ':', ',', '=', '(', ')', '"', '.'].all fun m => !isDigit m := by decide
    have hc : c ∉ ['*', ':', ',', '=', '(', ')', '"', '.'] := fun hmem => by
      simpa [hd] using List.all_eq_true.mp hno c hmem
    rw [lexeme_of_not_mem hc, if_pos hd, ite_self]

theorem lexeme_of_word {c : Char} {cs : List Char} (hc : isAlphabetic c ∨ c = '_') :
    lexeme (α := α) c cs =
      .ok ⟨ofWord (c :: cs.takeWhile inWord), (cs.takeWhile inWord).length⟩ := by
  have hno : ['*', ':', ',', '=', '(', ')', '"', '.', '-'].all
      fun m => !(isAlphabetic m || m == '_') := by decide
  have hother : c ∉ ['*', ':', ',', '=', '(', ')', '"', '.', '-'] := fun hmem => by
    have hword : (isAlphabetic c || c == '_') = true := by simpa using hc
    have hmark := List.all_eq_true.mp hno c hmem
    rw [hword] at hmark
    cases hmark
  have hmark : c ∉ ['*', ':', ',', '=', '(', ')', '"', '.'] := fun hmem =>
    hother (List.mem_append_left ['-'] hmem)
  have hsign : c ≠ '-' := by
    rintro rfl
    exact hother (by simp)
  have hdigit : isDigit c = false := by
    by_contra hd
    have hn := isDigit_iff.mp (by simpa using hd)
    obtain hc | rfl := hc
    · rw [isAlphabetic, if_pos (by omega), isAlpha_iff] at hc
      omega
    · exact absurd hd (by decide)
  rw [lexeme_of_not_mem hmark, if_neg (by simp [hsign]), if_neg (by simp [hdigit]), if_pos hc]

omit [Scalar α] in
theorem opensNumber_of_numberText {c : Char} {w rest : List Char}
    (h : numberText (c :: w ++ rest) = c :: w) (hv : (Numeral.read? (c :: w)).isSome) :
    OpensNumber c (w ++ rest) := by
  have hhead {p : Char → Bool} (hw : w.head?.any p) : (w ++ rest).head?.any p := by
    cases w with
    | nil => cases hw
    | cons d w => exact hw
  obtain ⟨sign, whole, after, hcs, hparts⟩ := Parted.exists_eq (c :: w ++ rest)
  rw [hcs, hparts.numberText_eq] at h
  have hpoint : pointText after = [] ∨
      ∃ fraction, pointText after = '.' :: fraction ∧ ∀ d ∈ fraction, isDigit d := by
    unfold pointText
    split
    · exact .inl rfl
    · exact .inr ⟨_, rfl, fun _ => List.mem_takeWhile_imp⟩
    · exact .inl rfl
  -- what comes after the sign is a digit or a point, and a point alone is no number
  obtain hsign | ⟨hsign, -⟩ := hparts.sign
  · rw [hsign] at h
    obtain ⟨rfl, hw⟩ := List.cons.inj h
    refine .inr (.inl ⟨rfl, hhead ?_⟩)
    cases whole with
    | cons d whole =>
      rw [← hw]
      simp [hparts.whole d List.mem_cons_self]
    | nil =>
      obtain hp | ⟨fraction, hp, -⟩ := hpoint
      · rw [← hw, hp] at hv
        exact absurd hv (by decide)
      · rw [← hw, hp]
        rfl
  · rw [hsign] at h
    cases whole with
    | cons d whole =>
      obtain ⟨rfl, -⟩ := List.cons.inj h
      exact .inr (.inr (hparts.whole d List.mem_cons_self))
    | nil =>
      obtain hp | ⟨fraction, hp, hdigit⟩ := hpoint
      · rw [hp] at h
        cases h
      · rw [hp] at h
        obtain ⟨rfl, rfl⟩ := List.cons.inj h
        refine .inl ⟨rfl, hhead ?_⟩
        cases fraction with
        | nil => exact absurd hv (by decide)
        | cons d fraction => simp [hdigit d List.mem_cons_self]

theorem lexeme_of_leads {c : Char} {t : Token α} {w rest : List Char} (h : Leads t (c :: w) rest) :
    lexeme c (w ++ rest) = .ok ⟨t, w.length⟩ := by
  generalize hcs : c :: w = cs at h
  cases h with
  | mark h =>
    cases hcs
    simp only [marks, List.mem_cons, List.not_mem_nil, or_false, Prod.mk.injEq] at h
    obtain ⟨rfl, rfl⟩ | ⟨rfl, rfl⟩ | ⟨rfl, rfl⟩ | ⟨rfl, rfl⟩ | ⟨rfl, rfl⟩ | ⟨rfl, rfl⟩ := h <;> rfl
  | @str s rest h =>
    cases hcs
    have hs : (s ++ '"' :: rest).takeWhile (· != '"') = s :=
      Text.takeWhile_append (fun d hd => bne_iff_ne.mpr fun he => h (he ▸ hd)) (by simp)
    show lexString (s ++ ['"'] ++ rest) = _
    unfold lexString
    rw [List.append_assoc, List.singleton_append, hs]
    simp
  | dots =>
    cases hcs
    rfl
  | number h hv =>
    subst hcs
    have hsome : (Numeral.read? (c :: w)).isSome := by
      obtain ⟨n, hn, -⟩ := Option.bind_eq_some_iff.mp hv
      rw [hn]
      rfl
    rw [lexeme_of_opensNumber (opensNumber_of_numberText h hsome), lexNumber, ← List.cons_append,
      h, hv]
    rfl
  | word hc hw h =>
    cases hcs
    rw [lexeme_of_word hc, Text.takeWhile_append hw h]

theorem lexeme_eq_ok_iff {c : Char} {cs : List Char} {t : Token α} {n : Nat} :
    lexeme c cs = .ok ⟨t, n⟩ ↔
      ∃ w rest, cs = w ++ rest ∧ w.length = n ∧ Leads t (c :: w) rest := by
  constructor
  · exact Found.lexeme c cs _
  · rintro ⟨w, rest, rfl, rfl, h⟩
    exact lexeme_of_leads h

/-! ## Texts -/

/-- A text is read as tokens: it is their lexemes, with blanks before, between and after them. -/
inductive Reading : Nat → List Char → List (Placed α) → Prop where
  | nil {column : Nat} : Reading column [] []
  | blank {column : Nat} {c : Char} {cs : List Char} {ts : List (Placed α)} : isBlank c →
      Reading (column + 1) cs ts → Reading column (c :: cs) ts
  | token {column : Nat} {c : Char} {w rest : List Char} {t : Token α} {ts : List (Placed α)} :
      isBlank c = false → Leads t (c :: w) rest → Reading (column + 1 + w.length) rest ts →
      Reading column (c :: w ++ rest) (⟨t, column⟩ :: ts)

/-- A text is read as its lexemes, and in no other way. -/
theorem tokenize_eq_ok_iff {column : Nat} {cs : List Char} {ts : List (Placed α)} :
    tokenize column cs = .ok ts ↔ Reading column cs ts := by
  constructor
  · intro h
    induction column, cs using tokenize.induct (α := α) generalizing ts with
    | case1 column =>
      unfold tokenize at h
      cases h
      exact .nil
    | case2 column c cs hc ih =>
      unfold tokenize at h
      rw [if_pos hc] at h
      exact .blank hc (ih h)
    | case3 column c cs hc e he =>
      unfold tokenize at h
      rw [if_neg hc, he] at h
      cases h
    | case4 column c cs hc x hx ih =>
      obtain ⟨x', rest, hx', hrest, rfl⟩ := tokenize_cons (by simpa using hc) h
      obtain rfl : x = x' := by simpa [hx] using hx'
      obtain ⟨w, after, rfl, hlength, hleads⟩ := lexeme_eq_ok_iff.mp hx
      rw [← hlength, List.drop_left] at hrest ih
      exact .token (by simpa using hc) hleads (ih hrest)
  · intro h
    induction h with
    | nil => rw [tokenize]
    | blank hc _ ih => rw [tokenize, if_pos hc, ih]
    | @token column c w rest t ts hc hleads _ ih =>
      rw [List.cons_append, tokenize, if_neg (by simp [hc]), lexeme_of_leads hleads]
      dsimp only
      rw [List.drop_left, ih]
      rfl

end Lexemes

end Token

end Soundscape
