import Soundscape.Proofs.Number.Difference
import Soundscape.Proofs.Script.Written

/-!
# Numbers that are read as tokens

A text is read as a quantity only if all its numbers are finite (`Quantity.measured_read`).  Tokens
are read with less care: a range of them is checked, but a single number is what its numeral gives,
and with some three hundred digits that is an infinity (`Reader.lexed_quantity`).  So it is with the
`every` of a header (`Reader.lexed_statementHeader`) and with the ends and the length of an
interpolation (`Reader.lexed_call`).
-/

namespace Soundscape

/-! ## Finite quantities -/

/-- Nothing, a finite number, or two finite numbers in order and a finite distance apart. -/
inductive Quantity.Measured : Quantity Float → Prop where
  | unset : Measured .unset
  | fixed {v : Float} : v.isFinite → Measured (.fixed v)
  | range {low high : Float} : low.isFinite → high.isFinite → low ≤ high →
      (high - low).isFinite → Measured (.range low high)

/-- A finite quantity, or one number that a decimal numeral gives, too large for a double. -/
inductive Quantity.Lexed : Quantity Float → Prop where
  | measured {q : Quantity Float} : q.Measured → Lexed q
  | tooLarge (negative : Bool) (digits : Nat) (exponent : Int) :
      (Numeral.decimal negative digits exponent).toFloat.isFinite = false →
      Lexed (.fixed (Numeral.decimal negative digits exponent).toFloat)

namespace Quantity

theorem measured_between {a b : Float} (h : (b - a).isFinite) : (between a b).Measured := by
  obtain ⟨ha, hb⟩ := Doubles.isFinite_of_sub h
  unfold between
  split
  · next hab => exact .range ha hb hab h
  · next hab =>
    exact .range hb ha ((Scalar.Ordered.le_or_le h).resolve_left hab) (Doubles.isFinite_sub_swap h)

theorem isFinite_of_readNumber {cs : List Char} {v : Float} (h : readNumber cs = .ok v) :
    v.isFinite := by
  unfold readNumber at h
  split at h
  · split at h
    · next hv =>
      cases h
      exact hv
    · cases h
  · cases h

theorem measured_read {cs : List Char} {q : Quantity Float} (h : read cs = .ok q) :
    q.Measured := by
  unfold read at h
  dsimp only at h
  split at h
  · cases h
    exact .unset
  · split at h
    · obtain ⟨v, hv, h⟩ := Outcome.of_bind_eq_ok h
      cases h
      exact .fixed (isFinite_of_readNumber hv)
    · obtain ⟨low, -, h⟩ := Outcome.of_bind_eq_ok h
      obtain ⟨high, -, h⟩ := Outcome.of_bind_eq_ok h
      split at h
      · next hf =>
        cases h
        exact measured_between hf
      · cases h

end Quantity

/-! ## Numbers as tokens -/

def Numeral.OfDecimal (v : Float) : Prop :=
  ∃ negative digits exponent, v = (Numeral.decimal negative digits exponent).toFloat

theorem Numeral.OfDecimal.lexed {v : Float} (h : OfDecimal v) : (Quantity.fixed v).Lexed := by
  obtain ⟨negative, digits, exponent, rfl⟩ := h
  cases hv : (Numeral.decimal negative digits exponent).toFloat.isFinite with
  | true => exact .measured (.fixed hv)
  | false => exact .tooLarge negative digits exponent hv

namespace Token

open Numeral (isDigit)

theorem mem_numberText {cs : List Char} {c : Char} (h : c ∈ numberText cs) :
    c = '-' ∨ c = '.' ∨ isDigit c := by
  have hsign : c ∈ cs.take (if cs.head? = some '-' then 1 else 0) → c = '-' := by
    intro hc
    cases cs with
    | nil => simp at hc
    | cons d ds =>
      split at hc
      · next hd => simp_all
      · simp at hc
  have hdigit (ds : List Char) : c ∈ ds.takeWhile isDigit → isDigit c := fun hc =>
    List.mem_takeWhile_imp hc
  unfold numberText at h
  dsimp only at h
  split at h
  · obtain hc | hc := List.mem_append.mp h
    · exact .inl (hsign hc)
    · exact .inr (.inr (hdigit _ hc))
  · simp only [List.mem_append, List.mem_cons] at h
    obtain (hc | hc) | rfl | hc := h
    · exact .inl (hsign hc)
    · exact .inr (.inr (hdigit _ hc))
    · exact .inr (.inl rfl)
    · exact .inr (.inr (hdigit _ hc))
  · obtain hc | hc := List.mem_append.mp h
    · exact .inl (hsign hc)
    · exact .inr (.inr (hdigit _ hc))

theorem toLower_of_mem_numberText {cs : List Char} {c : Char} (h : c ∈ numberText cs) :
    c.toLower ≠ 'i' ∧ c.toLower ≠ 'n' := by
  obtain rfl | rfl | hd := mem_numberText h
  · decide
  · decide
  · have hle : '0' ≤ c ∧ c ≤ '9' := by simpa [isDigit] using hd
    have h9 : c.val ≤ '9'.val := hle.2
    have hlower : c.toLower = c :=
      dif_neg fun h => absurd (UInt32.le_trans h.1 h9) (by decide)
    rw [hlower]
    constructor <;> rintro rfl <;> exact absurd h9 (by decide)

theorem decimal_of_read? {cs : List Char} {n : Numeral}
    (h : Numeral.read? (numberText cs) = some n) :
    ∃ negative digits exponent, n = .decimal negative digits exponent := by
  have hmem {negative : Bool} {rest : List Char}
      (hs : Numeral.sign (numberText cs) = (negative, rest)) : ∀ c ∈ rest, c ∈ numberText cs := by
    intro c hc
    unfold Numeral.sign at hs
    split at hs <;> cases hs
    · next heq => simp [heq, hc]
    · next heq => simp [heq, hc]
    · exact hc
  unfold Numeral.read? at h
  rcases hs : Numeral.sign (numberText cs) with ⟨negative, rest⟩
  rw [hs] at h
  -- a word begins with `i` or `n`, and no such letter is in the text of a number
  have hword (word : String) (hw : word.toList.head?.any fun c => c = 'i' ∨ c = 'n') :
      String.ofList (rest.map Char.toLower) ≠ word := by
    rintro rfl
    cases rest with
    | nil => simp at hw
    | cons c rest =>
      have hc := toLower_of_mem_numberText (hmem hs c List.mem_cons_self)
      simp [hc.1, hc.2] at hw
  unfold Numeral.magnitude? at h
  dsimp only at h
  split at h
  · rw [if_neg (by simp [hword]), if_neg (by simp [hword])] at h
    cases h
  · obtain ⟨e, -, rfl⟩ := Option.map_eq_some_iff.mp h
    exact ⟨_, _, _, rfl⟩

/-- If it is a number that was lexed, then it is what a decimal numeral gives. -/
def LexesDecimals (r : Except LexicalError (Lexeme Float)) : Prop :=
  ∀ x v, r = .ok x → x.token = .number v → Numeral.OfDecimal v

namespace LexesDecimals

theorem ite {p : Prop} [Decidable p] {r r' : Except LexicalError (Lexeme Float)}
    (h : LexesDecimals r) (h' : LexesDecimals r') : LexesDecimals (if p then r else r') := by
  split
  · exact h
  · exact h'

theorem ok {t : Token Float} (more : Nat) (ht : Reader.number? t = none) :
    LexesDecimals (.ok ⟨t, more⟩) := by
  rintro _ v ⟨⟩ rfl
  cases ht

theorem error (e : LexicalError) : LexesDecimals (.error e) := nofun

theorem lexNumber (cs : List Char) : LexesDecimals (lexNumber cs) := by
  unfold Token.lexNumber
  dsimp only
  split
  · next w hw =>
    rintro _ v ⟨⟩ ⟨⟩
    obtain ⟨n, hn, he⟩ := Option.bind_eq_some_iff.mp hw
    cases he
    obtain ⟨negative, digits, exponent, rfl⟩ := decimal_of_read? hn
    exact ⟨negative, digits, exponent, rfl⟩
  · exact error _

theorem lexString (cs : List Char) : LexesDecimals (lexString cs) :=
  ite (error _) (ok _ rfl)

theorem lexeme (c : Char) (cs : List Char) : LexesDecimals (lexeme c cs) := by
  have hword (cs : List Char) : Reader.number? (ofWord cs : Token Float) = none := by
    unfold ofWord
    split <;> rfl
  unfold Token.lexeme
  dsimp only
  iterate 6 apply ite (ok 0 rfl)
  apply ite (lexString cs)
  apply ite (ok 1 rfl)
  iterate 3 apply ite (lexNumber _)
  exact ite (ok _ (hword _)) (error _)

end LexesDecimals

theorem ofDecimal_of_tokenize {column : Nat} {cs : List Char} {ts : List (Placed Float)}
    (h : tokenize column cs = .ok ts) :
    ∀ t ∈ ts, ∀ v, t.token = .number v → Numeral.OfDecimal v := by
  induction column, cs using tokenize.induct (α := Float) generalizing ts with
  | case1 column =>
    unfold tokenize at h
    cases h
    nofun
  | case2 column c cs hc ih =>
    unfold tokenize at h
    rw [if_pos hc] at h
    exact ih h
  | case3 column c cs hc e he =>
    unfold tokenize at h
    rw [if_neg hc, he] at h
    cases h
  | case4 column c cs hc x hx ih =>
    unfold tokenize at h
    rw [if_neg hc, hx] at h
    obtain ⟨rest, hrest, h⟩ := Outcome.of_bind_eq_ok h
    cases h
    intro t ht v hv
    obtain rfl | ht := List.mem_cons.mp ht
    · exact LexesDecimals.lexeme c cs x v hx hv
    · exact ih hrest t ht v hv

end Token

/-! ## Reading numbers from tokens -/

section Passes

variable {α A B : Type}

def Reader.Numbers (N : α → Prop) (ts : List (Placed α)) : Prop :=
  ∀ t ∈ ts, ∀ v, t.token = .number v → N v

/-- From tokens whose numbers satisfy a predicate the reader takes what satisfies another, and
leaves such tokens. -/
def Reader.Passes (N : α → Prop) (P : A → Prop) (x : Reader α A) : Prop :=
  ∀ ⦃ts a rest⦄, Numbers N ts → x ts = .ok (a, rest) → P a ∧ Numbers N rest

namespace Reader.Passes

variable {N : α → Prop} {P : A → Prop} {Q : B → Prop} {x y : Reader α A}

theorem pure {a : A} (ha : P a) : Passes N P (Pure.pure a : Reader α A) := by
  rintro ts _ rest hts ⟨⟩
  exact ⟨ha, hts⟩

theorem bind {f : A → Reader α B} (hx : Passes N P x) (hf : ∀ a, P a → Passes N Q (f a)) :
    Passes N Q (x >>= f) := by
  intro ts b rest hts h
  obtain ⟨⟨a, r⟩, ha, h⟩ := Outcome.of_bind_eq_ok h
  obtain ⟨hpa, hr⟩ := hx hts ha
  exact hf a hpa hr h

theorem map {f : A → B} (hx : Passes N P x) (hf : ∀ a, P a → Q (f a)) : Passes N Q (f <$> x) := by
  intro ts b rest hts h
  obtain ⟨⟨a, r⟩, ha, h⟩ := Outcome.of_map_eq_ok h
  cases h
  obtain ⟨hpa, hr⟩ := hx hts ha
  exact ⟨hf a hpa, hr⟩

theorem ite {p : Prop} [Decidable p] (hx : Passes N P x) (hy : Passes N P y) :
    Passes N P (if p then x else y) := by
  split
  · exact hx
  · exact hy

theorem get : Passes N (fun _ => True) (MonadState.get : Reader α (List (Placed α))) := by
  rintro ts _ rest hts ⟨⟩
  exact ⟨trivial, hts⟩

theorem take {what : Expected} {pick : Token α → Option A}
    (hp : ∀ t a, pick t = some a → (∀ v, t = .number v → N v) → P a) :
    Passes N P (take what pick) := by
  intro ts a rest hts h
  cases ts with
  | nil => cases h
  | cons t ts =>
    obtain ⟨ht, hts⟩ := List.forall_mem_cons.mp hts
    unfold Reader.take at h
    dsimp only at h
    split at h
    · next a' ha =>
      cases h
      exact ⟨hp t.token a ha ht, hts⟩
    · cases h

theorem skip {what : Expected} {pick : Token α → Option A} :
    Passes N (fun _ => True) (Reader.take what pick) :=
  take fun _ _ _ _ => trivial

theorem number : Passes N N (number : Reader α α) := by
  apply take
  intro t v hv ht
  cases t <;> cases hv
  exact ht v rfl

theorem accept (p : Token α → Bool) : Passes N (fun _ => True) (accept p) := by
  intro ts a rest hts h
  cases ts with
  | nil =>
    cases h
    exact ⟨trivial, hts⟩
  | cons t ts =>
    unfold Reader.accept at h
    dsimp only at h
    split at h <;> cases h
    · exact ⟨trivial, (List.forall_mem_cons.mp hts).2⟩
    · exact ⟨trivial, hts⟩

theorem done : Passes N (fun _ => True) (done : Reader α Unit) := by
  intro ts a rest hts h
  cases ts with
  | nil =>
    cases h
    exact ⟨trivial, hts⟩
  | cons t ts => cases h

variable [Scalar α]

theorem count : Passes N (fun _ => True) (count : Reader α Nat) := by
  intro ts n rest hts h
  obtain ⟨⟨v, r⟩, hv, h⟩ := Outcome.of_bind_eq_ok h
  have hr := (number (N := N) hts hv).2
  dsimp only at h
  split at h <;> cases h
  exact ⟨trivial, hr⟩

omit [Scalar α] in
theorem motion : Passes N (fun _ => True) (motion : Reader α Motion) := by
  intro ts m rest hts h
  unfold Reader.motion at h
  split at h
  · split at h <;> cases h
    exact ⟨trivial, (List.forall_mem_cons.mp hts).2⟩
  · cases h

omit [Scalar α] in
theorem easeName (strict : Bool) :
    Passes N (fun _ => True) (easeName strict : Reader α String) := by
  intro ts name rest hts h
  obtain ⟨⟨word, r⟩, hw, h⟩ := Outcome.of_bind_eq_ok h
  have hr := (skip (N := N) hts hw).2
  dsimp only at h
  split at h <;> cases h
  exact ⟨trivial, hr⟩

end Reader.Passes

end Passes

namespace Reader

/-- A range of tokens is finite, but a single number is taken as it is. -/
theorem lexed_quantity : Passes Numeral.OfDecimal Quantity.Lexed quantity := by
  intro ts q rest hts h
  obtain ⟨⟨a, r₁⟩, ha, h⟩ := Outcome.of_bind_eq_ok h
  obtain ⟨hda, hr₁⟩ := Passes.number hts ha
  obtain ⟨⟨isRange, r₂⟩, hdots, h⟩ := Outcome.of_bind_eq_ok h
  have hr₂ := (Passes.accept isDots hr₁ hdots).2
  dsimp only at h
  split at h
  · obtain ⟨⟨b, r₃⟩, hb, h⟩ := Outcome.of_bind_eq_ok h
    have hr₃ := (Passes.number hr₂ hb).2
    dsimp only at h
    split at h
    · next hf =>
      cases h
      exact ⟨.measured (Quantity.measured_between hf), hr₃⟩
    · cases h
  · cases h
    exact ⟨hda.lexed, hr₂⟩

theorem lexed_statementHeader :
    Passes Numeral.OfDecimal (fun h => ∀ q ∈ h.every, q.Lexed) (statementHeader (α := Float)) := by
  have hend {every : Option (Quantity Float)} (he : ∀ q ∈ every, q.Lexed) (kind : StatementKind)
      (clip : String) (count : Nat) : Passes Numeral.OfDecimal
        (fun h : StatementHeader Float => ∀ q ∈ h.every, q.Lexed) (do
          take .colon colon?
          done
          pure { kind, clip, count, every }) :=
    .bind .skip fun _ _ => .bind .done fun _ _ => .pure he
  have hsome (q : Quantity Float) (hq : q.Lexed) : ∀ p ∈ some q, p.Lexed := by
    rintro _ ⟨⟩
    exact hq
  have hnone : ∀ q ∈ (none : Option (Quantity Float)), q.Lexed := nofun
  have hevery (kind : StatementKind) (clip : String) (count : Nat) (repeats : Bool) :
      Passes Numeral.OfDecimal (fun h : StatementHeader Float => ∀ q ∈ h.every, q.Lexed)
        (if repeats = true then do
          let every ← some <$> quantity
          take .colon colon?
          done
          pure { kind, clip, count, every }
        else do
          let every ← pure none
          take .colon colon?
          done
          pure { kind, clip, count, every }) :=
    .ite (.bind (.map lexed_quantity hsome) fun every he => hend he kind clip count)
      (.bind (.pure hnone) fun every he => hend he kind clip count)
  have hkind {f : StatementKind → String → Bool → Reader Float (StatementHeader Float)}
      (hf : ∀ kind clip repeats, Passes Numeral.OfDecimal (fun h => ∀ q ∈ h.every, q.Lexed)
        (f kind clip repeats)) :
      Passes Numeral.OfDecimal (fun h => ∀ q ∈ h.every, q.Lexed) (do
        let kind ← take .statementKind kind?
        let clip ← take .clip clip?
        let repeats ← accept (isReserved .every)
        f kind clip repeats) :=
    .bind .skip fun kind _ => .bind .skip fun clip _ => .bind (.accept _) fun repeats _ =>
      hf kind clip repeats
  unfold statementHeader
  refine .bind .get fun ts _ => .ite ?_ ?_
  · exact .bind .count fun count _ => .bind .skip fun _ _ =>
      .bind (.pure (P := fun _ => True) trivial) fun _ _ =>
        hkind fun kind clip repeats => hevery kind clip _ repeats
  · exact .bind (.pure (P := fun _ => True) trivial) fun _ _ =>
      hkind fun kind clip repeats => hevery kind clip _ repeats

end Reader

/-- An interpolation of which the ends and the length are read as tokens. -/
structure Interpolation.Lexed (i : Interpolation Float) : Prop where
  low : i.low.Lexed
  high : i.high.Lexed
  duration : i.duration.Lexed

namespace Reader

theorem lexed_repetition {spec : Interpolation Float} (hs : spec.Lexed) :
    Passes Numeral.OfDecimal Interpolation.Lexed (repetition spec) := by
  have hendless : spec.endless.Lexed := ⟨hs.low, hs.high, hs.duration⟩
  have htimes (n : Nat) : (spec.times n).Lexed := ⟨hs.low, hs.high, hs.duration⟩
  unfold repetition
  refine .bind (.accept _) fun _ _ => .ite (.pure hendless) ?_
  refine .bind (.accept _) fun _ _ => .ite ?_ (.pure hs)
  refine .bind (.accept _) fun _ _ => .ite (.pure hendless) ?_
  exact .bind .count fun n _ => .pure (htimes n)

theorem lexed_call (strict : Bool) :
    Passes Numeral.OfDecimal Interpolation.Lexed (call strict (α := Float)) := by
  unfold call
  refine .bind .motion fun motion _ => .bind .skip fun _ _ => ?_
  refine .bind lexed_quantity fun low hlow => .bind .skip fun _ _ => ?_
  refine .bind lexed_quantity fun high hhigh => .bind .skip fun _ _ => ?_
  refine .bind (.easeName strict) fun name _ => .bind .skip fun _ _ => ?_
  refine .bind lexed_quantity fun duration hduration => ?_
  refine .bind (lexed_repetition ⟨hlow, hhigh, hduration⟩) fun spec hspec => ?_
  exact .bind .skip fun _ _ => .bind .done fun _ _ => .pure hspec

theorem Passes.readTokens {A : Type} {P : A → Prop} {x : Reader Float A}
    (hx : Passes Numeral.OfDecimal P x) {column : Nat} {text : List Char} {a : A}
    (h : Setting.readTokens column text (fun ts => Prod.fst <$> x ts) = .ok a) : P a := by
  unfold Setting.readTokens at h
  rcases ht : (Token.tokenize column text : Except _ (List (Placed Float))) with e | ts
  · rw [ht] at h
    cases h
  · rw [ht] at h
    dsimp only at h
    rcases hr : x ts with e | ⟨b, rest⟩
    · rw [hr] at h
      cases h
    · rw [hr] at h
      cases h
      exact (hx (Token.ofDecimal_of_tokenize ht) hr).1

end Reader

end Soundscape
