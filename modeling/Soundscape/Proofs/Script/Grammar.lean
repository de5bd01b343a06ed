import Soundscape.Proofs.Script.Written

/-!
# The grammar of headers and calls

What a statement's header or an interpolation call is in tokens (`StatementHeader.Spelled`,
`Interpolation.Spelled`), and that the readers follow it.  A reader goes by a rule about the tokens
it finds, the value that it makes and the tokens that it leaves (`Reader.GoesBy`); the rule of a
whole reader is put together from those of its parts.
-/

namespace Soundscape

variable {α : Type}

/-! ## The grammar -/

def StatementKind.keyword : StatementKind → Keyword
  | loop => .loop
  | oneshot => .oneshot

/-- The word for a motion in a script. -/
def Motion.word : Motion → String
  | interpolate => "interpolate"
  | goto => "goto"
  | gobetween => "gobetween"

section Grammar

variable [Scalar α]

/-- The number is a count: a whole number from one to the largest of 32 bits. -/
def IsCount (v : α) (n : Nat) : Prop := Scalar.natural? v = some n ∧ 1 ≤ n ∧ n ≤ 2 ^ 32 - 1

/-- The tokens of a quantity: a number, or the ends of a range in either order. -/
inductive Quantity.Spelled : Quantity α → List (Token α) → Prop where
  | fixed (v : α) : Spelled (.fixed v) [.number v]
  | range {a b : α} : Scalar.isFinite (b - a) → a ≤ b →
      Spelled (.range a b) [.number a, .dots, .number b]
  | reversed {a b : α} : Scalar.isFinite (b - a) → b < a →
      Spelled (.range b a) [.number a, .dots, .number b]

/-- The tokens of a statement's count. -/
inductive CountSpelled : Nat → List (Token α) → Prop where
  | absent : CountSpelled 1 []
  | written {v : α} {n : Nat} : IsCount v n → CountSpelled n [.number v, .star]

/-- The tokens of the time from one firing to the next. -/
inductive EverySpelled : Option (Quantity α) → List (Token α) → Prop where
  | absent : EverySpelled none []
  | written {q : Quantity α} {ts : List (Token α)} : q.Spelled ts →
      EverySpelled (some q) (.keyword .every :: ts)

/-- The tokens of a statement's header. -/
inductive Reader.StatementHeader.Spelled : StatementHeader α → List (Token α) → Prop where
  | mk (kind : StatementKind) {clip : String} {count : Nat} {every : Option (Quantity α)}
      {counts everys : List (Token α)} : CountSpelled count counts →
      Text.trim clip.toList ≠ [] → EverySpelled every everys →
      Spelled ⟨kind, String.ofList (Text.trim clip.toList), count, every⟩
        (counts ++ .keyword kind.keyword :: .str clip :: everys ++ [.colon])

/-- The tokens that say how often a motion is run. -/
inductive RepetitionSpelled (m : Motion) : Nat → Bool → List (Token α) → Prop where
  | absent : RepetitionSpelled m 1 (m == .gobetween) []
  | forever : RepetitionSpelled m 1 true [.keyword .forever]
  | forEver : RepetitionSpelled m 1 true [.keyword .for, .keyword .ever]
  | times {v : α} {n : Nat} : IsCount v n → RepetitionSpelled m n false [.keyword .for, .number v]

/-- The tokens of an interpolation call. -/
inductive Interpolation.Spelled : Interpolation α → List (Token α) → Prop where
  | mk {m : Motion} {word name : String} {low high duration : Quantity α} {repeats : Nat}
      {forever : Bool} {lows highs durations times : List (Token α)} :
      Text.lower word.toList = m.word.toList → low.Spelled lows → high.Spelled highs →
      duration.Spelled durations → RepetitionSpelled m repeats forever times →
      Spelled ⟨m, low, high, duration, name, Ease.ofName name, repeats, forever⟩
        (.ident word :: .openParen :: lows ++ .keyword .and :: highs ++
          .keyword .as :: .ident name :: .keyword .in :: durations ++ times ++ [.closeParen])

end Grammar

/-! ## What the parts of readers pick -/

namespace Reader

section Picks

variable {t : Token α}

@[simp] theorem reserved_eq_some {k : Keyword} {u : Unit} :
    reserved k t = some u ↔ t = .keyword k := by
  cases t with
  | keyword k' => simp [reserved, eq_comm]
  | _ => simp [reserved]

@[simp] theorem isReserved_iff {k : Keyword} : isReserved k t ↔ t = .keyword k := by
  rw [isReserved, Option.isSome_iff_exists]
  simp

@[simp] theorem number?_eq_some {v : α} : number? t = some v ↔ t = .number v := by
  cases t <;> simp [number?]

@[simp] theorem ident?_eq_some {name : String} : ident? t = some name ↔ t = .ident name := by
  cases t <;> simp [ident?]

@[simp] theorem star?_eq_some {u : Unit} : star? t = some u ↔ t = .star := by
  cases t <;> simp [star?]

@[simp] theorem colon?_eq_some {u : Unit} : colon? t = some u ↔ t = .colon := by
  cases t <;> simp [colon?]

@[simp] theorem openParen?_eq_some {u : Unit} : openParen? t = some u ↔ t = .openParen := by
  cases t <;> simp [openParen?]

@[simp] theorem closeParen?_eq_some {u : Unit} : closeParen? t = some u ↔ t = .closeParen := by
  cases t <;> simp [closeParen?]

@[simp] theorem isDots_iff : isDots t ↔ t = .dots := by
  cases t <;> simp [isDots]

@[simp] theorem kind?_eq_some {kind : StatementKind} :
    kind? t = some kind ↔ t = .keyword kind.keyword := by
  cases t with
  | keyword k => cases k <;> cases kind <;> simp [kind?, StatementKind.keyword]
  | _ => simp [kind?]

@[simp] theorem clip?_eq_some {clip : String} :
    clip? t = some clip ↔ ∃ s : String, t = .str s ∧ Text.trim s.toList ≠ [] ∧
      clip = String.ofList (Text.trim s.toList) := by
  cases t with
  | str s =>
    by_cases hs : Text.trim s.toList = []
    · simp [clip?, hs]
    · simp [clip?, hs, @eq_comm _ _ clip]
  | _ => simp [clip?]

theorem countOf?_eq_some [Scalar α] {v : α} {n : Nat} : countOf? v = some n ↔ IsCount v n := by
  rw [countOf?, Option.filter_eq_some_iff, Bool.and_eq_true, decide_eq_true_eq, decide_eq_true_eq]
  rfl

end Picks

/-! ## Rules -/

abbrev tokens (ts : List (Placed α)) : List (Token α) := ts.map Placed.token

variable {A B : Type}

/-- The reader takes a value from tokens and leaves others if and only if the rule says so. -/
structure GoesBy (R : List (Token α) → A → List (Token α) → Prop) (x : Reader α A) : Prop where
  sound {ts rest : List (Placed α)} {a : A} : x ts = .ok (a, rest) → R (tokens ts) a (tokens rest)
  complete {ts : List (Placed α)} {a : A} {w : List (Token α)} : R (tokens ts) a w →
    ∃ rest, x ts = .ok (a, rest) ∧ tokens rest = w

namespace GoesBy

variable {x y : Reader α A} {P R : List (Token α) → A → List (Token α) → Prop}
  {Q : A → List (Token α) → B → List (Token α) → Prop}

theorem congr (hx : GoesBy P x) (h : ∀ w a w', P w a w' ↔ R w a w') : GoesBy R x where
  sound hts := (h _ _ _).mp (hx.sound hts)
  complete hr := hx.complete ((h _ _ _).mpr hr)

theorem pure (a : A) : GoesBy (fun w b w' => b = a ∧ w' = w) (Pure.pure a : Reader α A) where
  sound := by
    rintro ts rest _ ⟨⟩
    exact ⟨rfl, rfl⟩
  complete := by
    rintro ts _ _ ⟨rfl, rfl⟩
    exact ⟨ts, rfl, rfl⟩

theorem bind {f : A → Reader α B} (hx : GoesBy P x) (hf : ∀ a, GoesBy (Q a) (f a)) :
    GoesBy (fun w b w'' => ∃ a w', P w a w' ∧ Q a w' b w'') (x >>= f) where
  sound h := by
    obtain ⟨⟨a, r⟩, ha, h⟩ := Outcome.of_bind_eq_ok h
    exact ⟨a, tokens r, hx.sound ha, (hf a).sound h⟩
  complete := by
    rintro ts b w'' ⟨a, w', hp, hq⟩
    obtain ⟨r, ha, rfl⟩ := hx.complete hp
    obtain ⟨rest, hb, hrest⟩ := (hf a).complete hq
    refine ⟨rest, ?_, hrest⟩
    show (x ts >>= fun r => f r.1 r.2) = _
    rw [ha]
    exact hb

theorem map {f : A → B} (hx : GoesBy P x) :
    GoesBy (fun w b w' => ∃ a, P w a w' ∧ b = f a) (f <$> x) :=
  (bind hx fun a => pure (f a)).congr fun w b w' => by simp

theorem ite {p : Prop} [Decidable p] (hx : GoesBy P x) (hy : GoesBy R y) :
    GoesBy (fun w a w' => if p then P w a w' else R w a w') (if p then x else y) := by
  split
  · exact hx
  · exact hy

theorem take (what : Expected) (pick : Token α → Option A) :
    GoesBy (fun w a w' => ∃ t, pick t = some a ∧ w = t :: w') (take what pick) where
  sound {ts rest a} h := by
    cases ts with
    | nil => cases h
    | cons t ts =>
      unfold Reader.take at h
      dsimp only at h
      split at h
      · next a' ha =>
        cases h
        exact ⟨t.token, ha, rfl⟩
      · cases h
  complete {ts a w} := by
    rintro ⟨t, ht, hts⟩
    obtain ⟨⟨_, column⟩, rest, rfl, rfl, rfl⟩ := List.map_eq_cons_iff.mp hts
    refine ⟨rest, ?_, rfl⟩
    unfold Reader.take
    dsimp only
    rw [ht]

theorem mark {what : Expected} {pick : Token α → Option Unit} {t : Token α}
    (h : ∀ t', pick t' = some () ↔ t' = t) :
    GoesBy (fun w _ w' => w = t :: w') (Reader.take what pick) :=
  (take what pick).congr fun w u w' => by simp [h]

theorem accept (p : Token α → Bool) :
    GoesBy (fun w b w' => (b = true ∧ ∃ t, p t ∧ w = t :: w') ∨
      (b = false ∧ w' = w ∧ ∀ t ∈ w.head?, ¬ p t)) (accept p) where
  sound {ts rest b} h := by
    cases ts with
    | nil =>
      cases h
      exact .inr ⟨rfl, rfl, nofun⟩
    | cons t ts =>
      unfold Reader.accept at h
      dsimp only at h
      split at h <;> cases h
      · next ht => exact .inl ⟨rfl, t.token, ht, rfl⟩
      · next ht => exact .inr ⟨rfl, rfl, by simpa using ht⟩
  complete {ts b w} := by
    rintro (⟨rfl, t, ht, hts⟩ | ⟨rfl, rfl, ht⟩)
    · obtain ⟨t, rest, rfl, rfl, rfl⟩ := List.map_eq_cons_iff.mp hts
      exact ⟨rest, if_pos ht, rfl⟩
    · cases ts with
      | nil => exact ⟨[], rfl, rfl⟩
      | cons t ts => exact ⟨t :: ts, if_neg (ht t.token rfl), rfl⟩

theorem choice {p : Token α → Bool} (hx : GoesBy P x) (hy : GoesBy R y) :
    GoesBy (fun w a w' => (∃ t v, p t ∧ w = t :: v ∧ P v a w') ∨
      ((∀ t ∈ w.head?, ¬ p t) ∧ R w a w')) (do if ← Reader.accept p then x else y) := by
  refine ((accept p).bind fun b => hx.ite hy).congr fun w a w' => ⟨?_, ?_⟩
  · rintro ⟨_, v, ⟨rfl, t, ht, rfl⟩ | ⟨rfl, rfl, ht⟩, hv⟩
    · exact .inl ⟨t, v, ht, rfl, by simpa using hv⟩
    · exact .inr ⟨ht, by simpa using hv⟩
  · rintro (⟨t, v, ht, rfl, hv⟩ | ⟨ht, hv⟩)
    · exact ⟨true, v, .inl ⟨rfl, t, ht, rfl⟩, by simpa using hv⟩
    · exact ⟨false, w, .inr ⟨rfl, rfl, ht⟩, by simpa using hv⟩

theorem peek {p : List (Placed α) → Bool} {q : List (Token α) → Bool}
    (hp : ∀ ts, p ts = q (tokens ts)) (hx : GoesBy P x) (hy : GoesBy R y) :
    GoesBy (fun w a w' => if q w then P w a w' else R w a w') (do if p (← get) then x else y) where
  sound {ts rest a} h := by
    have h : (if p ts then x else y) ts = .ok (a, rest) := h
    rw [hp ts] at h
    exact (hx.ite hy).sound h
  complete {ts a w} h := by
    obtain ⟨rest, hts, hrest⟩ := (hx.ite hy).complete h
    rw [← hp ts] at hts
    exact ⟨rest, hts, hrest⟩

theorem done : GoesBy (fun w _ w' => w = [] ∧ w' = []) (done : Reader α Unit) where
  sound {ts rest a} h := by
    cases ts with
    | nil =>
      cases h
      exact ⟨rfl, rfl⟩
    | cons t ts => cases h
  complete {ts a w} := by
    rintro ⟨hts, rfl⟩
    obtain rfl := List.map_eq_nil_iff.mp hts
    exact ⟨[], rfl, rfl⟩

theorem number : GoesBy (fun w v w' => w = .number v :: w') (number : Reader α α) :=
  (take _ _).congr fun w v w' => by simp

variable [Scalar α]

theorem count : GoesBy (fun w n w' => ∃ v, w = .number v :: w' ∧ IsCount v n)
    (count : Reader α Nat) where
  sound {ts rest n} h := by
    obtain ⟨⟨v, r⟩, hv, h⟩ := Outcome.of_bind_eq_ok h
    dsimp only at h
    split at h
    · next m hm =>
      cases h
      exact ⟨v, number.sound hv, countOf?_eq_some.mp hm⟩
    · cases h
  complete {ts n w} := by
    rintro ⟨v, hts, hn⟩
    obtain ⟨rest, hv, hrest⟩ := number.complete hts
    refine ⟨rest, ?_, hrest⟩
    unfold Reader.count
    rw [hv]
    show (Pure.pure (v, rest) >>= _ : Except (Fault α) _) = _
    rw [pure_bind]
    dsimp only
    rw [countOf?_eq_some.mpr hn]

/-- A text is read if and only if its tokens are those of what is read. -/
theorem readTokens_eq_ok {S : A → List (Token α) → Prop}
    (hx : GoesBy (fun w a w' => w' = [] ∧ S a w) x) {column : Nat} {text : List Char} {a : A} :
    Setting.readTokens column text (fun ts => Prod.fst <$> x ts) = .ok a ↔
      ∃ ts, Token.tokenize column text = .ok ts ∧ S a (tokens ts) := by
  unfold Setting.readTokens
  cases (Token.tokenize column text : Except _ (List (Placed α))) with
  | error e => exact iff_of_false nofun nofun
  | ok ts =>
    dsimp only
    constructor
    · intro h
      cases hr : x ts with
      | error f =>
        rw [hr] at h
        cases h
      | ok r =>
        rw [hr] at h
        cases h
        exact ⟨ts, rfl, (hx.sound hr).2⟩
    · rintro ⟨_, ⟨⟩, ha⟩
      obtain ⟨rest, hr, -⟩ := hx.complete ⟨rfl, ha⟩
      rw [hr]
      rfl

end GoesBy

end Reader

variable [Scalar α] [Scalar.Ordered α]

theorem Quantity.spelled_range_iff {q : Quantity α} {a b : α} :
    q.Spelled [.number a, .dots, .number b] ↔ Scalar.isFinite (b - a) ∧ q = between a b := by
  unfold between
  constructor
  · rintro (_ | ⟨hf, hab⟩ | ⟨hf, hba⟩)
    · exact ⟨hf, (if_pos hab).symm⟩
    · exact ⟨hf, (if_neg ((Scalar.Ordered.lt_iff b a).mp hba).2).symm⟩
  · rintro ⟨hf, rfl⟩
    split
    · next hab => exact .range hf hab
    · next hab =>
      exact .reversed hf ((Scalar.Ordered.lt_iff b a).mpr
        ⟨(Scalar.Ordered.le_or_le hf).resolve_left hab, hab⟩)

namespace Reader.GoesBy

/-- A quantity is read as far as it goes: one number is all of it only if no `..` is next. -/
theorem quantity : GoesBy (fun w q w' => ∃ u, w = u ++ w' ∧ q.Spelled u ∧
    (w'.head? = some .dots → u.length ≠ 1)) (quantity : Reader α (Quantity α)) where
  sound {ts rest q} h := by
    obtain ⟨⟨a, r₁⟩, ha, h⟩ := Outcome.of_bind_eq_ok h
    obtain ⟨⟨isRange, r₂⟩, hdots, h⟩ := Outcome.of_bind_eq_ok h
    have ha := number.sound ha
    dsimp only at h hdots
    obtain ⟨rfl, t, ht, hr₁⟩ | ⟨rfl, hr₁, hnext⟩ := (accept isDots).sound hdots
    · obtain ⟨⟨b, r₃⟩, hb, h⟩ := Outcome.of_bind_eq_ok h
      have hb := number.sound hb
      dsimp only at h hb
      split at h
      · next hf =>
        cases h
        refine ⟨[.number a, .dots, .number b], ?_, Quantity.spelled_range_iff.mpr ⟨hf, rfl⟩,
          fun _ => by simp⟩
        rw [ha, hr₁, isDots_iff.mp ht, hb]
        rfl
      · cases h
    · cases h
      refine ⟨[.number a], by rw [ha, ← hr₁]; rfl, .fixed a, fun hdots => ?_⟩
      exact absurd (isDots_iff.mpr rfl) (hnext .dots (hr₁ ▸ hdots))
  complete {ts q w} := by
    rintro ⟨u, hts, hq, hnext⟩
    -- a range is read in three steps, whichever of its ends is the larger one
    have hrange {a b : α} {q : Quantity α} (hq : q.Spelled [.number a, .dots, .number b])
        (hts : tokens ts = .number a :: .dots :: .number b :: w) :
        ∃ rest, Reader.quantity ts = .ok (q, rest) ∧ tokens rest = w := by
      obtain ⟨hf, rfl⟩ := Quantity.spelled_range_iff.mp hq
      obtain ⟨r₁, ha, hr₁⟩ := number.complete hts
      obtain ⟨r₂, hdots, hr₂⟩ := (accept isDots).complete (a := true) (w := .number b :: w)
        (.inl ⟨rfl, .dots, rfl, hr₁⟩)
      obtain ⟨rest, hb, hrest⟩ := number.complete hr₂
      refine ⟨rest, ?_, hrest⟩
      unfold Reader.quantity
      rw [ha]
      show (Reader.accept isDots r₁ >>= _) = _
      rw [hdots]
      show (Reader.number r₂ >>= _) = _
      rw [hb]
      exact if_pos hf
    cases hq with
    | fixed v =>
      have hnone : ∀ t ∈ w.head?, ¬ isDots t := fun t ht hd =>
        hnext (isDots_iff.mp hd ▸ ht) rfl
      obtain ⟨r₁, ha, hr₁⟩ := number.complete (w := w) hts
      obtain ⟨rest, hdots, hrest⟩ := (accept isDots).complete (a := false) (w := w)
        (.inr ⟨rfl, hr₁.symm, hr₁ ▸ hnone⟩)
      refine ⟨rest, ?_, hrest⟩
      unfold Reader.quantity
      rw [ha]
      show (Reader.accept isDots r₁ >>= _) = _
      rw [hdots]
      rfl
    | range hf hab => exact hrange (.range hf hab) hts
    | reversed hf hba => exact hrange (.reversed hf hba) hts

end Reader.GoesBy

/-! ## Headers -/

namespace Reader

def headerEnd (h : StatementHeader α) : Reader α (StatementHeader α) := do
  take .colon colon?
  done
  pure h

def afterClip (kind : StatementKind) (clip : String) (count : Nat) :
    Reader α (StatementHeader α) := do
  if ← accept (isReserved .every) then
    let every ← some <$> quantity
    headerEnd { kind, clip, count, every }
  else headerEnd { kind, clip, count, every := none }

def afterCount (count : Nat) : Reader α (StatementHeader α) := do
  let kind ← take .statementKind kind?
  let clip ← take .clip clip?
  afterClip kind clip count

omit [Scalar.Ordered α] in
theorem statementHeader_eq : statementHeader (α := α) = (do
    if numberNext (← get) then
      let count ← count
      take .star star?
      afterCount count
    else afterCount 1) := rfl

namespace GoesBy

omit [Scalar α] [Scalar.Ordered α] in
theorem headerEnd (h : StatementHeader α) :
    GoesBy (fun w h' w' => w = [.colon] ∧ w' = [] ∧ h' = h) (headerEnd h) :=
  ((mark fun _ => colon?_eq_some).bind fun _ => done.bind fun _ => pure _).congr fun w h w' => by
    simp [and_comm]

theorem afterClip (kind : StatementKind) (clip : String) (count : Nat) :
    GoesBy (fun w h w' => ∃ every es, w = es ++ [.colon] ∧ EverySpelled every es ∧ w' = [] ∧
      h = ⟨kind, clip, count, every⟩) (afterClip (α := α) kind clip count) := by
  unfold Reader.afterClip
  refine (choice ((map quantity).bind fun _ => headerEnd _) (headerEnd _)).congr
    fun w h w' => ⟨?_, ?_⟩
  · rintro (⟨t, v, ht, rfl, every, _, ⟨q, ⟨u, rfl, hq, -⟩, rfl⟩, rfl, rfl, rfl⟩ |
      ⟨-, rfl, rfl, rfl⟩)
    · obtain rfl := isReserved_iff.mp ht
      exact ⟨some q, _, rfl, .written hq, rfl, rfl⟩
    · exact ⟨none, [], rfl, .absent, rfl, rfl⟩
  · rintro ⟨every, es, rfl, hes, rfl, rfl⟩
    cases hes with
    | absent => exact .inr ⟨by simp, rfl, rfl, rfl⟩
    | @written q u hq =>
      exact .inl ⟨_, _, isReserved_iff.mpr rfl, rfl, some q, [.colon],
        ⟨q, ⟨u, rfl, hq, by simp⟩, rfl⟩, rfl, rfl, rfl⟩

theorem afterCount (count : Nat) :
    GoesBy (fun w h w' => ∃ kind, ∃ clip : String, ∃ every es,
      w = .keyword (StatementKind.keyword kind) :: .str clip :: es ++ [.colon] ∧
        Text.trim clip.toList ≠ [] ∧ EverySpelled every es ∧ w' = [] ∧
        h = ⟨kind, String.ofList (Text.trim clip.toList), count, every⟩)
      (afterCount (α := α) count) := by
  unfold Reader.afterCount
  refine ((take _ _).bind fun kind => (take _ _).bind fun clip => afterClip kind clip count).congr
    fun w h w' => ⟨?_, ?_⟩
  · rintro ⟨kind, _, ⟨_, hkind, rfl⟩, _, _, ⟨_, hclip, rfl⟩, every, es, rfl, hes, rfl, rfl⟩
    obtain rfl := kind?_eq_some.mp hkind
    obtain ⟨clip, rfl, hblank, rfl⟩ := clip?_eq_some.mp hclip
    exact ⟨kind, clip, every, es, rfl, hblank, hes, rfl, rfl⟩
  · rintro ⟨kind, clip, every, es, rfl, hblank, hes, rfl, rfl⟩
    exact ⟨kind, _, ⟨_, kind?_eq_some.mpr rfl, rfl⟩, _, _,
      ⟨_, clip?_eq_some.mpr ⟨clip, rfl, hblank, rfl⟩, rfl⟩, every, es, rfl, hes, rfl, rfl⟩

theorem statementHeader :
    GoesBy (fun w h w' => w' = [] ∧ h.Spelled w) (statementHeader (α := α)) := by
  have hnext (ts : List (Placed α)) :
      numberNext ts = (tokens ts).head?.any fun t => (number? t).isSome := by
    cases ts <;> rfl
  rw [statementHeader_eq]
  refine (peek (q := fun w => w.head?.any fun t => (number? t).isSome) hnext
    (count.bind fun n => (mark fun _ => star?_eq_some).bind fun _ => afterCount n)
    (afterCount 1)).congr fun w h w' => ⟨fun hw => ?_, ?_⟩
  · split at hw
    · obtain ⟨n, _, ⟨v, rfl, hv⟩, _, _, rfl, kind, clip, every, es, rfl, hblank, hes, rfl, rfl⟩ :=
        hw
      exact ⟨rfl, .mk kind (.written hv) hblank hes⟩
    · obtain ⟨kind, clip, every, es, rfl, hblank, hes, rfl, rfl⟩ := hw
      exact ⟨rfl, .mk kind .absent hblank hes⟩
  · rintro ⟨rfl, hh⟩
    cases hh with
    | mk kind hcount hblank hes =>
      cases hcount with
      | absent => exact ⟨kind, _, _, _, rfl, hblank, hes, rfl, rfl⟩
      | written hv =>
        exact ⟨_, _, ⟨_, rfl, hv⟩, (), _, rfl, kind, _, _, _, rfl, hblank, hes, rfl, rfl⟩

end GoesBy

end Reader

/-! ## Calls -/

namespace Motion

omit [Scalar α] [Scalar.Ordered α] in
theorem ofKeyword?_eq_some {word : List Char} {m : Motion} :
    ofKeyword? word = some m ↔ Text.lower word = m.word.toList := by
  have hword : ofKeyword? word = some m ↔ String.ofList (Text.lower word) = m.word := by
    unfold ofKeyword?
    split <;> cases m <;> simp_all [Motion.word]
  rw [hword, ← String.toList_inj, String.toList_ofList]

end Motion

namespace Reader

namespace GoesBy

omit [Scalar α] [Scalar.Ordered α] in
theorem motion : GoesBy (fun w m w' => ∃ word : String, w = .ident word :: w' ∧
    Text.lower word.toList = m.word.toList) (motion : Reader α Motion) where
  sound {ts rest m} h := by
    unfold Reader.motion at h
    split at h
    · split at h
      · next m' hm =>
        cases h
        exact ⟨_, rfl, Motion.ofKeyword?_eq_some.mp hm⟩
      · cases h
    · cases h
  complete {ts m w} := by
    rintro ⟨word, hts, hm⟩
    obtain ⟨⟨_, column⟩, rest, rfl, rfl, rfl⟩ := List.map_eq_cons_iff.mp hts
    refine ⟨rest, ?_, rfl⟩
    unfold Reader.motion
    dsimp only
    rw [Motion.ofKeyword?_eq_some.mpr hm]

omit [Scalar α] [Scalar.Ordered α] in
/-- Any name is the name of a curve unless strict rules hold. -/
theorem easeName : GoesBy (fun w name w' => w = .ident name :: w')
    (easeName false : Reader α String) where
  sound {ts rest name} h := by
    obtain ⟨⟨name', r⟩, hname, h⟩ := Outcome.of_bind_eq_ok h
    obtain ⟨t, ht, hts⟩ := (take _ _).sound hname
    cases h
    rw [hts, ident?_eq_some.mp ht]
  complete {ts name w} h := by
    obtain ⟨rest, hname, hrest⟩ :=
      (take .easeName ident?).complete ⟨_, ident?_eq_some.mpr rfl, h⟩
    refine ⟨rest, ?_, hrest⟩
    unfold Reader.easeName
    rw [hname]
    rfl

omit [Scalar.Ordered α] in
theorem repetition {m : Motion} {low high duration : Quantity α} {name : String} :
    GoesBy (fun w spec w' => ∃ u repeats forever, w = u ++ w' ∧
        RepetitionSpelled m repeats forever u ∧
        spec = ⟨m, low, high, duration, name, Ease.ofName name, repeats, forever⟩ ∧
        (u = [] → ∀ t ∈ w'.head?, t ≠ .keyword .forever ∧ t ≠ .keyword .for))
      (repetition (.plain m low high duration name)) := by
  unfold Reader.repetition
  refine (choice (pure _) (choice (choice (pure _) (count.bind fun _ => pure _)) (pure _))).congr
    fun w spec w' => ⟨?_, ?_⟩
  · rintro (⟨t, v, ht, rfl, rfl, rfl⟩ | ⟨hforever, ⟨t, v, ht, rfl, hv⟩ | ⟨hfor, rfl, rfl⟩⟩)
    · obtain rfl := isReserved_iff.mp ht
      exact ⟨_, _, _, rfl, .forever, rfl, nofun⟩
    · obtain rfl := isReserved_iff.mp ht
      obtain ⟨t, v, ht, rfl, rfl, rfl⟩ | ⟨-, n, v, ⟨x, rfl, hx⟩, rfl, rfl⟩ := hv
      · obtain rfl := isReserved_iff.mp ht
        exact ⟨_, _, _, rfl, .forEver, rfl, nofun⟩
      · refine ⟨_, _, _, rfl, .times hx, ?_, nofun⟩
        rw [Interpolation.times, max_eq_left hx.2.1]
        rfl
    · refine ⟨[], _, _, rfl, .absent, rfl, fun _ t ht => ⟨?_, ?_⟩⟩
      · exact hforever t ht ∘ isReserved_iff.mpr
      · exact hfor t ht ∘ isReserved_iff.mpr
  · rintro ⟨u, repeats, forever, rfl, hu, rfl, hnext⟩
    cases hu with
    | absent =>
      refine .inr ⟨fun t ht hr => ?_, .inr ⟨fun t ht hr => ?_, rfl, rfl⟩⟩
      · exact (hnext rfl t ht).1 (isReserved_iff.mp hr)
      · exact (hnext rfl t ht).2 (isReserved_iff.mp hr)
    | forever => exact .inl ⟨_, _, isReserved_iff.mpr rfl, rfl, rfl, rfl⟩
    | forEver =>
      exact .inr ⟨by simp, .inl ⟨_, _, isReserved_iff.mpr rfl, rfl,
        .inl ⟨_, _, isReserved_iff.mpr rfl, rfl, rfl, rfl⟩⟩⟩
    | times hn =>
      refine .inr ⟨by simp, .inl ⟨_, _, isReserved_iff.mpr rfl, rfl,
        .inr ⟨by simp, _, _, ⟨_, rfl, hn⟩, ?_, rfl⟩⟩⟩
      rw [Interpolation.times, max_eq_left hn.2.1]
      rfl

end GoesBy

def afterEnds (m : Motion) (low high : Quantity α) : Reader α (Interpolation α) := do
  let name ← easeName false
  take .in (reserved .in)
  let duration ← quantity
  let spec ← repetition (.plain m low high duration name)
  take .closeParen closeParen?
  done
  pure spec

omit [Scalar.Ordered α] in
theorem call_eq : call (α := α) false = (do
    let m ← motion
    take .openParen openParen?
    let low ← quantity
    take .and (reserved .and)
    let high ← quantity
    take .as (reserved .as)
    afterEnds m low high) := rfl

namespace GoesBy

theorem afterEnds (m : Motion) (low high : Quantity α) :
    GoesBy (fun w spec w' => ∃ name duration repeats forever durations times,
      w = .ident name :: .keyword .in :: durations ++ times ++ [.closeParen] ∧
        duration.Spelled durations ∧ RepetitionSpelled m repeats forever times ∧ w' = [] ∧
        spec = ⟨m, low, high, duration, name, Ease.ofName name, repeats, forever⟩)
      (afterEnds m low high) := by
  unfold Reader.afterEnds
  refine (easeName.bind fun name => (mark fun _ => reserved_eq_some).bind fun _ =>
    quantity.bind fun duration => repetition.bind fun spec =>
    (mark fun _ => closeParen?_eq_some).bind fun _ => done.bind fun _ => pure _).congr
    fun w spec w' => ⟨?_, ?_⟩
  · rintro ⟨name, _, rfl, _, _, rfl, duration, _, ⟨durations, rfl, hduration, -⟩,
      _, _, ⟨times, repeats, forever, rfl, htimes, rfl, -⟩, _, _, rfl, _, _, ⟨rfl, rfl⟩, rfl, rfl⟩
    exact ⟨name, duration, repeats, forever, durations, times, by simp, hduration, htimes, rfl, rfl⟩
  · rintro ⟨name, duration, repeats, forever, durations, times, rfl, hduration, htimes, rfl, rfl⟩
    have hnext : (times ++ [Token.closeParen]).head? = some .dots → durations.length ≠ 1 := by
      cases htimes <;> simp
    simp only [List.append_assoc, List.cons_append]
    exact ⟨name, _, rfl, (), _, rfl, duration, _, ⟨durations, rfl, hduration, hnext⟩,
      _, [.closeParen], ⟨times, repeats, forever, rfl, htimes, rfl, by simp⟩,
      (), [], rfl, (), [], ⟨rfl, rfl⟩, rfl, rfl⟩

theorem call : GoesBy (fun w spec w' => w' = [] ∧ spec.Spelled w) (call (α := α) false) := by
  rw [call_eq]
  refine (motion.bind fun m => (mark fun _ => openParen?_eq_some).bind fun _ =>
    quantity.bind fun low => (mark fun _ => reserved_eq_some).bind fun _ =>
    quantity.bind fun high => (mark fun _ => reserved_eq_some).bind fun _ =>
    afterEnds m low high).congr fun w spec w' => ⟨?_, ?_⟩
  · rintro ⟨m, _, ⟨word, rfl, hm⟩, _, _, rfl, low, _, ⟨lows, rfl, hlow, -⟩, _, _, rfl,
      high, _, ⟨highs, rfl, hhigh, -⟩, _, _, rfl, name, duration, repeats, forever, durations, times,
      rfl, hduration, htimes, rfl, rfl⟩
    have h : Interpolation.Spelled
        ⟨m, low, high, duration, name, Ease.ofName name, repeats, forever⟩ _ :=
      .mk hm hlow hhigh hduration htimes
    exact ⟨rfl, by simpa using h⟩
  · rintro ⟨rfl, hspec⟩
    cases hspec with
    | @mk m word name low high duration repeats forever lows highs durations times hm hlow hhigh
        hduration htimes =>
      simp only [List.append_assoc, List.cons_append]
      exact ⟨m, _, ⟨word, rfl, hm⟩, (), _, rfl, low, _, ⟨lows, rfl, hlow, by simp⟩, (), _, rfl,
        high, _, ⟨highs, rfl, hhigh, by simp⟩, (), _, rfl, name, duration, repeats, forever,
        durations, times, by simp, hduration, htimes, trivial, rfl⟩

end GoesBy

end Reader

end Soundscape
