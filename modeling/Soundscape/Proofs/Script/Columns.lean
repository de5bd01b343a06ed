import Mathlib.Data.List.Forall2
import Soundscape.Script.Document

/-!
# What does not depend on columns

A column is only ever reported.  Tokens at other columns are the same tokens
(`Token.tokenize_agree`), every reader makes the same of them (`Reader.Columnless`), and so a
header or a property line says the same, or has the same problem, at whatever column it stands
(`Line.readHeader_agree`, `Setting.read_agree`).
-/

namespace Soundscape

/-- Both outcomes are results that are related, or both are errors that are related. -/
inductive Outcome.Agree {A B E F : Type} (R : A → B → Prop) (S : E → F → Prop) :
    Except E A → Except F B → Prop where
  | ok {a : A} {b : B} : R a b → Agree R S (.ok a) (.ok b)
  | error {e : E} {f : F} : S e f → Agree R S (.error e) (.error f)

namespace Outcome.Agree

variable {A A' B B' E E' : Type} {R : A → A' → Prop} {R' : B → B' → Prop} {S : E → E' → Prop}
  {x : Except E A} {x' : Except E' A'}

theorem bind {f : A → Except E B} {f' : A' → Except E' B'} (hx : Agree R S x x')
    (hf : ∀ a a', R a a' → Agree R' S (f a) (f' a')) : Agree R' S (x >>= f) (x' >>= f') := by
  cases hx with
  | ok h => exact hf _ _ h
  | error h => exact .error h

theorem map {f : A → B} {f' : A' → B'} (hx : Agree R S x x')
    (hf : ∀ a a', R a a' → R' (f a) (f' a')) : Agree R' S (f <$> x) (f' <$> x') := by
  cases hx with
  | ok h => exact .ok (hf _ _ h)
  | error h => exact .error h

end Outcome.Agree

variable {α A B : Type}

abbrev Placed.Alike : List (Placed α) → List (Placed α) → Prop :=
  List.Forall₂ fun t t' => t.token = t'.token

theorem Placed.Alike.of_cons {t : Token α} {column : Nat} {ts ts' : List (Placed α)}
    (h : Alike (⟨t, column⟩ :: ts) ts') :
    ∃ column' rest, ts' = ⟨t, column'⟩ :: rest ∧ Alike ts rest := by
  cases h with
  | @cons _ t' _ rest ht h => exact ⟨t'.column, rest, by rw [show t = t'.token from ht], h⟩

theorem Placed.Alike.symm {ts ts' : List (Placed α)} (h : Alike ts ts') : Alike ts' ts :=
  (List.Forall₂.imp (fun _ _ => Eq.symm) h).flip

theorem Placed.Alike.ne_cons {t : Token α} {ts ts' : List (Placed α)} (h : Alike ts ts')
    (hts : ∀ column rest, ts = ⟨t, column⟩ :: rest → False) (column : Nat)
    (rest : List (Placed α)) : ts' = ⟨t, column⟩ :: rest → False := by
  rintro rfl
  obtain ⟨column', rest', rfl, -⟩ := h.symm.of_cons
  exact hts column' rest' rfl

/-! ## Tokens -/

theorem Token.tokenize_agree [Scalar α] (column column' : Nat) (cs : List Char) :
    Outcome.Agree Placed.Alike (fun e e' => e.1 = e'.1)
      (tokenize column cs : Except _ (List (Placed α))) (tokenize column' cs) := by
  induction column, cs using tokenize.induct (α := α) generalizing column' with
  | case1 column =>
    unfold tokenize
    exact .ok .nil
  | case2 column c cs hc ih =>
    unfold tokenize
    rw [if_pos hc, if_pos hc]
    exact ih _
  | case3 column c cs hc e he =>
    unfold tokenize
    rw [if_neg hc, if_neg hc, he]
    exact .error rfl
  | case4 column c cs hc x hx ih =>
    unfold tokenize
    rw [if_neg hc, if_neg hc, hx]
    exact (ih _).bind fun ts ts' h => .ok (.cons rfl h)

/-! ## Readers -/

namespace Reader

/-- The same is taken from the tokens and the same is left of them, or the problem is the same. -/
abbrev Agree (r r' : Except (Fault α) (A × List (Placed α))) : Prop :=
  Outcome.Agree (fun x x' => x.1 = x'.1 ∧ Placed.Alike x.2 x'.2)
    (fun f f' => f.problem = f'.problem) r r'

/-- The reader makes the same of the same tokens at other columns. -/
def Columnless (x : Reader α A) : Prop :=
  ∀ ⦃ts ts' : List (Placed α)⦄, Placed.Alike ts ts' → Agree (x ts) (x ts')

namespace Columnless

variable {x y : Reader α A} {f : A → Reader α B}

theorem pure (a : A) : Columnless (Pure.pure a : Reader α A) := fun _ _ h => .ok ⟨rfl, h⟩

theorem bind (hx : Columnless x) (hf : ∀ a, Columnless (f a)) : Columnless (x >>= f) := by
  intro ts ts' h
  refine Outcome.Agree.bind (hx h) ?_
  rintro ⟨a, r⟩ ⟨_, r'⟩ ⟨rfl, hr⟩
  exact hf a hr

theorem map {f : A → B} (hx : Columnless x) : Columnless (f <$> x) := fun _ _ h =>
  (hx h).map fun _ _ hr => ⟨congrArg f hr.1, hr.2⟩

theorem ite {p : Prop} [Decidable p] (hx : Columnless x) (hy : Columnless y) :
    Columnless (if p then x else y) := by
  split
  · exact hx
  · exact hy

theorem peek {p : List (Placed α) → Bool} (hp : ∀ ts ts', Placed.Alike ts ts' → p ts = p ts')
    (hx : Columnless x) (hy : Columnless y) :
    Columnless (do if p (← get) then x else y) := by
  intro ts ts' h
  show Agree ((if p ts then x else y) ts) ((if p ts' then x else y) ts')
  rw [hp ts ts' h]
  exact ite hx hy h

theorem fail (what : Expected) : Columnless (fail what : Reader α A) := by
  intro ts ts' h
  cases h with
  | nil => exact .error rfl
  | cons ht h => exact .error (congrArg (fun t => Problem.expected what (some t)) ht)

theorem take (what : Expected) (pick : Token α → Option A) : Columnless (take what pick) := by
  intro ts ts' h
  cases h with
  | nil => exact fail what .nil
  | cons ht h =>
    unfold Reader.take
    dsimp only
    rw [ht]
    split
    · exact .ok ⟨rfl, h⟩
    · exact fail what (.cons ht h)

theorem accept (p : Token α → Bool) : Columnless (accept p) := by
  intro ts ts' h
  cases h with
  | nil => exact .ok ⟨rfl, .nil⟩
  | cons ht h =>
    unfold Reader.accept
    dsimp only
    rw [ht]
    split
    · exact .ok ⟨rfl, h⟩
    · exact .ok ⟨rfl, .cons ht h⟩

theorem done : Columnless (done : Reader α Unit) := by
  intro ts ts' h
  cases h with
  | nil => exact .ok ⟨rfl, .nil⟩
  | cons ht h => exact .error (congrArg Problem.trailing ht)

theorem number : Columnless (number : Reader α α) := take _ _

variable [Scalar α]

theorem count : Columnless (count : Reader α Nat) := by
  intro ts ts' h
  refine Outcome.Agree.bind (number h) ?_
  rintro ⟨v, r⟩ ⟨_, r'⟩ ⟨rfl, hr⟩
  dsimp only
  split
  · exact .ok ⟨rfl, hr⟩
  · exact .error rfl

theorem quantity : Columnless (quantity : Reader α (Quantity α)) := by
  intro ts ts' h
  refine Outcome.Agree.bind (number h) ?_
  rintro ⟨a, r⟩ ⟨_, r'⟩ ⟨rfl, hr⟩
  refine Outcome.Agree.bind (accept isDots hr) ?_
  rintro ⟨isRange, s⟩ ⟨_, s'⟩ ⟨rfl, hs⟩
  dsimp only
  split
  · refine Outcome.Agree.bind (number hs) ?_
    rintro ⟨b, q⟩ ⟨_, q'⟩ ⟨rfl, hq⟩
    dsimp only
    split
    · exact .ok ⟨rfl, hq⟩
    · exact .error rfl
  · exact .ok ⟨rfl, hs⟩

omit [Scalar α] in
theorem numberNext_congr {ts ts' : List (Placed α)} (h : Placed.Alike ts ts') :
    numberNext ts = numberNext ts' := by
  cases h with
  | nil => rfl
  | cons ht h => exact congrArg (fun t => (number? t).isSome) ht

theorem statementHeader : Columnless (statementHeader (α := α)) := by
  have hend (h : StatementHeader α) : Columnless (α := α) (do
      Reader.take .colon colon?
      Reader.done
      Pure.pure h) :=
    .bind (take _ _) fun _ => .bind done fun _ => .pure _
  unfold Reader.statementHeader
  refine .peek (fun _ _ h => numberNext_congr h)
    (.bind count fun _ => .bind (take _ _) fun _ => ?_) ?_
  all_goals
    refine .bind (.pure _) fun count => .bind (take _ _) fun kind => .bind (take _ _) fun clip => ?_
    exact .bind (accept _) fun _ =>
      .ite (.bind (.map quantity) fun _ => hend _) (.bind (.pure _) fun _ => hend _)

omit [Scalar α] in
theorem groupHeader : Columnless (groupHeader : Reader α String) :=
  .bind (take _ _) fun _ => .bind (take _ _) fun _ => .bind (take _ _) fun _ => .bind done fun _ =>
    .pure _

omit [Scalar α] in
theorem motion : Columnless (motion : Reader α Motion) := by
  intro ts ts' h
  cases h with
  | nil => exact .error rfl
  | @cons t t' r r' ht h =>
    obtain ⟨token, column⟩ := t
    obtain ⟨_, column'⟩ := t'
    obtain rfl : token = _ := ht
    cases token with
    | ident name =>
      unfold Reader.motion
      dsimp only
      split
      · exact .ok ⟨rfl, h⟩
      · exact .error rfl
    | _ => exact .error rfl

omit [Scalar α] in
theorem easeName (strict : Bool) : Columnless (easeName strict : Reader α String) := by
  intro ts ts' h
  refine Outcome.Agree.bind (take _ _ h) ?_
  rintro ⟨name, r⟩ ⟨_, r'⟩ ⟨rfl, hr⟩
  dsimp only
  split
  · exact .error rfl
  · exact .ok ⟨rfl, hr⟩

theorem repetition (spec : Interpolation α) : Columnless (repetition spec) := by
  unfold Reader.repetition
  refine .bind (accept _) fun _ => .ite (.pure _) ?_
  refine .bind (accept _) fun _ => .ite ?_ (.pure _)
  exact .bind (accept _) fun _ => .ite (.pure _) (.bind count fun _ => .pure _)

theorem call (strict : Bool) : Columnless (call strict (α := α)) := by
  unfold Reader.call
  refine .bind motion fun _ => .bind (take _ _) fun _ => ?_
  refine .bind quantity fun _ => .bind (take _ _) fun _ => ?_
  refine .bind quantity fun _ => .bind (take _ _) fun _ => ?_
  refine .bind (easeName strict) fun _ => .bind (take _ _) fun _ => ?_
  refine .bind quantity fun _ => .bind (repetition _) fun _ => ?_
  exact .bind (take _ _) fun _ => .bind done fun _ => .pure _

end Columnless

theorem visuals_agree {ts ts' : List (Placed α)} (h : Placed.Alike ts ts') :
    Outcome.Agree (· = ·) (fun f f' => f.problem = f'.problem) (visuals ts) (visuals ts') := by
  induction ts using visuals.induct generalizing ts' with
  | case1 name _ _ rest ih =>
    obtain ⟨_, _, rfl, h₁⟩ := h.of_cons
    obtain ⟨_, _, rfl, hrest⟩ := h₁.of_cons
    unfold visuals
    exact (ih hrest).bind fun vs vs' h => .ok (h ▸ rfl)
  | case2 name _ rest hand =>
    obtain ⟨_, r, rfl, hrest⟩ := h.of_cons
    rw [visuals.eq_2 _ _ _ hand, visuals.eq_2 _ _ _ (hrest.ne_cons hand)]
    exact (Columnless.done hrest).bind fun _ _ _ => .ok rfl
  | case3 _ path _ _ rest ih =>
    obtain ⟨_, _, rfl, h₁⟩ := h.of_cons
    obtain ⟨_, _, rfl, h₂⟩ := h₁.of_cons
    obtain ⟨_, _, rfl, hrest⟩ := h₂.of_cons
    unfold visuals
    exact (ih hrest).bind fun vs vs' h => .ok (h ▸ rfl)
  | case4 _ path _ rest hand =>
    obtain ⟨_, _, rfl, h₁⟩ := h.of_cons
    obtain ⟨_, r, rfl, hrest⟩ := h₁.of_cons
    rw [visuals.eq_4 _ _ _ _ hand, visuals.eq_4 _ _ _ _ (hrest.ne_cons hand)]
    exact (Columnless.done hrest).bind fun _ _ _ => .ok rfl
  | case5 _ rest hand hpath =>
    obtain ⟨_, r, rfl, hrest⟩ := h.of_cons
    have hpath' (path : String) := hrest.ne_cons (hpath path)
    rw [visuals.eq_5 _ _ hand hpath, visuals.eq_5 _ _ (fun _ _ _ _ => hpath' _ _ _) hpath']
    exact (Columnless.fail _ hrest).map fun _ _ hr => hr.1
  | case6 rest h₁ h₂ h₃ h₄ h₅ =>
    have hident (name : String) := h.ne_cons (h₂ name)
    have hobject := h.ne_cons h₅
    rw [visuals.eq_6 _ h₁ h₂ h₃ h₄ h₅, visuals.eq_6 _ (fun _ _ _ _ => hident _ _ _) hident
      (fun _ _ _ _ _ => hobject _ _) (fun _ _ _ _ => hobject _ _) hobject]
    exact (Columnless.fail _ h).map fun _ _ hr => hr.1

end Reader

/-! ## Headers and property lines -/

variable [Scalar α]

namespace Setting

/-- Two outcomes that are the same, the column of a problem apart. -/
abbrev Agree (x x' : Outcome α A) : Prop := Outcome.Agree (· = ·) (fun e e' => e.1 = e'.1) x x'

omit [Scalar α] in
theorem Agree.map {x x' : Outcome α A} (h : Agree x x') (f : A → B) : Agree (f <$> x) (f <$> x') :=
  Outcome.Agree.map h fun _ _ => congrArg f

theorem readTokens_agree {reader : List (Placed α) → Except (Fault α) A} (column column' : Nat)
    (text : List Char)
    (h : ∀ {ts ts'}, Placed.Alike ts ts' →
      Outcome.Agree (· = ·) (fun f f' => f.problem = f'.problem) (reader ts) (reader ts')) :
    Agree (readTokens column text reader) (readTokens column' text reader) := by
  have htokens := Token.tokenize_agree (α := α) column column' text
  unfold readTokens
  generalize (Token.tokenize column text : Except _ (List (Placed α))) = x at htokens ⊢
  generalize (Token.tokenize column' text : Except _ (List (Placed α))) = x' at htokens ⊢
  cases htokens with
  | error he => exact .error (congrArg Problem.lexical he)
  | @ok ts ts' hts =>
    have hread := h hts
    dsimp only
    generalize reader ts = r at hread ⊢
    generalize reader ts' = r' at hread ⊢
    cases hread with
    | error hf => exact .error hf
    | ok ha => exact .ok ha

theorem readQuantity_agree (column column' : Nat) (text : List Char) :
    Agree (readQuantity column text : Outcome α _) (readQuantity column' text) := by
  unfold readQuantity
  split
  · exact .ok rfl
  · exact .error rfl

theorem readAxis_agree (strict : Bool) (column column' : Nat) (text : List Char) :
    Agree (readAxis strict column text : Outcome α _) (readAxis strict column' text) := by
  unfold readAxis
  split
  · refine Agree.map (readTokens_agree column column' text fun h => ?_) _
    exact (Reader.Columnless.call strict h).map fun _ _ hr => hr.1
  · exact (readQuantity_agree column column' text).map _

omit [Scalar α] in
theorem readBoolean_agree (column column' : Nat) (text : List Char) :
    Agree (readBoolean column text : Outcome α _) (readBoolean column' text) := by
  unfold readBoolean
  split
  · exact .ok rfl
  · exact .ok rfl
  · exact .error rfl

theorem readCoordinate_agree (column column' : Nat) (mode : String) (text : List Char) :
    Agree (readCoordinate column mode text : Outcome α _) (readCoordinate column' mode text) := by
  have hq := readQuantity_agree (α := α) column column' text
  unfold readCoordinate
  generalize (readQuantity column text : Outcome α _) = x at hq ⊢
  generalize (readQuantity column' text : Outcome α _) = x' at hq ⊢
  cases hq with
  | error he => exact .error he
  | ok h =>
    dsimp only
    rw [h]
    split
    · exact .ok rfl
    · exact .error rfl

omit [Scalar α] in
theorem mapM_agree {f f' : List Char → Outcome α A} (hf : ∀ text, Agree (f text) (f' text))
    (texts : List (List Char)) : Agree (texts.mapM f) (texts.mapM f') := by
  induction texts with
  | nil => exact .ok rfl
  | cons text texts ih =>
    rw [List.mapM_cons, List.mapM_cons]
    refine Outcome.Agree.bind (hf text) ?_
    rintro a _ rfl
    refine Outcome.Agree.bind ih ?_
    rintro as _ rfl
    exact .ok rfl

theorem readMovement_agree (column column' : Nat) (text : List Char) :
    Agree (readMovement column text : Outcome α _) (readMovement column' text) := by
  unfold readMovement
  split
  · exact .ok rfl
  · dsimp only
    split
    · exact .error rfl
    · split
      · exact (mapM_agree (fun _ => readCoordinate_agree column column' _ _) _).map _
      · exact .error rfl

/-- A property line says the same, or has the same problem, in whatever column it starts. -/
theorem read_agree (strict : Bool) (owner : Owner) {l l' : Line} (h : l.text = l'.text) :
    Agree (read strict owner l : Outcome α _) (read strict owner l') := by
  have hkey : key l = key l' := by
    unfold key
    rw [h]
  have hvalue : value l = value l' := by
    unfold value
    rw [h]
  unfold read
  dsimp only
  rw [hkey, hvalue]
  split
  · exact .error rfl
  · split
    iterate 2 exact (readAxis_agree strict _ _ _).map _
    iterate 5 exact (readQuantity_agree _ _ _).map _
    · exact (readBoolean_agree _ _ _).map _
    · split
      · exact .error rfl
      · exact (readMovement_agree _ _ _).map _
    · split
      · exact .error rfl
      · exact Agree.map (readTokens_agree _ _ _ Reader.visuals_agree) _
    · exact .error rfl

end Setting

namespace Line

variable {l l' : Line}

/-- A header says the same, or has the same problem, in whatever column it starts. -/
theorem readHeader_agree {x : Reader α A} (hx : x.Columnless) (h : l.text = l'.text) :
    Outcome.Agree (· = ·) (fun d d' => d.problem = d'.problem) (l.readHeader x)
      (l'.readHeader x) := by
  have hvalue {ts ts' : List (Placed α)} (hts : Placed.Alike ts ts') :
      Outcome.Agree (· = ·) (fun f f' => f.problem = f'.problem) (Prod.fst <$> x ts)
        (Prod.fst <$> x ts') :=
    (hx hts).map fun _ _ hr => hr.1
  have hread := Setting.readTokens_agree l.column l'.column l.text hvalue
  unfold readHeader
  rw [← h]
  generalize Setting.readTokens l.column l.text (fun ts => Prod.fst <$> x ts) = r at hread ⊢
  generalize Setting.readTokens l'.column l.text (fun ts => Prod.fst <$> x ts) = r' at hread ⊢
  cases hread with
  | ok ha => exact .ok ha
  | error he => exact .error he

theorem setting_agree (strict : Bool) (owner : Owner) (h : l.text = l'.text) (p : Properties α) :
    (l.setting strict owner p).1 = (l'.setting strict owner p).1 ∧
      (l.setting strict owner p).2.map Diagnostic.problem =
        (l'.setting strict owner p).2.map Diagnostic.problem := by
  have hread := Setting.read_agree (α := α) strict owner h
  unfold setting
  generalize (Setting.read strict owner l : Setting.Outcome α _) = x at hread ⊢
  generalize (Setting.read strict owner l' : Setting.Outcome α _) = x' at hread ⊢
  cases hread with
  | ok hs => exact ⟨congrArg p.apply hs, rfl⟩
  | error he => exact ⟨rfl, congrArg (fun q => [q]) he⟩

end Line

end Soundscape
