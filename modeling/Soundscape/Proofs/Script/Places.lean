import Soundscape.Proofs.Script.Blanked
import Soundscape.Proofs.Script.Spans

/-!
# Where diagnostics point

A diagnostic is about a content line, and its column lies between the first character of the
content and the end of it.  That goes for a reader, which reports no other columns than those of
its tokens (`Reader.Points`), so for a text (`Setting.readTokens_reports`), a header and a property
line, for one content line (`Context.step_placed`) and for a script (`readScript_placed`).

One column is not that of a character.  The column of a value is moved on by the bytes in front of
it, so it is too great by as many as these are more than the characters (`Setting.surplus`).
-/

namespace Soundscape

variable {α A B : Type}

/-- If the outcome is an error, then the error satisfies a predicate. -/
def Outcome.Fails {E : Type} (Q : E → Prop) (x : Except E A) : Prop := ∀ e, x = .error e → Q e

namespace Outcome.Fails

variable {E : Type} {Q Q' : E → Prop} {x : Except E A}

theorem ok (a : A) : Fails Q (.ok a : Except E A) := nofun

theorem error {e : E} (h : Q e) : Fails Q (.error e : Except E A) := by
  rintro _ ⟨⟩
  exact h

theorem imp (hx : Fails Q x) (h : ∀ e, Q e → Q' e) : Fails Q' x := fun e he => h e (hx e he)

theorem bind {f : A → Except E B} (hx : Fails Q x) (hf : ∀ a, Fails Q (f a)) :
    Fails Q (x >>= f) := by
  cases x with
  | ok a => exact hf a
  | error e => exact error (hx e rfl)

theorem map (hx : Fails Q x) (f : A → B) : Fails Q (f <$> x) := by
  cases x with
  | ok a => exact ok (f a)
  | error e => exact error (hx e rfl)

theorem mapM {T : Type} {f : T → Except E A} (hf : ∀ t, Fails Q (f t)) (ts : List T) :
    Fails Q (ts.mapM f) := by
  induction ts with
  | nil => exact ok []
  | cons t ts ih =>
    rw [List.mapM_cons]
    exact (hf t).bind fun a => ih.bind fun as => ok (a :: as)

end Outcome.Fails

/-! ## Readers -/

namespace Reader

/-- On tokens at columns that satisfy a predicate, an outcome of a reader reports such a column, or
leaves tokens at such columns. -/
def PointsTo (P : Nat → Prop) : Except (Fault α) (A × List (Placed α)) → Prop
  | .ok (_, rest) => ∀ t ∈ rest, P t.column
  | .error f => ∀ column ∈ f.column, P column

/-- The reader reports no columns but those of its tokens. -/
def Points (x : Reader α A) : Prop :=
  ∀ ⦃P : Nat → Prop⦄ ⦃ts : List (Placed α)⦄, (∀ t ∈ ts, P t.column) → PointsTo P (x ts)

theorem here_of_tokens {P : Nat → Prop} {ts : List (Placed α)} (h : ∀ t ∈ ts, P t.column) :
    ∀ column ∈ here ts, P column := by
  intro column hc
  obtain ⟨t, ht, rfl⟩ := Option.map_eq_some_iff.mp hc
  exact h t (List.mem_of_mem_head? ht)

namespace PointsTo

variable {P : Nat → Prop} {x : Except (Fault α) (A × List (Placed α))}

theorem bind {f : A × List (Placed α) → Except (Fault α) (B × List (Placed α))}
    (hx : PointsTo P x) (hf : ∀ a rest, (∀ t ∈ rest, P t.column) → PointsTo P (f (a, rest))) :
    PointsTo P (x >>= f) := by
  cases x with
  | error e => exact hx
  | ok a => exact hf a.1 a.2 hx

end PointsTo

namespace Points

variable {x y : Reader α A} {f : A → Reader α B}

theorem pure (a : A) : Points (Pure.pure a : Reader α A) := fun _ _ h => h

theorem bind (hx : Points x) (hf : ∀ a, Points (f a)) : Points (x >>= f) :=
  fun _ _ h => (hx h).bind fun a _ hr => hf a hr

theorem map {f : A → B} (hx : Points x) : Points (f <$> x) := by
  intro P ts h
  have hp := hx h
  show PointsTo P (do let (a, rest) ← x ts; Pure.pure (f a, rest))
  exact hp.bind fun _ _ hr => hr

theorem ite {p : Prop} [Decidable p] (hx : Points x) (hy : Points y) :
    Points (if p then x else y) := by
  split
  · exact hx
  · exact hy

theorem get : Points (MonadState.get : Reader α (List (Placed α))) := fun _ _ h => h

theorem fail (what : Expected) : Points (fail what : Reader α A) := fun _ _ h => here_of_tokens h

theorem take (what : Expected) (pick : Token α → Option A) : Points (take what pick) := by
  intro P ts h
  unfold Reader.take
  split
  · split
    · exact (List.forall_mem_cons.mp h).2
    · exact fail what h
  · exact fail what h

theorem accept (p : Token α → Bool) : Points (accept p) := by
  intro P ts h
  unfold Reader.accept
  split
  · split
    · exact (List.forall_mem_cons.mp h).2
    · exact h
  · exact h

theorem done : Points (done : Reader α Unit) := by
  intro P ts h
  unfold Reader.done
  split
  · exact h
  · rintro _ ⟨⟩
    exact h _ List.mem_cons_self

theorem number : Points (number : Reader α α) := take _ _

theorem motion : Points (motion : Reader α Motion) := by
  intro P ts h
  unfold Reader.motion
  split
  · split
    · exact (List.forall_mem_cons.mp h).2
    · nofun
  · nofun

theorem easeName (strict : Bool) : Points (easeName strict : Reader α String) := by
  intro P ts h
  refine (take .easeName ident? h).bind fun name rest hr => ?_
  dsimp only
  split
  · exact here_of_tokens h
  · exact hr

theorem groupHeader : Points (groupHeader : Reader α String) :=
  .bind (take _ _) fun _ => .bind (take _ _) fun _ => .bind (take _ _) fun _ => .bind done fun _ =>
    .pure _

variable [Scalar α]

theorem count : Points (count : Reader α Nat) := by
  intro P ts h
  refine (number h).bind fun v rest hr => ?_
  dsimp only
  split
  · exact hr
  · exact here_of_tokens h

theorem quantity : Points (quantity : Reader α (Quantity α)) := by
  intro P ts h
  refine (number h).bind fun a rest hr => (accept isDots hr).bind fun isRange rest hr => ?_
  dsimp only
  split
  · refine (number hr).bind fun b rest hr => ?_
    dsimp only
    split
    · exact hr
    · exact here_of_tokens h
  · exact hr

theorem statementHeader : Points (statementHeader (α := α)) := by
  have hend (h : StatementHeader α) : Points (α := α) (do
      Reader.take .colon colon?
      Reader.done
      Pure.pure h) :=
    .bind (take _ _) fun _ => .bind done fun _ => .pure _
  unfold Reader.statementHeader
  refine .bind .get fun _ => ?_
  refine .ite (.bind count fun _ => .bind (take _ _) fun _ => ?_) ?_
  all_goals
    refine .bind (.pure _) fun count => .bind (take _ _) fun kind => .bind (take _ _) fun clip => ?_
    exact .bind (accept _) fun _ =>
      .ite (.bind (.map quantity) fun _ => hend _) (.bind (.pure _) fun _ => hend _)

theorem repetition (spec : Interpolation α) : Points (repetition spec) := by
  unfold Reader.repetition
  refine .bind (accept _) fun _ => .ite (.pure _) ?_
  refine .bind (accept _) fun _ => .ite ?_ (.pure _)
  exact .bind (accept _) fun _ => .ite (.pure _) (.bind count fun _ => .pure _)

theorem call (strict : Bool) : Points (call strict (α := α)) := by
  unfold Reader.call
  refine .bind motion fun _ => .bind (take _ _) fun _ => ?_
  refine .bind quantity fun _ => .bind (take _ _) fun _ => ?_
  refine .bind quantity fun _ => .bind (take _ _) fun _ => ?_
  refine .bind (easeName strict) fun _ => .bind (take _ _) fun _ => ?_
  refine .bind quantity fun _ => .bind (repetition _) fun _ => ?_
  exact .bind (take _ _) fun _ => .bind done fun _ => .pure _

end Points

/-- An error of a reader is at a column that satisfies a predicate, or at none. -/
abbrev Reports (P : Nat → Prop) (x : Except (Fault α) A) : Prop :=
  Outcome.Fails (fun f => ∀ column ∈ f.column, P column) x

theorem Points.reports {x : Reader α A} (hx : Points x) {P : Nat → Prop} {ts : List (Placed α)}
    (h : ∀ t ∈ ts, P t.column) : Reports P (x ts) := by
  intro f hf
  have hp := hx h
  rw [hf] at hp
  exact hp

theorem reports_visuals {P : Nat → Prop} {ts : List (Placed α)} (h : ∀ t ∈ ts, P t.column) :
    Reports P (visuals ts) := by
  induction ts using visuals.induct with
  | case1 name _ _ rest ih =>
    unfold visuals
    have hrest := (List.forall_mem_cons.mp (List.forall_mem_cons.mp h).2).2
    exact (ih hrest).map _
  | case2 name _ rest hand =>
    rw [visuals.eq_2 _ _ _ hand]
    exact (Points.done.reports (List.forall_mem_cons.mp h).2).bind fun _ => .ok _
  | case3 _ path _ _ rest ih =>
    unfold visuals
    have hrest := (List.forall_mem_cons.mp (List.forall_mem_cons.mp h).2).2
    exact (ih (List.forall_mem_cons.mp hrest).2).map _
  | case4 _ path _ rest hand =>
    rw [visuals.eq_4 _ _ _ _ hand]
    have hrest := (List.forall_mem_cons.mp (List.forall_mem_cons.mp h).2).2
    exact (Points.done.reports hrest).bind fun _ => .ok _
  | case5 _ rest hand hpath =>
    rw [visuals.eq_5 _ _ hand hpath]
    exact ((Points.fail _).reports (List.forall_mem_cons.mp h).2).map _
  | case6 rest h₁ h₂ h₃ h₄ h₅ =>
    rw [visuals.eq_6 _ h₁ h₂ h₃ h₄ h₅]
    exact ((Points.fail _).reports h).map _

end Reader

/-! ## Texts -/

theorem Token.Reading.column_mem [Scalar α] {column : Nat} {text : List Char}
    {ts : List (Placed α)} (h : Reading column text ts) :
    ∀ t ∈ ts, column ≤ t.column ∧ t.column ≤ column + text.length := by
  induction h with
  | nil => nofun
  | blank _ _ ih =>
    intro t ht
    have := ih t ht
    rw [List.length_cons]
    omega
  | token _ _ _ ih =>
    intro t ht
    rw [List.length_append, List.length_cons]
    obtain rfl | ht := List.mem_cons.mp ht
    · dsimp only
      omega
    · have := ih t ht
      omega

namespace Setting

/-- An error is at a column that satisfies a predicate. -/
abbrev Reports (P : Nat → Prop) (x : Outcome α A) : Prop := Outcome.Fails (fun e => P e.2) x

/-- A column from the first character of a text at some column to just behind its last one. -/
def Along (column : Nat) (text : List Char) (found : Nat) : Prop :=
  column ≤ found ∧ found ≤ column + text.length

variable [Scalar α] {column : Nat} {text : List Char}

omit [Scalar α] in
theorem along_start : Along column text column := ⟨Nat.le_refl _, Nat.le_add_right _ _⟩

theorem readTokens_reports {reader : List (Placed α) → Except (Fault α) A}
    (h : ∀ {ts : List (Placed α)}, (∀ t ∈ ts, Along column text t.column) →
      Reader.Reports (Along column text) (reader ts)) :
    Reports (Along column text) (readTokens column text reader) := by
  unfold readTokens
  split
  · next e found he =>
    obtain ⟨before, c, after, ts, rfl, rfl, -⟩ := Token.reading_before_error he
    refine .error ⟨Nat.le_add_right _ _, ?_⟩
    rw [List.length_append]
    omega
  · next ts hts =>
    have hreads := h (Token.tokenize_eq_ok_iff.mp hts).column_mem
    split
    · exact .ok _
    · next fault hfault =>
      refine .error ?_
      cases hc : fault.column with
      | none => exact ⟨Nat.le_add_right _ _, Nat.le_refl _⟩
      | some found => exact hreads fault hfault found hc

theorem readQuantity_reports (column : Nat) (text : List Char) :
    Reports (· = column) (readQuantity column text : Outcome α _) := by
  unfold readQuantity
  split
  · exact .ok _
  · exact .error rfl

theorem readAxis_reports (strict : Bool) (column : Nat) (text : List Char) :
    Reports (Along column text) (readAxis strict column text : Outcome α _) := by
  unfold readAxis
  split
  · exact (readTokens_reports fun h => ((Reader.Points.call strict).reports h).map _).map _
  · exact ((readQuantity_reports column text).imp fun _ h => h ▸ along_start).map _

omit [Scalar α] in
theorem readBoolean_reports (column : Nat) (text : List Char) :
    Reports (· = column) (readBoolean column text : Outcome α _) := by
  unfold readBoolean
  split
  · exact .ok _
  · exact .ok _
  · exact .error rfl

theorem readCoordinate_reports (column : Nat) (mode : String) (text : List Char) :
    Reports (· = column) (readCoordinate column mode text : Outcome α _) := by
  have hq := readQuantity_reports (α := α) column text
  unfold readCoordinate
  split
  · split
    · exact .ok _
    · exact .error rfl
  · next e he => exact .error (hq e he)

theorem readMovement_reports (column : Nat) (text : List Char) :
    Reports (· = column) (readMovement column text : Outcome α _) := by
  unfold readMovement
  split
  · exact .ok _
  · dsimp only
    split
    · exact .error rfl
    · split
      · exact (Outcome.Fails.mapM (fun _ => readCoordinate_reports column _ _) _).map _
      · exact .error rfl

/-- The part of a property line before its value. -/
def beforeValue (l : Line) : List Char :=
  l.text.take (l.text.length - (Text.trimStart (splitEquals l.text).2).length)

/-- The number by which the bytes before the value of a property line are more than its
characters. -/
def surplus (l : Line) : Nat := Text.bytes (beforeValue l) - (beforeValue l).length

/-- A property line is reported at its start, or at the column of its value or in the value. -/
theorem read_reports (strict : Bool) (owner : Owner) (l : Line) :
    Reports (fun column => column = l.column ∨ Along (valueColumn l) (value l) column)
      (read strict owner l : Outcome α _) := by
  unfold read
  dsimp only
  split
  · exact .error (.inl rfl)
  · split
    iterate 2 exact ((readAxis_reports strict _ _).imp fun _ => Or.inr).map _
    iterate 5 exact ((readQuantity_reports _ _).imp fun _ h => .inr (h ▸ along_start)).map _
    · exact ((readBoolean_reports _ _).imp fun _ h => .inr (h ▸ along_start)).map _
    · split
      · exact .error (.inl rfl)
      · exact ((readMovement_reports _ _).imp fun _ h => .inr (h ▸ along_start)).map _
    · split
      · exact .error (.inl rfl)
      · refine ((readTokens_reports ?_).imp fun _ => Or.inr).map _
        exact fun h => Reader.reports_visuals h
    · exact .error (.inl rfl)

end Setting

/-! ## Lines -/

namespace Text

theorem bytes_append (cs ds : List Char) : bytes (cs ++ ds) = bytes cs + bytes ds := by
  induction cs with
  | nil => exact (Nat.zero_add _).symm
  | cons c cs ih =>
    rw [List.cons_append, bytes, bytes, ih, Nat.add_assoc]

theorem length_le_bytes (cs : List Char) : cs.length ≤ bytes cs := by
  induction cs with
  | nil => exact Nat.le_refl 0
  | cons c cs ih =>
    have hc := c.utf8Size_pos
    rw [List.length_cons, bytes]
    omega

theorem length_trim_le (cs : List Char) : (trim cs).length ≤ (trimStart cs).length := by
  have h := congrArg List.length (dropEnding_append_ending isBlank (trimStart cs))
  rw [List.length_append] at h
  exact Nat.le.intro h

theorem trimEnd_append_right {before cs : List Char} (h : ¬ (trimEnd cs).isEmpty) :
    trimEnd (before ++ cs) = before ++ trimEnd cs := by
  have hne : ¬ (cs.reverse.dropWhile isBlank).isEmpty := by
    simpa [trimEnd, dropEnding] using h
  unfold trimEnd dropEnding
  rw [List.reverse_append, List.dropWhile_append, if_neg hne, List.reverse_append,
    List.reverse_reverse]

end Text

namespace Setting

theorem beforeValue_append (l : Line) :
    beforeValue l ++ Text.trimStart (splitEquals l.text).2 = l.text := by
  refine List.suffix_iff_eq_append.mp ?_
  have htrim : Text.trimStart (splitEquals l.text).2 <:+ (splitEquals l.text).2 :=
    List.dropWhile_suffix _
  have hdrop : (splitEquals l.text).2 <:+ l.text.dropWhile (· != '=') := List.drop_suffix 1 _
  exact htrim.trans (hdrop.trans (List.dropWhile_suffix _))

theorem valueColumn_eq (l : Line) :
    valueColumn l = l.column + (beforeValue l).length + surplus l := by
  have hbytes := congrArg Text.bytes (beforeValue_append l)
  have hlength := Text.length_le_bytes (beforeValue l)
  rw [Text.bytes_append] at hbytes
  unfold valueColumn surplus
  omega

theorem length_beforeValue_add_le (l : Line) :
    (beforeValue l).length + (value l).length ≤ l.text.length := by
  have hlength := congrArg List.length (beforeValue_append l)
  have hvalue : (value l).length ≤ _ := Text.length_trim_le (splitEquals l.text).2
  rw [List.length_append] at hlength
  omega

end Setting

/-- The diagnostic is about the line, and its column is that of a character of the content or just
behind it; but for a property line the column may be moved on by its surplus. -/
def Line.Holds (l : Line) (d : Diagnostic α) : Prop :=
  d.line = l.number ∧ ∃ column, Setting.Along l.column l.text column ∧
    (d.column = column ∨ l.kind = .property ∧ d.column = column + Setting.surplus l)

def Findings.PlacedIn (ls : List Line) (f : Findings α) : Prop :=
  ∀ d ∈ f.diagnostics, ∃ l ∈ ls, l.Holds d

/-- The group that is open, if one is, has its header among some lines. -/
def Context.OpenedIn (ls : List Line) : Context α → Prop
  | .inGroup g _ => ∃ l ∈ ls, g.group.line = l.number ∧ g.column = l.column
  | _ => True

variable {ls : List Line} {l : Line}

theorem Line.holds_whole (l : Line) (p : Problem α) : l.Holds (l.diagnostic p) :=
  ⟨rfl, l.column, Setting.along_start, .inl rfl⟩

namespace Findings.PlacedIn

theorem nothing (items : List (Item α)) : PlacedIn ls ⟨items, []⟩ := nofun

theorem append {f g : Findings α} (hf : f.PlacedIn ls) (hg : g.PlacedIn ls) :
    (f ++ g).PlacedIn ls := fun d hd => (List.mem_append.mp hd).elim (hf d) (hg d)

theorem only {ds : List (Diagnostic α)} (hl : l ∈ ls) (h : ∀ d ∈ ds, l.Holds d) :
    (Findings.only ds).PlacedIn ls := fun d hd => ⟨l, hl, h d hd⟩

theorem whole (hl : l ∈ ls) (p : Problem α) : (Findings.only [l.diagnostic p]).PlacedIn ls := by
  refine .only hl fun d hd => ?_
  obtain rfl := List.mem_singleton.mp hd
  exact l.holds_whole p

theorem close {g : OpenGroup α} (hg : ∃ l ∈ ls, g.group.line = l.number ∧ g.column = l.column) :
    g.close.PlacedIn ls := by
  obtain ⟨l, hl, hline, hcolumn⟩ := hg
  intro d hd
  unfold OpenGroup.close at hd
  dsimp only at hd
  split at hd
  · obtain rfl := List.mem_singleton.mp hd
    refine ⟨l, hl, hline, l.column, Setting.along_start, .inl hcolumn⟩
  · cases hd

end Findings.PlacedIn

variable [Scalar α]

theorem Line.holds_of_readHeader {x : Reader α A} (hx : Reader.Points x) {d : Diagnostic α}
    (h : l.readHeader x = .error d) : l.Holds d := by
  have hreads : Setting.Reports (Setting.Along l.column l.text)
      (Setting.readTokens l.column l.text fun ts => Prod.fst <$> x ts) :=
    Setting.readTokens_reports fun h => (hx.reports h).map _
  unfold readHeader at h
  split at h
  · cases h
  · next p column he =>
    cases h
    exact ⟨rfl, column, hreads _ he, .inl rfl⟩

theorem Line.holds_of_setting {strict : Bool} {owner : Owner} {props : Properties α}
    (hk : l.kind = .property) : ∀ d ∈ (l.setting strict owner props).2, l.Holds d := by
  unfold setting
  split
  · nofun
  · next p column he =>
    intro d hd
    obtain rfl := List.mem_singleton.mp hd
    refine ⟨rfl, ?_⟩
    obtain rfl | ⟨hfirst, hlast⟩ := Setting.read_reports strict owner l _ he
    · exact ⟨_, Setting.along_start, .inl rfl⟩
    · have hcolumn := Setting.valueColumn_eq l
      have hlength := Setting.length_beforeValue_add_le l
      dsimp only at hfirst hlast
      refine ⟨column - Setting.surplus l, ⟨?_, ?_⟩, .inr ⟨hk, ?_⟩⟩
      · omega
      · omega
      · show column = _
        omega

theorem Body.placed_ofHeader (l : Line) : ∀ d ∈ (Body.ofHeader (α := α) l).2, l.Holds d := by
  unfold ofHeader
  split
  · nofun
  · next d' he =>
    intro d hd
    obtain rfl := List.mem_singleton.mp hd
    exact Line.holds_of_readHeader Reader.Points.statementHeader he

theorem Body.placed_absorb {strict : Bool} {b b' : Body α} {ds : List (Diagnostic α)}
    (h : b.absorb strict l = some (b', ds)) : ∀ d ∈ ds, l.Holds d := by
  unfold absorb at h
  split at h
  · cases h
  · split at h
    · split at h <;> cases h
      · next hk => exact Line.holds_of_setting hk
      · intro d hd
        obtain rfl := List.mem_singleton.mp hd
        exact l.holds_whole _
    · cases h
  · split at h <;> cases h
    nofun
  · split at h <;> cases h
    nofun

namespace Context

/-! ## Scripts -/

/-- What the step leaves open was opened by one of the lines, and what it finds is about them. -/
def Placed (ls : List Line) (x : Context α × Findings α) : Prop :=
  x.1.OpenedIn ls ∧ x.2.PlacedIn ls

theorem placed_outside (hl : l ∈ ls) : Placed ls (outside (α := α) l) := by
  unfold outside
  split
  · split
    · exact ⟨⟨l, hl, rfl, rfl⟩, .nothing _⟩
    · next d he =>
      refine ⟨trivial, .only hl fun d' hd => ?_⟩
      obtain rfl := List.mem_singleton.mp hd
      exact Line.holds_of_readHeader Reader.Points.groupHeader he
  · exact ⟨trivial, .only hl (Body.placed_ofHeader l)⟩
  all_goals exact ⟨trivial, .whole hl _⟩

theorem placed_inside (strict : Bool) {g : OpenGroup α} {b : Body α}
    (hg : (Context.inGroup g b).OpenedIn ls) (hl : l ∈ ls) : Placed ls (inside strict g l) := by
  unfold inside
  split
  · exact ⟨trivial, .close hg⟩
  · split
    · obtain ⟨ho, hf⟩ := placed_outside (α := α) hl
      exact ⟨ho, .append (.close hg) hf⟩
    · split
      · exact ⟨hg, .only hl (Body.placed_ofHeader l)⟩
      · next hk => exact ⟨hg, .only hl (Line.holds_of_setting hk)⟩
      · exact ⟨hg, .whole hl _⟩
      · exact ⟨hg, .whole hl _⟩

theorem step_placed (strict : Bool) {c : Context α} (hc : c.OpenedIn ls) (hl : l ∈ ls) :
    Placed ls (step strict c l) := by
  cases c with
  | top b =>
    unfold step
    dsimp only
    split
    · next h => exact ⟨trivial, .only hl (Body.placed_absorb h)⟩
    · obtain ⟨ho, hf⟩ := placed_outside (α := α) hl
      exact ⟨ho, .append (.nothing _) hf⟩
  | inGroup g b =>
    unfold step
    dsimp only
    split
    · next h => exact ⟨hc, .only hl (Body.placed_absorb h)⟩
    · exact placed_inside strict (g := g.adopt b.finished) (b := b) hc hl
  | refusedGroup indent =>
    unfold step
    dsimp only
    split
    · exact ⟨hc, .nothing _⟩
    · split
      · exact ⟨trivial, .nothing _⟩
      · exact placed_outside hl

theorem run_placed (strict : Bool) {c : Context α} (hc : c.OpenedIn ls) {ms : List Line}
    (hms : ∀ m ∈ ms, m ∈ ls) : Placed ls (run strict c ms) := by
  induction ms generalizing c with
  | nil => exact ⟨hc, .nothing _⟩
  | cons m ms ih =>
    obtain ⟨hm, hms⟩ := List.forall_mem_cons.mp hms
    obtain ⟨ho, hf⟩ := step_placed strict hc hm
    obtain ⟨hr, hg⟩ := ih ho hms
    exact ⟨hr, hf.append hg⟩

omit [Scalar α] in
theorem placed_close {c : Context α} (hc : c.OpenedIn ls) : c.close.PlacedIn ls := by
  cases c with
  | top b => exact .nothing _
  | inGroup g b => exact .close (g := g.adopt b.finished) hc
  | refusedGroup indent => exact .nothing _

end Context

theorem placed_readScript (strict : Bool) (source : String) :
    (readScript strict source : Findings α).PlacedIn (Line.ofSource source.toList) := by
  have htop : (Context.top .none : Context α).OpenedIn (Line.ofSource source.toList) := trivial
  have hrun := Context.run_placed strict htop fun _ h => h
  obtain ⟨ho, hf⟩ := hrun
  exact hf.append (Context.placed_close ho)

/-! ### The content of a line -/

namespace Line

theorem mem_ofRaws {number : Nat} {raws : List (List Char)} (h : l ∈ ofRaws number raws) :
    ∃ i raw, raws[i]? = some raw ∧ ofRaw? (number + i) raw = some l := by
  induction raws generalizing number with
  | nil => cases h
  | cons raw rest ih =>
    obtain h | h := List.mem_append.mp h
    · exact ⟨0, raw, rfl, Option.mem_toList.mp h⟩
    · obtain ⟨i, raw', hraw, hl⟩ := ih h
      exact ⟨i + 1, raw', hraw, by rwa [Nat.add_assoc, Nat.add_comm 1] at hl⟩

theorem column_add_length {number : Nat} {raw : List Char} (h : ofRaw? number raw = some l) :
    1 ≤ l.column ∧
      l.column + l.text.length = (Text.trimEnd (beforeComment false raw)).length + 1 := by
  unfold ofRaw? at h
  dsimp only at h
  split at h
  · cases h
  · next htext =>
    cases h
    have hcontent : (beforeComment false raw).takeWhile isBlank ++
        Text.trimStart (beforeComment false raw) = beforeComment false raw :=
      List.takeWhile_append_dropWhile
    have htrim : Text.trimEnd (beforeComment false raw) =
        (beforeComment false raw).takeWhile isBlank ++ Text.trim (beforeComment false raw) := by
      rw [← hcontent, Text.trimEnd_append_right htext, hcontent]
      rfl
    rw [htrim, List.length_append]
    exact ⟨Nat.le_add_left 1 _, Nat.add_right_comm _ _ _⟩

end Line

/-- Every diagnostic has the number of a content line, and its column is that of a character of this
line without its comment, or just behind the last one that is not blank; but in a property line the
column may be moved on by as many as the bytes before the value are more than the characters. -/
theorem readScript_placed (strict : Bool) (source : String) :
    ∀ d ∈ (readScript strict source : Findings α).diagnostics, ∃ i raw l,
      d.line = i + 1 ∧ (Text.pieces (· == '\n') source.toList)[i]? = some raw ∧
      Line.ofRaw? (i + 1) raw = some l ∧
      ∃ column, 1 ≤ column ∧
        column ≤ (Text.trimEnd (Line.beforeComment false raw)).length + 1 ∧
        (d.column = column ∨ l.kind = .property ∧ d.column = column + Setting.surplus l) := by
  intro d hd
  obtain ⟨l, hl, hline, column, ⟨hfirst, hlast⟩, hcolumn⟩ := placed_readScript strict source d hd
  obtain ⟨i, raw, hraw, hof⟩ := Line.mem_ofRaws hl
  obtain ⟨hone, hend⟩ := Line.column_add_length hof
  rw [Nat.add_comm] at hof
  refine ⟨i, raw, l, hline.trans (Line.number_of_ofRaw? hof), hraw, hof, column, ?_, ?_, hcolumn⟩
  · omega
  · omega

/-- A line with a blank of three bytes before its value. -/
theorem readScript_placed_wideBlank :
    let source := "loop \"a\":\n volume =\u3000x\n"
    let d : Diagnostic Float := ⟨.quantity (.number "x"), 2, 13⟩
    d ∈ (readScript false source : Findings Float).diagnostics ∧
      ∃ i raw l, d.line = i + 1 ∧ (Text.pieces (· == '\n') source.toList)[i]? = some raw ∧
        Line.ofRaw? (i + 1) raw = some l ∧
        ∃ column, 1 ≤ column ∧
          column ≤ (Text.trimEnd (Line.beforeComment false raw)).length + 1 ∧
          (d.column = column ∨ l.kind = .property ∧ d.column = column + Setting.surplus l) := by
  intro source d
  have hd : d ∈ (readScript false source : Findings Float).diagnostics := by decide +kernel
  exact ⟨hd, readScript_placed false source d hd⟩

/-- A blank of three bytes before a value moves the column of the value behind the line. -/
theorem readScript_misplaced :
    let source := "loop \"a\":\n volume =\u3000x\n"
    let raw := " volume =\u3000x".toList
    (Text.pieces (· == '\n') source.toList)[1]? = some raw ∧
      ∃ d ∈ (readScript false source : Findings Float).diagnostics,
        d.line = 2 ∧ ¬ d.column ≤ (Line.beforeComment false raw).length + 1 := by
  decide +kernel

end Soundscape
