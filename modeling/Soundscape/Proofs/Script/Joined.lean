import Soundscape.Proofs.Script.Dropped
import Soundscape.Proofs.Script.Flattening
import Soundscape.Proofs.Text.Parts

/-!
# Two scripts, one after the other

The lines of a script that is put after another one only stand further down
(`Line.ofSource_append`).  Reading keeps the number of a line and does nothing else with it
(`Context.step_down`), and a line without indentation that does not end a group closes all that is
open (`Context.step_unindented`).  So two scripts give together what each of them gives alone, and
are flattened one after the other (`readScript_joined`).
-/

namespace Soundscape

/-! ## Lines further down -/

def Line.down (n : Nat) (l : Line) : Line := { l with number := l.number + n }

section Down

variable {α : Type}

def Diagnostic.down (n : Nat) (d : Diagnostic α) : Diagnostic α := { d with line := d.line + n }

def StatementDef.down (n : Nat) (s : StatementDef α) : StatementDef α :=
  { s with line := s.line + n }

def GroupDef.down (n : Nat) (g : GroupDef α) : GroupDef α :=
  { g with line := g.line + n, children := g.children.map (StatementDef.down n) }

def Item.down (n : Nat) : Item α → Item α
  | .statement s => .statement (s.down n)
  | .group g => .group (g.down n)

def Findings.down (n : Nat) (f : Findings α) : Findings α :=
  ⟨f.items.map (Item.down n), f.diagnostics.map (Diagnostic.down n)⟩

def Statement.down (n : Nat) (s : Statement α) : Statement α := { s with line := s.line + n }

def Body.down (n : Nat) : Body α → Body α
  | .none => .none
  | .statement indent s => .statement indent (s.down n)
  | .refused indent => .refused indent
  | .nested indent => .nested indent

def OpenGroup.down (n : Nat) (g : OpenGroup α) : OpenGroup α := { g with group := g.group.down n }

def Context.down (n : Nat) : Context α → Context α
  | .top body => .top (body.down n)
  | .inGroup g body => .inGroup (g.down n) (body.down n)
  | .refusedGroup indent => .refusedGroup indent

end Down

namespace Line

variable (n : Nat)

@[simp] theorem down_indent (l : Line) : (l.down n).indent = l.indent := rfl

@[simp] theorem down_kind (l : Line) : (l.down n).kind = l.kind := rfl

@[simp] theorem down_text (l : Line) : (l.down n).text = l.text := rfl

theorem ofRaw?_add (k : Nat) (raw : List Char) :
    ofRaw? (k + n) raw = (ofRaw? k raw).map (down n) := by
  unfold ofRaw?
  dsimp only
  split <;> rfl

theorem ofRaws_add (k : Nat) (raws : List (List Char)) :
    ofRaws (k + n) raws = (ofRaws k raws).map (down n) := by
  induction raws generalizing k with
  | nil => rfl
  | cons raw rest ih =>
    rw [ofRaws, ofRaws, List.map_append, ofRaw?_add, Nat.add_right_comm, ih, Option.toList_map]

/-- The lines of a text that follows another one stand below it. -/
theorem ofSource_append (a b : List Char) :
    ofSource (a ++ '\n' :: b) = ofSource a ++ (ofSource b).map (down (a.count '\n' + 1)) := by
  unfold ofSource
  rw [Text.pieces_append (by rfl), ofRaws_append, Text.length_pieces, ofRaws_add]
  rfl

theorem kind_ne_groupEnd {l : Line} (h : String.ofList l.firstWord ≠ "endgroup") :
    l.kind ≠ .groupEnd := by
  unfold kind
  split
  · nofun
  · next he => exact absurd he h
  · nofun
  · nofun
  · split
    · nofun
    · split <;> nofun

end Line

/-! ## Reading further down -/

namespace Findings

variable {α : Type}

@[simp] theorem append_nil (f : Findings α) : f ++ ({} : Findings α) = f := by
  show Findings.mk _ _ = _
  simp

theorem items_down (n : Nat) (f : Findings α) : (f.down n).items = f.items.map (Item.down n) := rfl

theorem diagnostics_down (n : Nat) (f : Findings α) :
    (f.down n).diagnostics = f.diagnostics.map (Diagnostic.down n) := rfl

theorem down_append (n : Nat) (f g : Findings α) : (f ++ g).down n = f.down n ++ g.down n := by
  show Findings.mk _ _ = Findings.mk _ _
  simp [down]

end Findings

section Reading

variable {α : Type} (n : Nat)

theorem OpenGroup.adopt_down (g : OpenGroup α) (s : Option (StatementDef α)) :
    (g.adopt s).down n = (g.down n).adopt (s.map (StatementDef.down n)) := by
  unfold adopt down GroupDef.down
  simp [Option.toList_map]

theorem OpenGroup.close_down (g : OpenGroup α) : g.close.down n = (g.down n).close := by
  obtain ⟨indent, column, ⟨name, line, props, children⟩⟩ := g
  cases children <;> rfl

theorem Body.finished_down (b : Body α) :
    (b.down n).finished = b.finished.map (StatementDef.down n) := by
  cases b <;> rfl

theorem Context.close_down (c : Context α) : c.close.down n = (c.down n).close := by
  cases c with
  | top body => cases body <;> rfl
  | inGroup g body =>
    show (g.adopt body.finished).close.down n = _
    rw [OpenGroup.close_down, OpenGroup.adopt_down, ← Body.finished_down]
    rfl
  | refusedGroup indent => rfl

variable [Scalar α]

theorem Line.readHeader_down {A : Type} (reader : Reader α A) (l : Line) :
    (l.down n).readHeader reader = (l.readHeader reader).mapError (Diagnostic.down n) := by
  have hr : (Setting.readTokens (l.down n).column (l.down n).text
        fun ts => Prod.fst <$> reader ts) =
      Setting.readTokens l.column l.text fun ts => Prod.fst <$> reader ts := rfl
  unfold readHeader
  rw [hr]
  rcases Setting.readTokens l.column l.text fun ts => Prod.fst <$> reader ts with ⟨p, column⟩ | a
  · rfl
  · rfl

theorem Line.setting_down (strict : Bool) (owner : Owner) (l : Line) (props : Properties α) :
    (l.down n).setting strict owner props =
      ((l.setting strict owner props).1,
        (l.setting strict owner props).2.map (Diagnostic.down n)) := by
  have hr : (Setting.read strict owner (l.down n) : Setting.Outcome α _) =
      Setting.read strict owner l := rfl
  unfold setting
  rw [hr]
  rcases Setting.read strict owner l with ⟨p, column⟩ | s <;> rfl

theorem Body.ofHeader_down (l : Line) :
    (ofHeader (l.down n) : Body α × _) =
      ((ofHeader l).1.down n, (ofHeader l).2.map (Diagnostic.down n)) := by
  unfold ofHeader
  rw [Line.readHeader_down]
  cases l.readHeader (Reader.statementHeader (α := α)) <;> rfl

theorem Body.absorb_down (strict : Bool) (l : Line) (b : Body α) :
    (b.down n).absorb strict (l.down n) =
      (b.absorb strict l).map (Prod.map (Body.down n) (List.map (Diagnostic.down n))) := by
  cases b with
  | none => rfl
  | statement indent s =>
    have hs := l.setting_down n strict .statement s.props
    show (statement indent (s.down n)).absorb strict (l.down n) = _
    unfold absorb
    dsimp only
    rw [Line.down_indent, Line.down_kind]
    by_cases hi : indent < l.indent
    · rw [if_pos hi, if_pos hi]
      cases l.kind with
      | property =>
        dsimp only
        rw [show (s.down n).props = s.props from rfl, hs]
        rfl
      | _ => rfl
    · rw [if_neg hi, if_neg hi]
      rfl
  | refused indent =>
    show (if indent < l.indent ∧ l.kind = .property then _ else _) = Option.map _ (ite ..)
    split <;> rfl
  | nested indent =>
    show (if indent < l.indent then _ else _) = Option.map _ (ite ..)
    split <;> rfl

namespace Context

theorem outside_down (l : Line) :
    (outside (l.down n) : Context α × _) = ((outside l).1.down n, (outside l).2.down n) := by
  unfold outside
  rw [Line.down_kind]
  cases l.kind with
  | groupStart =>
    dsimp only
    rw [Line.readHeader_down]
    cases l.readHeader (Reader.groupHeader (α := α)) <;> rfl
  | statement =>
    dsimp only
    rw [Body.ofHeader_down]
    rfl
  | _ => rfl

theorem inside_down (strict : Bool) (g : OpenGroup α) (l : Line) :
    inside strict (g.down n) (l.down n) =
      ((inside strict g l).1.down n, (inside strict g l).2.down n) := by
  have hi : (g.down n).indent = g.indent := rfl
  unfold inside
  rw [Line.down_kind, Line.down_indent, hi, outside_down]
  split
  · exact congrArg (Prod.mk _) (g.close_down n).symm
  · split
    · rw [Findings.down_append, OpenGroup.close_down]
    · cases l.kind with
      | statement =>
        dsimp only
        rw [Body.ofHeader_down]
        rfl
      | property =>
        have hs := l.setting_down n strict .group g.group.props
        dsimp only
        rw [show (g.down n).group.props = g.group.props from rfl, hs]
        rfl
      | _ => rfl

/-- A line further down, in a context further down, does the same. -/
theorem step_down (strict : Bool) (c : Context α) (l : Line) :
    step strict (c.down n) (l.down n) =
      ((step strict c l).1.down n, (step strict c l).2.down n) := by
  cases c with
  | top body =>
    unfold down step
    dsimp only
    rw [Body.absorb_down, outside_down, Body.finished_down]
    cases body.absorb strict l with
    | none =>
      dsimp only [Option.map_none]
      rw [Findings.down_append]
      show Prod.mk _ (Findings.mk _ _ ++ _) = Prod.mk _ (Findings.mk _ _ ++ _)
      rw [Option.toList_map, List.map_map, List.map_map]
      rfl
    | some x => rfl
  | inGroup g body =>
    unfold down step
    dsimp only
    rw [Body.absorb_down, Body.finished_down, ← OpenGroup.adopt_down, inside_down]
    cases body.absorb strict l <;> rfl
  | refusedGroup indent =>
    unfold step
    dsimp only [down]
    rw [Line.down_indent, Line.down_kind, outside_down]
    by_cases hi : indent < l.indent
    · rw [if_pos hi, if_pos hi]
      rfl
    · rw [if_neg hi, if_neg hi]
      split <;> rfl

theorem run_down (strict : Bool) (c : Context α) (ls : List Line) :
    run strict (c.down n) (ls.map (Line.down n)) =
      ((run strict c ls).1.down n, (run strict c ls).2.down n) := by
  induction ls generalizing c with
  | nil => rfl
  | cons l ls ih =>
    rw [List.map_cons, run, run, step_down]
    dsimp only
    rw [ih, Findings.down_append]

end Context

theorem readLines_down (strict : Bool) (ls : List Line) :
    (readLines strict (ls.map (Line.down n)) : Findings α) = (readLines strict ls).down n := by
  have hr : Context.run strict (.top .none : Context α) (ls.map (Line.down n)) = _ :=
    Context.run_down n strict (.top .none) ls
  unfold readLines
  rw [hr]
  dsimp only
  rw [Findings.down_append, Context.close_down]

end Reading

/-! ## A new start -/

section Joined

variable {α : Type} [Scalar α]

/-- A line without indentation that does not end a group closes all that is open. -/
theorem Context.step_unindented (strict : Bool) (c : Context α) {l : Line} (hi : l.indent = 0)
    (hk : l.kind ≠ .groupEnd) :
    step strict c l = ((outside l).1, c.close ++ (outside l).2) := by
  have hnot (b : Body α) : ¬ b.Takes l := by
    cases b <;> simp [Body.Takes, hi]
  apply step_atTop strict ?_ hk
  cases c with
  | top b => exact hnot b
  | inGroup g b => exact ⟨hnot b, hi ▸ Nat.zero_le g.indent⟩
  | refusedGroup i => exact (hi ▸ Nat.zero_le i : l.indent ≤ i)

theorem Context.run_unindented (strict : Bool) (c : Context α) {ls : List Line}
    (h : ∀ l ∈ ls.head?, l.indent = 0 ∧ l.kind ≠ .groupEnd) :
    (run strict c ls).2 ++ (run strict c ls).1.close = c.close ++ readLines strict ls := by
  cases ls with
  | nil =>
    show {} ++ c.close = c.close ++ {}
    rw [Findings.nil_append, Findings.append_nil]
  | cons l ls =>
    obtain ⟨hi, hk⟩ := h l rfl
    unfold readLines run
    rw [step_unindented strict c hi hk, step_unindented strict (.top .none) hi hk]
    dsimp only
    rw [show (Context.top .none : Context α).close = {} from rfl, Findings.nil_append]
    simp only [Findings.append_assoc]

theorem readLines_append (strict : Bool) (as : List Line) {bs : List Line}
    (h : ∀ l ∈ bs.head?, l.indent = 0 ∧ l.kind ≠ .groupEnd) :
    (readLines strict (as ++ bs) : Findings α) = readLines strict as ++ readLines strict bs := by
  have hb := Context.run_unindented strict (Context.run strict (.top .none : Context α) as).1 h
  rw [readLines, Context.run_append]
  dsimp only
  rw [Findings.append_assoc, hb, ← Findings.append_assoc]
  rfl

/-! ## Flattening -/

def Site.down (n : Nat) (x : Site α) : Site α := { x with written := x.written.down n }

theorem Site.flatten_down (n : Nat) (x : Site α) (s : Source) :
    (x.down n).flatten s = ((x.flatten s).1.down n, (x.flatten s).2) := rfl

omit [Scalar α] in
theorem Item.sites_down (n : Nat) (i : Item α) : (i.down n).sites = i.sites.map (Site.down n) := by
  cases i with
  | statement d => rfl
  | group g =>
    show (g.children.map (StatementDef.down n)).map (Site.mk g.props) = _
    rw [sites, List.map_map, List.map_map]
    rfl

namespace Statement

theorem mapM_flatten_down (n : Nat) (xs : List (Site α)) (s : Source) :
    (xs.map (Site.down n)).mapM Site.flatten s =
      ((xs.mapM Site.flatten s).1.map (down n), (xs.mapM Site.flatten s).2) := by
  induction xs generalizing s with
  | nil => rfl
  | cons x xs ih =>
    rw [List.map_cons, Draw.mapM_cons, Draw.mapM_cons, Site.flatten_down, ih]
    rfl

theorem ofItems_down (n : Nat) (is : List (Item α)) (s : Source) :
    ofItems (is.map (Item.down n)) s = ((ofItems is s).1.map (down n), (ofItems is s).2) := by
  rw [ofItems_eq, ofItems_eq, ← mapM_flatten_down, List.flatMap_map, List.map_flatMap]
  simp only [Item.sites_down]

theorem ofItems_append (is js : List (Item α)) (s : Source) :
    ofItems (is ++ js) s =
      ((ofItems is s).1 ++ (ofItems js (ofItems is s).2).1, (ofItems js (ofItems is s).2).2) := by
  rw [ofItems_eq, ofItems_eq, ofItems_eq, List.flatMap_append, Draw.mapM_append]

end Statement

theorem compile_eq (strict : Bool) (source : String) (s : Source) :
    (compile strict source : Draw (Compiled α)) s =
      let found : Findings α := readScript strict source
      (⟨(Statement.ofItems found.items s).1, found.diagnostics⟩,
        (Statement.ofItems found.items s).2) := rfl

/-- A script whose first content line has no indentation and does not end a group is read by
itself, whatever script it is put after: items and diagnostics are those of the two scripts, of the
second one as many lines further down as there are line ends before it.  The two are also compiled
one after the other, the second with the random source that the first leaves behind. -/
theorem readScript_joined (strict : Bool) (a b : String)
    (h : ∀ l ∈ (Line.ofSource b.toList).head?,
      l.indent = 0 ∧ String.ofList l.firstWord ≠ "endgroup") :
    let n := (a ++ "\n").toList.count '\n'
    (readScript strict (a ++ "\n" ++ b) : Findings α) =
      readScript strict a ++ (readScript strict b).down n ∧
    ∀ s : Source,
      (compile strict (a ++ "\n" ++ b) : Draw (Compiled α)) s =
        let (x, s) := compile strict a s
        let (y, s) := compile strict b s
        (⟨x.statements ++ y.statements.map (Statement.down n),
          x.diagnostics ++ y.diagnostics.map (Diagnostic.down n)⟩, s) := by
  intro n
  have hlines : Line.ofSource (a ++ "\n" ++ b).toList =
      Line.ofSource a.toList ++ (Line.ofSource b.toList).map (Line.down n) := by
    have hn : n = a.toList.count '\n' + 1 := by simp [n, String.toList_append]
    rw [hn, ← Line.ofSource_append]
    simp [String.toList_append]
  have hread : (readScript strict (a ++ "\n" ++ b) : Findings α) =
      readScript strict a ++ (readScript strict b).down n := by
    unfold readScript
    rw [hlines, readLines_append, readLines_down]
    intro l hl
    rw [List.head?_map] at hl
    obtain ⟨k, hk, rfl⟩ := Option.map_eq_some_iff.mp hl
    exact ⟨(h k hk).1, Line.kind_ne_groupEnd (h k hk).2⟩
  refine ⟨hread, fun s => ?_⟩
  rw [compile_eq, compile_eq, hread]
  dsimp only
  rw [Findings.items_append, Findings.diagnostics_append, Findings.items_down,
    Findings.diagnostics_down, Statement.ofItems_append, compile_eq]
  dsimp only
  rw [Statement.ofItems_down]

/-- A group is left open and a quote is not closed before the second script starts. -/
theorem readScript_joined_openGroup :
    let a := "group wind:\n  loop \"gust"
    let b := "# rain\nloop \"rain\":"
    (Line.ofSource b.toList).head?.map (fun l => (l.indent, String.ofList l.firstWord)) =
      some (0, "loop") ∧
    (readScript false (a ++ "\n" ++ b) : Findings Float) =
      readScript false a ++ (readScript false b).down 2 := by
  intro a b
  have hfirst : (Line.ofSource b.toList).head?.map
      (fun l => (l.indent, String.ofList l.firstWord)) = some (0, "loop") := by
    decide +kernel
  have h : ∀ l ∈ (Line.ofSource b.toList).head?,
      l.indent = 0 ∧ String.ofList l.firstWord ≠ "endgroup" := by
    intro l hl
    rw [Option.mem_def.mp hl, Option.map_some, Option.some_inj, Prod.mk.injEq] at hfirst
    rw [hfirst.1, hfirst.2]
    decide
  have hn : (a ++ "\n").toList.count '\n' = 2 := by decide +kernel
  have hj : (readScript false (a ++ "\n" ++ b) : Findings Float) =
      readScript false a ++ (readScript false b).down ((a ++ "\n").toList.count '\n') :=
    (readScript_joined false a b h).1
  rw [hn] at hj
  exact ⟨hfirst, hj⟩

end Joined

end Soundscape
