import Soundscape.Script.Property

/-!
# Reading a script

A script is read line by line.  What a line means depends on what is open: the body of a statement,
a group, or a block that is skipped because its header was refused.  `Context.step` takes one
content line, and gives the new context together with the items and the diagnostics that the line
completes; a script is read by a left fold of it.  So a problem stays where it is, and what two
texts give one after the other depends only on the context between them.
-/

namespace Soundscape

/-- What some lines give: finished items and diagnostics, in order. -/
structure Findings (α : Type) where
  items : List (Item α) := []
  diagnostics : List (Diagnostic α) := []
  deriving Repr, DecidableEq

namespace Findings

variable {α : Type}

/-- The findings of some lines and then of others. -/
def append (a b : Findings α) : Findings α :=
  ⟨a.items ++ b.items, a.diagnostics ++ b.diagnostics⟩

instance : Append (Findings α) := ⟨append⟩

def only (ds : List (Diagnostic α)) : Findings α := ⟨[], ds⟩

@[simp] theorem items_append (a b : Findings α) : (a ++ b).items = a.items ++ b.items := rfl

@[simp] theorem diagnostics_append (a b : Findings α) :
    (a ++ b).diagnostics = a.diagnostics ++ b.diagnostics := rfl

@[simp] theorem nil_append (a : Findings α) : ({} : Findings α) ++ a = a := rfl

theorem append_assoc (a b c : Findings α) : a ++ b ++ c = a ++ (b ++ c) := by
  show Findings.mk _ _ = Findings.mk _ _
  simp [List.append_assoc]

end Findings

/-- The innermost block that is open. -/
inductive Body (α : Type) where
  | none
  /-- The body of a statement whose header has the given indentation. -/
  | statement (indent : Nat) (s : StatementDef α)
  /-- The properties of a statement whose header was refused. -/
  | refused (indent : Nat)
  | nested (indent : Nat)
  deriving Repr, DecidableEq

/-- A group that is open. -/
structure OpenGroup (α : Type) where
  indent : Nat
  column : Nat
  group : GroupDef α
  deriving Repr, DecidableEq

/-- All that is open. -/
inductive Context (α : Type) where
  | top (body : Body α)
  | inGroup (g : OpenGroup α) (body : Body α)
  /-- A group whose header was refused; its lines are skipped. -/
  | refusedGroup (indent : Nat)
  deriving Repr, DecidableEq

def Line.diagnostic {α : Type} (l : Line) (p : Problem α) : Diagnostic α :=
  ⟨p, l.number, l.column⟩

def Line.readHeader {α A : Type} [Scalar α] (l : Line) (reader : Reader α A) :
    Except (Diagnostic α) A :=
  match Setting.readTokens l.column l.text fun ts => Prod.fst <$> reader ts with
  | .ok a => .ok a
  | .error (p, column) => .error ⟨p, l.number, column⟩

/-- What a property line does to properties, and the diagnostic it gives. -/
def Line.setting {α : Type} [Scalar α] (strict : Bool) (owner : Owner) (l : Line)
    (props : Properties α) : Properties α × List (Diagnostic α) :=
  match Setting.read strict owner l with
  | .ok s => (props.apply s, [])
  | .error (p, column) => (props, [⟨p, l.number, column⟩])

/-! ## Blocks -/

namespace Body

variable {α : Type} [Scalar α]

/-- The block after a line that belongs to it; no block when the line does not. -/
def absorb (strict : Bool) (l : Line) : Body α → Option (Body α × List (Diagnostic α))
  | none => .none
  | statement indent s =>
    if indent < l.indent then
      match l.kind with
      | .property =>
        let (props, ds) := l.setting strict .statement s.props
        some (statement indent { s with props }, ds)
      | .unknown => some (statement indent s, [l.diagnostic (.noProperty (String.ofList l.text))])
      | _ => .none
    else .none
  | refused indent =>
    if indent < l.indent ∧ l.kind = .property then some (refused indent, []) else .none
  | nested indent => if indent < l.indent then some (nested indent, []) else .none

/-- The statement that the block finishes when it ends. -/
def finished : Body α → Option (StatementDef α)
  | statement _ s => some s
  | _ => .none

/-- The block that the header line of a statement opens. -/
def ofHeader (l : Line) : Body α × List (Diagnostic α) :=
  match l.readHeader Reader.statementHeader with
  | .ok h =>
    (statement l.indent
      { kind := h.kind, clip := h.clip, count := h.count, props := { every := h.every },
        line := l.number }, [])
  | .error d => (refused l.indent, [d])

end Body

/-! ## Groups -/

namespace OpenGroup

variable {α : Type}

/-- The group with the statement that a block finishes. -/
def adopt (g : OpenGroup α) (s : Option (StatementDef α)) : OpenGroup α :=
  { g with group := { g.group with children := g.group.children ++ s.toList } }

/-- The finished group, with a warning when it has no statements. -/
def close (g : OpenGroup α) : Findings α where
  items := [.group g.group]
  diagnostics :=
    if g.group.children.isEmpty then [⟨.emptyGroup g.group.name, g.group.line, g.column⟩] else []

end OpenGroup

/-! ## Lines -/

namespace Context

variable {α : Type} [Scalar α]

def outside (l : Line) : Context α × Findings α :=
  match l.kind with
  | .groupStart =>
    match l.readHeader Reader.groupHeader with
    | .ok name => (.inGroup ⟨l.indent, l.column, ⟨name, l.number, {}, []⟩⟩ .none, {})
    | .error d => (.refusedGroup l.indent, .only [d])
  | .statement =>
    let (body, ds) := Body.ofHeader l
    (.top body, .only ds)
  | .groupEnd => (.top .none, .only [l.diagnostic .strayGroupEnd])
  | .property => (.top .none, .only [l.diagnostic .strayProperty])
  | .unknown => (.top .none, .only [l.diagnostic (.unrecognised (String.ofList l.text))])

def inside (strict : Bool) (g : OpenGroup α) (l : Line) : Context α × Findings α :=
  if l.kind = .groupEnd then (.top .none, g.close)
  else if l.indent ≤ g.indent then
    let (context, found) := outside l
    (context, g.close ++ found)
  else match l.kind with
    | .statement =>
      let (body, ds) := Body.ofHeader l
      (.inGroup g body, .only ds)
    | .property =>
      let (props, ds) := l.setting strict .group g.group.props
      (.inGroup { g with group := { g.group with props } } .none, .only ds)
    | .groupStart => (.inGroup g (.nested l.indent), .only [l.diagnostic .nestedGroup])
    | _ => (.inGroup g .none, .only [l.diagnostic (.unrecognised (String.ofList l.text))])

def step (strict : Bool) (context : Context α) (l : Line) : Context α × Findings α :=
  match context with
  | .top body =>
    match body.absorb strict l with
    | some (body, ds) => (.top body, .only ds)
    | none =>
      let (context, found) := outside l
      (context, ⟨body.finished.toList.map .statement, []⟩ ++ found)
  | .inGroup g body =>
    match body.absorb strict l with
    | some (body, ds) => (.inGroup g body, .only ds)
    | none => inside strict (g.adopt body.finished) l
  | .refusedGroup indent =>
    if indent < l.indent then (context, {})
    else if l.kind = .groupEnd then (.top .none, {})
    else outside l

def close : Context α → Findings α
  | .top body => ⟨body.finished.toList.map .statement, []⟩
  | .inGroup g body => (g.adopt body.finished).close
  | .refusedGroup _ => {}

/-- The lines of a script, one after the other. -/
def run (strict : Bool) (context : Context α) : List Line → Context α × Findings α
  | [] => (context, {})
  | l :: ls =>
    let (context, found) := step strict context l
    let (context, rest) := run strict context ls
    (context, found ++ rest)

theorem run_append (strict : Bool) (context : Context α) (a b : List Line) :
    run strict context (a ++ b) =
      ((run strict (run strict context a).1 b).1,
        (run strict context a).2 ++ (run strict (run strict context a).1 b).2) := by
  induction a generalizing context with
  | nil => simp [run]
  | cons l ls ih => simp [run, ih, Findings.append_assoc]

end Context

def readLines {α : Type} [Scalar α] (strict : Bool) (ls : List Line) : Findings α :=
  let (context, found) := Context.run strict (.top .none) ls
  found ++ context.close

/-- Reads a script.  Under strict rules a call with an unknown curve is refused. -/
def readScript {α : Type} [Scalar α] (strict : Bool) (source : String) : Findings α :=
  readLines strict (Line.ofSource source.toList)

end Soundscape
