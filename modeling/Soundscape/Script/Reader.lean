import Soundscape.Script.Diagnostic
import Soundscape.Script.Tree

/-!
# Reading tokens

A reader takes what it needs from the front of a list of tokens.  When it fails it tells the
problem and the column of the token that is wrong, or no column when the line ends too early.
-/

namespace Soundscape

/-- A problem and its column; no column stands for the end of the line. -/
structure Fault (α : Type) where
  problem : Problem α
  column : Option Nat
  deriving Repr, DecidableEq

/-- Takes what it needs from the front of a list of tokens. -/
abbrev Reader (α : Type) := StateT (List (Placed α)) (Except (Fault α))

namespace Reader

variable {α : Type}

/-- The column of the next token, if there is one. -/
def here (ts : List (Placed α)) : Option Nat := ts.head?.map Placed.column

def fail {A : Type} (what : Expected) : Reader α A := fun ts =>
  .error ⟨.expected what (ts.head?.map Placed.token), here ts⟩

/-- Takes the next token, of which `pick` must make something. -/
def take {A : Type} (what : Expected) (pick : Token α → Option A) : Reader α A := fun ts =>
  match ts with
  | t :: rest =>
    match pick t.token with
    | some a => .ok (a, rest)
    | none => fail what ts
  | [] => fail what ts

/-- Takes the next token if it satisfies `p`, and tells whether it did. -/
def accept (p : Token α → Bool) : Reader α Bool := fun ts =>
  match ts with
  | t :: rest => if p t.token then .ok (true, rest) else .ok (false, ts)
  | [] => .ok (false, [])

def reserved (k : Keyword) : Token α → Option Unit
  | .keyword k' => if k = k' then some () else none
  | _ => none

def isReserved (k : Keyword) (t : Token α) : Bool := (reserved k t).isSome

def number? : Token α → Option α
  | .number v => some v
  | _ => none

def ident? : Token α → Option String
  | .ident name => some name
  | _ => none

def star? : Token α → Option Unit
  | .star => some ()
  | _ => none

def colon? : Token α → Option Unit
  | .colon => some ()
  | _ => none

def openParen? : Token α → Option Unit
  | .openParen => some ()
  | _ => none

def closeParen? : Token α → Option Unit
  | .closeParen => some ()
  | _ => none

def isDots : Token α → Bool
  | .dots => true
  | _ => false

def number : Reader α α := take .number number?

def done : Reader α Unit := fun ts =>
  match ts with
  | [] => .ok ((), [])
  | t :: _ => .error ⟨.trailing t.token, some t.column⟩

variable [Scalar α]

def maxCount : Nat := UInt32.size - 1

/-- The count that a number is: a whole number from one to `maxCount`. -/
def countOf? (v : α) : Option Nat :=
  (Scalar.natural? v).filter fun n => 1 ≤ n && n ≤ maxCount

def count : Reader α Nat := fun ts => do
  let (v, rest) ← number ts
  match countOf? v with
  | some n => .ok (n, rest)
  | none => .error ⟨.badCount v, here ts⟩

/-- Takes a number, or two with `..` between them. -/
def quantity : Reader α (Quantity α) := fun ts => do
  let (a, rest) ← number ts
  let (isRange, rest) ← accept isDots rest
  if isRange then
    let (b, rest) ← number rest
    if Scalar.isFinite (b - a) then .ok (.between a b, rest)
    else .error ⟨.tooWide a b, here ts⟩
  else .ok (.fixed a, rest)

/-! ## Headers -/

/-- Picks a clip: a string that is not blank, without blanks at its ends. -/
def clip? : Token α → Option String
  | .str s =>
    let text := Text.trim s.toList
    if text.isEmpty then none else some (String.ofList text)
  | _ => none

def kind? : Token α → Option StatementKind
  | .keyword .loop => some .loop
  | .keyword .oneshot => some .oneshot
  | _ => none

/-- What a statement's header says. -/
structure StatementHeader (α : Type) where
  kind : StatementKind
  clip : String
  count : Nat
  /-- The time from one firing to the next, if written. -/
  every : Option (Quantity α)
  deriving Repr, DecidableEq

def numberNext (ts : List (Placed α)) : Bool :=
  ts.head?.any fun t => (number? t.token).isSome

/-- Reads a statement's header: a count and a `*` if it starts with a number, the kind, the clip,
`every` with a quantity if written, and a `:`. -/
def statementHeader : Reader α (StatementHeader α) := do
  let count ← if numberNext (← get) then do
      let n ← count
      take .star star?
      pure n
    else pure 1
  let kind ← take .statementKind kind?
  let clip ← take .clip clip?
  let every ← if ← accept (isReserved .every) then some <$> quantity else pure none
  take .colon colon?
  done
  pure { kind, clip, count, every }

/-- Reads a group's header: `group`, a name and a `:`. -/
def groupHeader : Reader α String := do
  take .group (reserved .group)
  let name ← take .groupName ident?
  take .colon colon?
  done
  pure name

/-! ## Interpolation calls -/

def motion : Reader α Motion := fun ts =>
  match ts with
  | ⟨.ident name, _⟩ :: rest =>
    match Motion.ofKeyword? name.toList with
    | some m => .ok (m, rest)
    | none => .error ⟨.noFunction, none⟩
  | _ => .error ⟨.noFunction, none⟩

/-- Takes the name of a curve; under strict rules it must be known. -/
def easeName (strict : Bool) : Reader α String := fun ts => do
  let (name, rest) ← take .easeName ident? ts
  if strict && (Ease.ofName? name).isNone then .error ⟨.unknownEase name, here ts⟩
  else .ok (name, rest)

/-- Takes the words that say how often a call is run, if there are any. -/
def repetition (spec : Interpolation α) : Reader α (Interpolation α) := do
  if ← accept (isReserved .forever) then pure spec.endless
  else if ← accept (isReserved .for) then
    if ← accept (isReserved .ever) then pure spec.endless
    else return spec.times (← count)
  else pure spec

/-- Reads an interpolation call: a motion and, in parentheses, `A and B as CURVE in D` and the
repetition. -/
def call (strict : Bool) : Reader α (Interpolation α) := do
  let motion ← motion
  take .openParen openParen?
  let low ← quantity
  take .and (reserved .and)
  let high ← quantity
  take .as (reserved .as)
  let name ← easeName strict
  take .in (reserved .in)
  let duration ← quantity
  let spec ← repetition (.plain motion low high duration name)
  take .closeParen closeParen?
  done
  pure spec

/-! ## Visuals -/

/-- Reads a list of visuals with `and` between them. -/
def visuals : List (Placed α) → Except (Fault α) (List Visual)
  | ⟨.ident name, _⟩ :: ⟨.keyword .and, _⟩ :: rest => do
    return .tag (String.ofList (Text.lower name.toList)) :: (← visuals rest)
  | ⟨.ident name, _⟩ :: rest => do
    let _ ← done rest
    return [.tag (String.ofList (Text.lower name.toList))]
  | ⟨.keyword .object, _⟩ :: ⟨.str path, _⟩ :: ⟨.keyword .and, _⟩ :: rest => do
    return .object path :: (← visuals rest)
  | ⟨.keyword .object, _⟩ :: ⟨.str path, _⟩ :: rest => do
    let _ ← done rest
    return [.object path]
  | ⟨.keyword .object, _⟩ :: rest => Prod.fst <$> fail .objectPath rest
  | rest => Prod.fst <$> fail .visual rest

end Reader

end Soundscape
