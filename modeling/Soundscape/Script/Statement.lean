import Soundscape.Script.Document

/-!
# Statements ready to play

Flattening takes the groups apart: each statement of a group takes over the group's defaults.  A
written time of the statement wins over the group's.  A plain volume or pitch of the group is drawn
once for each statement and multiplies the statement's own.
-/

namespace Soundscape

/-- A statement with everything it needs to be played. -/
structure Statement (α : Type) where
  kind : StatementKind
  /-- The clip reference, which may still leave a choice. -/
  clip : String
  count : Nat
  startsAt : Quantity α
  duration : Quantity α
  every : Quantity α
  volume : Quantity α
  pitch : Quantity α
  /-- The time in which a sound rises from silence. -/
  fadeIn : Quantity α
  /-- The time in which a sound falls to silence. -/
  fadeOut : Quantity α
  /-- Whether a firing lets the sound before it play on. -/
  overlap : Bool
  movement : Movement α
  visuals : List Visual
  volumeInterpolation : Option (Interpolation α)
  pitchInterpolation : Option (Interpolation α)
  line : Nat
  deriving Repr, DecidableEq

/-- The statements of a script and its diagnostics. -/
structure Compiled (α : Type) where
  statements : List (Statement α)
  diagnostics : List (Diagnostic α)

/-- Whether a part of the script was left out. -/
def Compiled.hasErrors {α : Type} (c : Compiled α) : Bool := c.diagnostics.any Diagnostic.isError

namespace Statement

variable {α : Type}

/-- A time of the statement, or else of its group. -/
def inherited (own : Option (Quantity α)) (group : Option (Quantity α)) : Quantity α :=
  (own.getD .unset).or (group.getD .unset)

variable [Scalar α]

/-- A volume or pitch of a statement together with its group's: the quantity and the interpolation.
The statement's interpolation wins, then the group's; a plain value of the group is drawn. -/
def axis (own group : Option (AxisDef α)) :
    Draw (Quantity α × Option (Interpolation α)) :=
  match own, group with
  | some (.animated spec), _ => pure (.unset, some spec)
  | some (.plain value), some (.animated spec) => pure (value, some spec)
  | none, some (.animated spec) => pure (.unset, some spec)
  | some (.plain value), some (.plain factor) =>
    if factor.isSet then return (value.scaledBy (← factor.sample), none)
    else pure (value, none)
  | none, some (.plain factor) =>
    if factor.isSet then return (.fixed (← factor.sample), none)
    else pure (.unset, none)
  | some (.plain value), none => pure (value, none)
  | none, none => pure (.unset, none)

/-- Whether drawing the factor of a group's volume or pitch aborts the program. -/
def axisAborts (own group : Option (AxisDef α)) : Bool :=
  match own, group with
  | some (.animated _), _ => false
  | _, some (.plain factor) => factor.aborts
  | _, _ => false

/-- A statement with the defaults of its group, which are empty for a statement of its own. -/
def ofDef (group : Properties α) (s : StatementDef α) : Draw (Statement α) := do
  let own := s.props
  let (volume, volumeInterpolation) ← axis own.volume group.volume
  let (pitch, pitchInterpolation) ← axis own.pitch group.pitch
  pure
    { kind := s.kind
      clip := s.clip
      count := s.count
      startsAt := inherited own.startsAt group.startsAt
      duration := inherited own.duration group.duration
      every := inherited own.every group.every
      volume
      pitch
      fadeIn := inherited own.fadeIn group.fadeIn
      fadeOut := inherited own.fadeOut group.fadeOut
      overlap := (own.overlap.or group.overlap).getD false
      movement := own.movement.getD .still
      visuals := own.visuals
      volumeInterpolation
      pitchInterpolation
      line := s.line }

/-- Whether giving a statement the defaults of its group aborts the program. -/
def defAborts (group : Properties α) (s : StatementDef α) : Bool :=
  axisAborts s.props.volume group.volume || axisAborts s.props.pitch group.pitch

def ofItem : Item α → Draw (List (Statement α))
  | .statement s => return [← ofDef {} s]
  | .group g => g.children.mapM (ofDef g.props)

def ofItems (items : List (Item α)) : Draw (List (Statement α)) :=
  List.flatten <$> items.mapM ofItem

def itemAborts : Item α → Bool
  | .statement s => defAborts {} s
  | .group g => g.children.any (defAborts g.props)

end Statement

def compile {α : Type} [Scalar α] (strict : Bool) (source : String) : Draw (Compiled α) := do
  let found := readScript strict source
  let statements ← Statement.ofItems found.items
  pure ⟨statements, found.diagnostics⟩

def compileAborts (α : Type) [Scalar α] (strict : Bool) (source : String) : Bool :=
  (readScript strict source : Findings α).items.any Statement.itemAborts

end Soundscape
