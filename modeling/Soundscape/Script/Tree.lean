import Soundscape.Interpolation

/-!
# What a script says

A script is a list of statements and groups.  A statement names a clip and how to play it; a group
gives defaults to the statements in it.  A property that is not written is `none`, which is what
lets a group's default through.
-/

namespace Soundscape

/-- How a statement plays its clip. -/
inductive StatementKind where
  | loop
  | oneshot
  deriving Repr, DecidableEq

/-- The word that starts a statement of the kind. -/
def StatementKind.name : StatementKind → String
  | loop => "loop"
  | oneshot => "oneshot"

/-- How a sound moves through space.  Where it wanders, it does so in a box around the origin. -/
inductive Movement (α : Type) where
  | still
  | walk (x z speed : Quantity α)
  | fly (x y z speed : Quantity α)
  | fixed (x y z : Quantity α)
  deriving Repr, DecidableEq

/-- Something to be seen with a sound. -/
inductive Visual where
  | tag (name : String)
  | object (path : String)
  deriving Repr, DecidableEq

/-- A volume or pitch as written. -/
inductive AxisDef (α : Type) where
  | plain (value : Quantity α)
  | animated (spec : Interpolation α)
  deriving Repr, DecidableEq

/-- The properties written for a statement or a group. -/
structure Properties (α : Type) where
  volume : Option (AxisDef α) := none
  pitch : Option (AxisDef α) := none
  startsAt : Option (Quantity α) := none
  duration : Option (Quantity α) := none
  /-- The time in which a sound rises from silence. -/
  fadeIn : Option (Quantity α) := none
  /-- The time in which a sound falls to silence. -/
  fadeOut : Option (Quantity α) := none
  every : Option (Quantity α) := none
  /-- Whether a firing lets the sound before it play on. -/
  overlap : Option Bool := none
  movement : Option (Movement α) := none
  visuals : List Visual := []
  deriving Repr, DecidableEq

/-- A statement as written. -/
structure StatementDef (α : Type) where
  kind : StatementKind
  clip : String
  count : Nat
  props : Properties α
  line : Nat
  deriving Repr, DecidableEq

/-- A group as written. -/
structure GroupDef (α : Type) where
  name : String
  line : Nat
  props : Properties α
  children : List (StatementDef α)
  deriving Repr, DecidableEq

/-- A part of a script. -/
inductive Item (α : Type) where
  | statement (s : StatementDef α)
  | group (g : GroupDef α)
  deriving Repr, DecidableEq

end Soundscape
