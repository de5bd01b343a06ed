import Soundscape.Script.Line
import Soundscape.Script.Reader

/-!
# Property lines

A property line has a key, a `=` and a value.  Reading one gives a `Setting`, which is then applied
to the properties of the statement or group that the line belongs to; a line that cannot be read
gives a problem and a column instead and changes nothing.
-/

namespace Soundscape

/-- What a property line says. -/
inductive Setting (α : Type) where
  | volume (axis : AxisDef α)
  | pitch (axis : AxisDef α)
  | startsAt (q : Quantity α)
  | duration (q : Quantity α)
  | fadeIn (q : Quantity α)
  | fadeOut (q : Quantity α)
  | every (q : Quantity α)
  | overlap (b : Bool)
  | movement (m : Movement α)
  | visuals (vs : List Visual)
  deriving Repr, DecidableEq

/-- The properties with a setting in place of what they said before. -/
def Properties.apply {α : Type} (props : Properties α) : Setting α → Properties α
  | .volume axis => { props with volume := some axis }
  | .pitch axis => { props with pitch := some axis }
  | .startsAt q => { props with startsAt := some q }
  | .duration q => { props with duration := some q }
  | .fadeIn q => { props with fadeIn := some q }
  | .fadeOut q => { props with fadeOut := some q }
  | .every q => { props with every := some q }
  | .overlap b => { props with overlap := some b }
  | .movement m => { props with movement := some m }
  | .visuals vs => { props with visuals := vs }

/-- What a property line belongs to. -/
inductive Owner where
  | statement
  | group
  deriving Repr, DecidableEq

namespace Setting

variable {α : Type} [Scalar α]

/-- A problem and the column it is reported at. -/
abbrev Outcome (α A : Type) := Except (Problem α × Nat) A

/-- Runs a reader over a text that starts at a column. -/
def readTokens {A : Type} (column : Nat) (text : List Char)
    (reader : List (Placed α) → Except (Fault α) A) : Outcome α A :=
  match Token.tokenize column text with
  | .error (e, found) => .error (.lexical e, found)
  | .ok tokens =>
    match reader tokens with
    | .ok a => .ok a
    | .error fault => .error (fault.problem, fault.column.getD (column + text.length))

def readQuantity (column : Nat) (text : List Char) : Outcome α (Quantity α) :=
  match Quantity.read text with
  | .ok q => .ok q
  | .error e => .error (.quantity e, column)

/-- Whether a character ends the leading word of a value. -/
def endsHead (c : Char) : Bool := c == '(' || isBlank c

def head (text : List Char) : List Char := text.takeWhile (!endsHead ·)

/-- Reads a volume or a pitch: an interpolation call if the leading word is the name of a motion,
else a quantity. -/
def readAxis (strict : Bool) (column : Nat) (text : List Char) : Outcome α (AxisDef α) :=
  if (Motion.ofKeyword? (head text)).isSome then
    AxisDef.animated <$> readTokens column text fun ts => Prod.fst <$> Reader.call strict ts
  else AxisDef.plain <$> readQuantity column text

/-- Reads a truth value, of which only the first letter counts. -/
def readBoolean (column : Nat) (text : List Char) : Outcome α Bool :=
  match text.head?.map Char.toLower with
  | some 't' => .ok true
  | some 'f' => .ok false
  | _ => .error (.noBoolean (String.ofList text), column)

/-- Reads one coordinate of a movement, which must not be empty. -/
def readCoordinate (column : Nat) (mode : String) (text : List Char) : Outcome α (Quantity α) :=
  match readQuantity column text with
  | .ok q => if q.isSet then .ok q else .error (.emptyCoordinate mode, column)
  | .error e => .error e

/-- How many coordinates a way to move takes. -/
def arity? : String → Option Nat
  | "none" => some 0
  | "walk" | "pos" | "fixed" => some 3
  | "fly" => some 4
  | _ => none

/-- The movement of a mode with its coordinates. -/
def movementOf (mode : String) (values : List (Quantity α)) : Movement α :=
  match mode, values with
  | "walk", [x, z, speed] => .walk x z speed
  | "fly", [x, y, z, speed] => .fly x y z speed
  | "pos", [x, y, z] | "fixed", [x, y, z] => .fixed x y z
  | _, _ => .still

/-- Reads a movement: a mode and its coordinates, with commas between them. -/
def readMovement (column : Nat) (text : List Char) : Outcome α (Movement α) :=
  match (Text.pieces (· == ',') text).map Text.trim with
  | [] => .ok .still
  | first :: rest =>
    let mode := String.ofList (Text.lower first)
    match arity? mode with
    | none => .error (.unknownMode (String.ofList first), column)
    | some arity =>
      if rest.length = arity then
        movementOf mode <$> rest.mapM (readCoordinate column mode)
      else .error (.wrongArity mode arity rest.length, column)

/-- The text before the first `=` and the text after it. -/
def splitEquals (text : List Char) : List Char × List Char :=
  (text.takeWhile (· != '='), (text.dropWhile (· != '=')).drop 1)

/-- The key of a property line, with small letters. -/
def key (l : Line) : String :=
  String.ofList (Text.lower (Text.trim (splitEquals l.text).1))

def value (l : Line) : List Char := Text.trim (splitEquals l.text).2

/-- The column that is reported for a value: the column of the line moved on by the bytes before
the value. -/
def valueColumn (l : Line) : Nat :=
  l.column + Text.bytes l.text - Text.bytes (Text.trimStart (splitEquals l.text).2)

def read (strict : Bool) (owner : Owner) (l : Line) : Outcome α (Setting α) :=
  let key := key l
  let text := value l
  let column := valueColumn l
  if text.isEmpty then .error (.missingValue key, l.column)
  else match key with
    | "volume" => volume <$> readAxis strict column text
    | "pitch" => pitch <$> readAxis strict column text
    | "starts_at" => startsAt <$> readQuantity column text
    | "duration" => duration <$> readQuantity column text
    | "fade_in" => fadeIn <$> readQuantity column text
    | "fade_out" => fadeOut <$> readQuantity column text
    | "every" => every <$> readQuantity column text
    | "overlap" => overlap <$> readBoolean column text
    | "move" =>
      if owner = .group then .error (.notOnGroup key, l.column)
      else movement <$> readMovement column text
    | "visual" =>
      if owner = .group then .error (.notOnGroup key, l.column)
      else visuals <$> readTokens column text Reader.visuals
    | _ => .error (.unknownProperty key, l.column)

end Setting

end Soundscape
