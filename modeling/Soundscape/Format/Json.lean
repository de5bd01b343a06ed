import Soundscape.Format.Data
import Soundscape.Number.Style

/-!
# Writing data as JSON

The compact form has no blanks.  The laid-out form has a line for each item and each field, two
blanks deeper than the bracket around them; an empty bracket stays closed.  A value of one kind
among several is a record with the kind as its only field.
-/

namespace Soundscape

namespace Json

/-- A digit of a hexadecimal number, with small letters. -/
def hexDigit (n : Nat) : Char := Nat.digitChar n

def escape (c : Char) : List Char :=
  if c = '"' then ['\\', '"']
  else if c = '\\' then ['\\', '\\']
  else if c = '\n' then ['\\', 'n']
  else if c = '\r' then ['\\', 'r']
  else if c = '\t' then ['\\', 't']
  else if c.toNat = 8 then ['\\', 'b']
  else if c.toNat = 12 then ['\\', 'f']
  else if c.toNat < 32 then
    ['\\', 'u', '0', '0', hexDigit (c.toNat / 16), hexDigit (c.toNat % 16)]
  else [c]

def quote (s : String) : String := "\"" ++ String.ofList (s.toList.flatMap escape) ++ "\""

/-- A number; what is not finite is `null`. -/
def number (x : Double) : String :=
  match x with
  | .finite .. => NumberStyle.json.text x
  | _ => "null"

def separated (separator : String) : List String → String
  | [] => ""
  | [s] => s
  | s :: t :: rest => s ++ separator ++ separated separator (t :: rest)

/-- How brackets are laid out. -/
structure Layout where
  /-- What stands before the items of a bracket at a depth, and before its end. -/
  newline : Nat → String
  colon : String

def Layout.compact : Layout := ⟨fun _ => "", ":"⟩

def Layout.lines : Layout :=
  ⟨fun depth => "\n" ++ String.ofList (List.replicate (2 * depth) ' '), ": "⟩

def Layout.bracket (layout : Layout) (depth : Nat) (left right : String) (items : List String) :
    String :=
  if items.isEmpty then left ++ right
  else
    left ++ layout.newline (depth + 1) ++ separated ("," ++ layout.newline (depth + 1)) items
      ++ layout.newline depth ++ right

mutual

def write (layout : Layout) (depth : Nat) : Data → String
  | .null => "null"
  | .bool b => if b then "true" else "false"
  | .nat n => Nat.repr n
  | .number x => number x
  | .text s => quote s
  | .list items => layout.bracket depth "[" "]" (writeItems layout (depth + 1) items)
  | .record fields => layout.bracket depth "\x7b" "\x7d" (writeFields layout (depth + 1) fields)
  | .tagged kind value =>
    layout.bracket depth "\x7b" "\x7d" [quote kind ++ layout.colon ++ write layout (depth + 1) value]

def writeItems (layout : Layout) (depth : Nat) : List Data → List String
  | [] => []
  | d :: ds => write layout depth d :: writeItems layout depth ds

def writeFields (layout : Layout) (depth : Nat) : List (String × Data) → List String
  | [] => []
  | (name, d) :: ds =>
    (quote name ++ layout.colon ++ write layout depth d) :: writeFields layout depth ds

end

end Json

def Data.json (d : Data) : String := Json.write .compact 0 d

/-- The tree as JSON with a line for each item. -/
def Data.jsonLines (d : Data) : String := Json.write .lines 0 d

end Soundscape
