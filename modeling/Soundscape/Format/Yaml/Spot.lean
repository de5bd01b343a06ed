import Soundscape.Format.Yaml.Character

/-!
# Spots

In block style it matters where a character stands: how deep on its line, on which line, and how
far from another one.  A text is read as the list of its spots, in which the ways to end a line by a
control character are the same.
-/

namespace Soundscape

namespace Yaml

/-- A character and where it stands. -/
structure Spot where
  char : Char
  offset : Nat
  line : Nat
  column : Nat
  deriving Repr, DecidableEq

/-- The spots of a text that starts at a place. -/
def spotsFrom (offset line column : Nat) : List Char → List Spot
  | [] => []
  | '\r' :: '\n' :: cs => ⟨'\n', offset, line, column⟩ :: spotsFrom (offset + 2) (line + 1) 0 cs
  | c :: cs =>
    let next := offset + c.utf8Size
    if c = '\r' ∨ c.toNat = 0x85 then ⟨'\n', offset, line, column⟩ :: spotsFrom next (line + 1) 0 cs
    else if isBreak c then ⟨c, offset, line, column⟩ :: spotsFrom next (line + 1) 0 cs
    else ⟨c, offset, line, column⟩ :: spotsFrom next line (column + 1) cs

/-- The spots of a text, if it may hold all its characters. -/
def spots? (cs : List Char) : Option (List Spot) :=
  if cs.all isAllowed then some (spotsFrom 0 0 0 cs) else none

def chars (ss : List Spot) : List Char := ss.map Spot.char

/-- Whether a text starts with a character that has a property. -/
def startsWith (p : Char → Bool) (ss : List Spot) : Bool := ss.head?.any fun s => p s.char

def endsWord (ss : List Spot) : Bool := ss.isEmpty || startsWith isWhite ss

def dropBlanks (ss : List Spot) : List Spot := ss.dropWhile fun s => isBlank s.char

/-- What follows the line that a text starts in, if it holds nothing but blanks and a comment. -/
def emptyLine? (ss : List Spot) : Option (List Spot) :=
  let ss := dropBlanks ss
  match if startsWith (· == '#') ss then ss.dropWhile (fun s => !isBreak s.char) else ss with
  | [] => some []
  | s :: rest => if isBreak s.char then some rest else none

/-- Whether a text starts with the line of a mark, which is a character three times. -/
def isMark (mark : Char) : List Spot → Bool
  | a :: b :: c :: rest =>
    a.column == 0 && a.char == mark && b.char == mark && c.char == mark && endsWord rest
  | _ => false

/-- Whether a text starts with a mark between documents. -/
def atMark (ss : List Spot) : Bool := isMark '-' ss || isMark '.' ss

end Yaml

end Soundscape
