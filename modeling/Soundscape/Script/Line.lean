import Soundscape.Text.Blank

/-!
# The lines of a script

A script is read by content lines: lines that still hold something when their comment is gone.
A comment starts at the first `#` outside a quoted string.  The indentation of a line is the width
of the blanks in front of it, where a tab is as wide as four other blanks.
-/

namespace Soundscape

/-- A line with content. -/
structure Line where
  number : Nat
  /-- The width of the blanks in front of the content. -/
  indent : Nat
  /-- The position of the first character of the content, from one. -/
  column : Nat
  /-- The content, without blanks at the ends and without comment. -/
  text : List Char
  deriving Repr, DecidableEq

/-- What a line seems to be, by its first word. -/
inductive LineKind where
  | groupStart
  | groupEnd
  | statement
  | property
  | unknown
  deriving Repr, DecidableEq

namespace Line

/-- The part of a line before its comment; `quoted` tells whether a string is open. -/
def beforeComment (quoted : Bool) : List Char → List Char
  | [] => []
  | c :: cs =>
    if c = '"' then c :: beforeComment (!quoted) cs
    else if c = '#' ∧ quoted = false then []
    else c :: beforeComment quoted cs

/-- The width of a blank in front of a line. -/
def blankWidth (c : Char) : Nat := if c = '\t' then 4 else 1

/-- The width of the blanks in front of a line. -/
def width : List Char → Nat
  | [] => 0
  | c :: cs => blankWidth c + width cs

/-- The content line that a raw line holds, if it holds one. -/
def ofRaw? (number : Nat) (raw : List Char) : Option Line :=
  let content := beforeComment false raw
  let leading := content.takeWhile isBlank
  let text := Text.trim content
  if text.isEmpty then none
  else some
    { number
      indent := width leading
      column := leading.length + 1
      text }

/-- The content lines among raw lines, of which the first has the given number. -/
def ofRaws (number : Nat) : List (List Char) → List Line
  | [] => []
  | raw :: rest => (ofRaw? number raw).toList ++ ofRaws (number + 1) rest

theorem ofRaws_append (number : Nat) (a b : List (List Char)) :
    ofRaws number (a ++ b) = ofRaws number a ++ ofRaws (number + a.length) b := by
  induction a generalizing number with
  | nil => simp [ofRaws]
  | cons raw rest ih => simp [ofRaws, ih, Nat.add_assoc, Nat.add_comm 1]

def ofSource (source : List Char) : List Line :=
  ofRaws 1 (Text.pieces (· == '\n') source)

/-- Whether a character ends the first word of a line. -/
def endsWord (c : Char) : Bool :=
  isBlank c || c == ':' || c == '*' || c == '"' || c == '=' || c == '('

/-- The first word of a line, with small letters. -/
def firstWord (l : Line) : List Char :=
  Text.lower (l.text.takeWhile (!endsWord ·))

/-- What the line seems to be.  A first word that starts with a digit makes a statement where the
line has a `*`; of the other lines, those with a `=` are properties. -/
def kind (l : Line) : LineKind :=
  match String.ofList l.firstWord with
  | "group" => .groupStart
  | "endgroup" => .groupEnd
  | "loop" | "oneshot" => .statement
  | _ =>
    if l.firstWord.head?.any (fun c => '0' ≤ c && c ≤ '9') && l.text.contains '*' then .statement
    else if l.text.contains '=' then .property
    else .unknown

end Line

end Soundscape
