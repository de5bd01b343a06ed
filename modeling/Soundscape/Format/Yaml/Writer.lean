import Soundscape.Format.Data
import Soundscape.Format.Scalar
import Soundscape.Format.Yaml.Character
import Soundscape.Number.Style

/-!
# Writing data in block style

Each item of a list is a line with a dash, each field of a record a line with a name; the parts of
a field stand below it.  A text is plain where it reads back as itself, else it is in single quotes,
and in double quotes if it has characters that need an escape.  A value of one kind among several
has the kind in front, as a tag.
-/

namespace Soundscape

namespace Yaml

namespace Writer

/-- Whether a character separates words, as the end of the text does. -/
def separates : Option Char → Bool
  | none => true
  | some c => isWhite c || c.toNat == 0

/-- Whether the first character of a text means something there. -/
def startsWithIndicator : List Char → Bool
  | [] => false
  | c :: cs =>
    indicators.contains c || ((c == '-' || c == '?' || c == ':') && separates cs.head?)

/-- Whether a character after the first, with those before and after it, means something. -/
def hasInnerIndicator : Char → List Char → Bool
  | _, [] => false
  | before, c :: cs =>
    (c == ':' && separates cs.head?) || (c == '#' && separates (some before))
      || hasInnerIndicator c cs

/-- Whether a text starts like the mark of a document. -/
def startsLikeDocument (cs : List Char) : Bool :=
  cs.take 3 == ['-', '-', '-'] || cs.take 3 == ['.', '.', '.']

/-- Whether a text can be written plain where it is a value of its own. -/
def canBePlain (cs : List Char) : Bool :=
  cs.all (fun c => isPrintable c && !isBreak c) && cs.head? != some ' '
    && cs.getLast? != some ' ' && !startsLikeDocument cs && !startsWithIndicator cs
    && !(match cs with
      | [] => false
      | c :: rest => hasInnerIndicator c rest)

/-- Whether a blank stands next to a break, where it would be lost. -/
def hasBlankAtBreak : List Char → Bool
  | c :: d :: cs => (c == ' ' && isBreak d) || (isBreak c && d == ' ') || hasBlankAtBreak (d :: cs)
  | _ => false

def canBeSingle (cs : List Char) : Bool := cs.all isPrintable && !hasBlankAtBreak cs

/-- A hexadecimal number with a number of digits, with capital letters. -/
def hex : Nat → Nat → List Char
  | 0, _ => []
  | width + 1, n => hex width (n / 16) ++ [(Nat.digitChar (n % 16)).toUpper]

def escape (c : Char) : List Char :=
  let n := c.toNat
  if isPrintable c && !isBreak c && c != '"' && c != '\\' then [c]
  else '\\' :: (
    if n = 0 then ['0']
    else if n = 7 then ['a']
    else if n = 8 then ['b']
    else if n = 9 then ['t']
    else if n = 10 then ['n']
    else if n = 11 then ['v']
    else if n = 12 then ['f']
    else if n = 13 then ['r']
    else if n = 0x1b then ['e']
    else if c = '"' ∨ c = '\\' then [c]
    else if n = 0x85 then ['N']
    else if n = 0x2028 then ['L']
    else if n = 0x2029 then ['P']
    else if n ≤ 0xff then 'x' :: hex 2 n
    else if n ≤ 0xffff then 'u' :: hex 4 n
    else 'U' :: hex 8 n)

def double (cs : List Char) : String := "\"" ++ String.ofList (cs.flatMap escape) ++ "\""

def margin (indent : Nat) : String := String.ofList (List.replicate indent ' ')

/-- The rest of a text within single quotes, on a line of its own or not.  A quote is written twice,
and so is the first of some line ends if it is a line feed, which alone would read as a blank.  What
follows line ends has a margin, also the closing quote. -/
def singleFrom (margin : String) (onNewLine : Bool) : List Char → String
  | [] => (if onNewLine then margin else "") ++ "'"
  | c :: cs =>
    if isBreak c then
      (if c = '\n' ∧ onNewLine = false then "\n\n" else c.toString) ++ singleFrom margin true cs
    else
      (if onNewLine then margin else "") ++ (if c = '\'' then "''" else c.toString)
        ++ singleFrom margin false cs

def single (indent : Nat) (cs : List Char) : String :=
  "'" ++ singleFrom (margin (indent + 2)) false cs

def text (indent : Nat) (s : String) : String :=
  let cs := s.toList
  if !(PlainScalar.isReserved s || PlainScalar.isPaddedDigits cs) && canBePlain cs then s
  else if canBeSingle cs then single indent cs
  else double cs

mutual

/-- A tree on the line of its name or its dash, or below it.  Below a name the items of a list are
as deep as the name and the fields of a record are two blanks deeper. -/
def write (indent : Nat) : Data → String
  | .null => " null\n"
  | .bool b => if b then " true\n" else " false\n"
  | .nat n => " " ++ Nat.repr n ++ "\n"
  | .number x => " " ++ NumberStyle.yaml.text x ++ "\n"
  | .text s => " " ++ text indent s ++ "\n"
  | .tagged kind value => " !" ++ kind ++ write indent value
  | .list items => if items.isEmpty then " []\n" else "\n" ++ writeItems indent items
  | .record fields => "\n" ++ margin (indent + 2) ++ writeFields (indent + 2) fields

def writeItems (indent : Nat) : List Data → String
  | [] => ""
  | .record fields :: ds =>
    margin indent ++ "- " ++ writeFields (indent + 2) fields ++ writeItems indent ds
  | d :: ds => margin indent ++ "-" ++ write indent d ++ writeItems indent ds

/-- The fields of a record, the first of which is on a line that has its margin. -/
def writeFields (indent : Nat) : List (String × Data) → String
  | [] => ""
  | [(name, d)] => name ++ ":" ++ write indent d
  | (name, d) :: rest =>
    name ++ ":" ++ write indent d ++ margin indent ++ writeFields indent rest

end

end Writer

end Yaml

def Data.yaml : Data → String
  | .list items => if items.isEmpty then "[]\n" else Yaml.Writer.writeItems 0 items
  | d => Yaml.Writer.write 0 d

end Soundscape
