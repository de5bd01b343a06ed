import Soundscape.Format.Yaml.Tag

/-!
# Tokens

A text in block style is read as a list of tokens.  Some of them stand in the text as marks; others
stand for how deep a line is, which opens and closes blocks, or for a colon that comes later and
makes a name of what is before it.
-/

namespace Soundscape

namespace Yaml

/-- How a text is written. -/
inductive ScalarStyle where
  | plain
  | quoted
  | literal
  | folded
  deriving Repr, DecidableEq

/-- A token. -/
inductive Token where
  | directive (d : Directive)
  | documentStart
  | documentEnd
  /-- The depth at which the items of a block list stand is reached. -/
  | openItems
  /-- The depth at which the names of a block mapping stand is reached. -/
  | openEntries
  | closeBlock
  | openBracket
  | closeBracket
  | openBrace
  | closeBrace
  | comma
  | item
  | key
  | value
  | alias (name : String)
  | anchor (name : String)
  | tag (name : TagName)
  | scalar (style : ScalarStyle) (text : String)
  deriving Repr, DecidableEq

/-- The characters that may follow the name of an anchor, beside those that end a word. -/
def anchorEnds : List Char := ['?', ':', ',', ']', '\x7d', '%', '@', '\x60']

/-- Reads the name of an anchor and gives what follows it. -/
def anchorName? (ss : List Spot) : Option (String × List Spot) :=
  let name := ss.takeWhile fun s => isNameCharacter s.char
  let rest := ss.drop name.length
  if !name.isEmpty && (endsWord rest || startsWith anchorEnds.contains rest) then
    some (String.ofList (chars name), rest)
  else none

end Yaml

end Soundscape
