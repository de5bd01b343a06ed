import Soundscape.Format.Scalar
import Soundscape.Format.Yaml.Spot

/-!
# Tags

A tag says what kind of value a node is.  It is written in full in angle brackets, or as a handle
and what follows it, where a handle stands for the first part of a tag.  A tag is a list of bytes,
since its escapes give bytes.
-/

namespace Soundscape

namespace Yaml

/-- The bytes of a tag or of a part of one. -/
abbrev TagText := List UInt8

def TagText.ofChars (cs : List Char) : TagText := (String.ofList cs).toUTF8.toList

/-- A tag as it is written. -/
structure TagName where
  /-- The handle, which is empty for a tag in full. -/
  handle : String
  suffix : TagText
  deriving Repr, DecidableEq

/-- Whether a character can stand in a tag; the characters that mean something in brackets only
where the tag is closed by other means. -/
def isTagCharacter (closed : Bool) (c : Char) : Bool :=
  isNameCharacter c
    || [';', '/', '?', ':', '@', '&', '=', '+', '$', '.', '!', '~', '*', '\'', '(', ')'].contains c
    || (closed && [',', '[', ']'].contains c)

/-- The number of bytes that follow a first byte of a character, if it is one. -/
def followers? (b : UInt8) : Option Nat :=
  if b < 0x80 then some 0
  else if b < 0xc0 then none
  else if b < 0xe0 then some 1
  else if b < 0xf0 then some 2
  else if b < 0xf8 then some 3
  else none

/-- The bytes of a tag and what follows them, after a character of which some bytes are missing.
Escaped bytes are hexadecimal numbers and come in whole characters. -/
def tagText? (closed : Bool) (missing : Nat) : List Spot → Option (TagText × List Spot)
  | [] => if missing = 0 then some ([], []) else none
  | s :: rest =>
    if s.char = '%' then
      match rest with
      | a :: b :: rest => do
        let byte := (← PlainScalar.digits? 16 [a.char, b.char]).toUInt8
        let missing ←
          if missing = 0 then followers? byte
          else if 0x80 ≤ byte ∧ byte < 0xc0 then some (missing - 1)
          else none
        let (text, rest) ← tagText? closed missing rest
        some (byte :: text, rest)
      | _ => none
    else if missing ≠ 0 then none
    else if isTagCharacter closed s.char then do
      let (text, rest) ← tagText? closed 0 rest
      some (s.char.toNat.toUInt8 :: text, rest)
    else some ([], s :: rest)

/-- The bytes up to the first that is zero. -/
def TagText.cut (t : TagText) : TagText := t.takeWhile (· != 0)

/-- A part of a tag that must not be empty, and what follows it. -/
def tagPart? (closed : Bool) (ss : List Spot) : Option (TagText × List Spot) := do
  let (text, rest) ← tagText? closed 0 ss
  if text.isEmpty then none else some (text.cut, rest)

def tagName? (ss : List Spot) : Option (TagName × List Spot) :=
  if startsWith (· == '<') ss then do
    let (text, rest) ← tagPart? true (ss.drop 1)
    if startsWith (· == '>') rest then some (⟨"", text⟩, rest.drop 1) else none
  else
    let name := chars (ss.takeWhile fun s => isNameCharacter s.char)
    let rest := ss.dropWhile fun s => isNameCharacter s.char
    if startsWith (· == '!') rest then do
      let (text, rest) ← tagPart? false (rest.drop 1)
      some (⟨"!" ++ String.ofList name ++ "!", text⟩, rest)
    else do
      let (text, rest) ← tagText? false 0 rest
      let text := (TagText.ofChars name ++ text).cut
      some (if text.isEmpty then ⟨"", TagText.ofChars ['!']⟩ else ⟨"!", text⟩, rest)

/-- Reads a tag after its exclamation mark; a word ends after it, or in brackets a comma follows. -/
def tag? (inFlow : Bool) (ss : List Spot) : Option (TagName × List Spot) := do
  let (tag, rest) ← tagName? ss
  if endsWord rest || (inFlow && startsWith (· == ',') rest) then some (tag, rest) else none

/-! ## Directives -/

/-- What a line with a percent sign says about a document. -/
inductive Directive where
  | version (major minor : Nat)
  | handle (name : String) (start : TagText)
  deriving Repr, DecidableEq

/-- A number of at most nine digits and what follows it. -/
def versionNumber? (ss : List Spot) : Option (Nat × List Spot) := do
  let ds := ss.takeWhile fun s => Numeral.isDigit s.char
  if 9 < ds.length then none
  else
    let n ← PlainScalar.digits? 10 (chars ds)
    some (n, ss.drop ds.length)

/-- A handle in full and what follows it. -/
def handle? (ss : List Spot) : Option (String × List Spot) :=
  if startsWith (· == '!') ss then
    let name := (ss.drop 1).takeWhile fun s => isNameCharacter s.char
    let rest := (ss.drop 1).drop name.length
    if startsWith (· == '!') rest then
      some ("!" ++ String.ofList (chars name) ++ "!", rest.drop 1)
    else if name.isEmpty then some ("!", rest)
    else none
  else none

/-- What a directive has after its name, and what follows that. -/
def directiveValue? (name : String) (ss : List Spot) : Option (Directive × List Spot) :=
  match name with
  | "YAML" => do
    let (major, rest) ← versionNumber? ss
    if startsWith (· == '.') rest then
      let (minor, rest) ← versionNumber? (rest.drop 1)
      some (.version major minor, rest)
    else none
  | "TAG" => do
    let (name, rest) ← handle? ss
    if startsWith isBlank rest then
      let (start, rest) ← tagPart? true (dropBlanks rest)
      if endsWord rest then some (.handle name start, rest) else none
    else none
  | _ => none

/-- Reads a directive after its percent sign, to the end of its line. -/
def directive? (ss : List Spot) : Option (Directive × List Spot) := do
  let name := ss.takeWhile fun s => isNameCharacter s.char
  let rest := ss.drop name.length
  if endsWord rest then
    let (directive, rest) ← directiveValue? (String.ofList (chars name)) (dropBlanks rest)
    some (directive, ← emptyLine? rest)
  else none

end Yaml

end Soundscape
