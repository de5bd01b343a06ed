import Soundscape.Format.Yaml.Layout
import Soundscape.Format.Yaml.Node

/-!
# Flat mappings

Settings are written as a mapping from names to values.  Only the first level of a document is
looked into: a value is a text, which may mean something else by the way it is written, or something
with parts.  A document that is no such mapping gives nothing.
-/

namespace Soundscape

/-- What the tag of a text says about it. -/
inductive TextTag where
  | null
  | bool
  | int
  | float
  | other
  deriving Repr, DecidableEq

def TextTag.ofTagText (t : Yaml.TagText) : TextTag :=
  let core (kind : String) : Yaml.TagText := ("tag:yaml.org,2002:" ++ kind).toUTF8.toList
  if t = core "null" then .null
  else if t = core "bool" then .bool
  else if t = core "int" then .int
  else if t = core "float" then .float
  else .other

/-- A value of a flat mapping. -/
inductive MappingValue where
  | scalar (style : Yaml.ScalarStyle) (tag : Option TextTag) (text : String)
  | compound
  deriving Repr, DecidableEq

namespace MappingValue

def ofNode : Yaml.Node → MappingValue
  | .scalar p style text => .scalar style (p.tag.map TextTag.ofTagText) text
  | _ => .compound

/-- The text that a value is, however it is written. -/
def text? : MappingValue → Option String
  | .scalar _ _ text => some text
  | .compound => none

/-- The word that a value is if it can mean more than a text: without quotes, or as a literal block
whose tag says what it means. -/
def word? (meaning : TextTag) : MappingValue → Option String
  | .scalar .plain _ text => some text
  | .scalar .literal (some tag) text => if tag = meaning then some text else none
  | _ => none

/-- Whether a value means nothing.  A word with the tag of nothing must be a word for it. -/
def isNothing? : MappingValue → Option Bool
  | .scalar .plain (some .null) text =>
    if PlainScalar.isNull text ∧ text ≠ "" then some true else none
  | .scalar .plain none text => some (PlainScalar.isNull text)
  | _ => some false

end MappingValue

abbrev Mapping := List (String × MappingValue)

namespace Mapping

/-- The entries of a document, whose names must be texts.  A document without content has none. -/
def ofNode? (root : Yaml.Node) : Option Mapping :=
  match root with
  | .mapping _ entries =>
    entries.mapM fun (name, value) => do
      let name ← (MappingValue.ofNode (← root.resolve? name)).text?
      some (name, .ofNode (← root.resolve? value))
  | .scalar _ .plain "" => some []
  | _ => none

/-- Reads a flat mapping.  A text without a document is an empty one. -/
def read? (cs : List Char) : Option Mapping := do
  match ← Yaml.Node.ofTokens? (← Yaml.tokens? cs) with
  | some root => ofNode? root
  | none => some []

end Mapping

end Soundscape
