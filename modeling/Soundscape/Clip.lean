import Soundscape.Number.Numeral
import Soundscape.Random.Source
import Soundscape.Text.Blank

/-!
# Clip references

A clip reference can leave a choice.  The alternatives between `|` are equally likely.  An
alternative whose last path segment ends in two numbers with `to` or `..` between them stands for
all numbers from the one to the other; a leading zero of the first number fixes the width.
-/

namespace Soundscape

namespace Clip

open Numeral (isDigit natural)

/-- The alternatives of a reference: what is not blank between the bars, without blanks at the
ends. -/
def alternatives (reference : List Char) : List (List Char) :=
  ((Text.pieces (· == '|') reference).map Text.trim).filter fun a => !a.isEmpty

/-- The text before an ending `..` or `to`. -/
def beforeJoint? (cs : List Char) : Option (List Char) :=
  match cs.reverse with
  | '.' :: '.' :: rest | 'o' :: 't' :: rest => some rest.reverse
  | _ => none

/-- A segment that ends in two joined numbers: what stands before them, and their digits. -/
structure Numbered where
  stem : List Char
  first : List Char
  last : List Char
  deriving Repr, DecidableEq

/-- Takes a segment apart that ends in two joined numbers. -/
def numbered? (segment : List Char) : Option Numbered :=
  let last := Text.ending isDigit segment
  if last.isEmpty then none
  else do
    let joined ← beforeJoint? (Text.trimEnd (Text.dropEnding isDigit segment))
    let rest := Text.trimEnd joined
    let first := Text.ending isDigit rest
    if first.isEmpty then none
    else some ⟨Text.dropEnding isDigit rest, first, last⟩

/-- The part of a path up to its last `/`, and the last segment. -/
def splitPath (path : List Char) : List Char × List Char :=
  (Text.dropEnding (· != '/') path, Text.ending (· != '/') path)

/-- The width that the digits of a first number ask for. -/
def width (first : List Char) : Nat :=
  if 1 < first.length ∧ first.head? = some '0' then first.length else 0

/-- A natural number with at least `width` digits. -/
def padded (width n : Nat) : List Char :=
  let ds := Nat.toDigits 10 n
  List.replicate (width - ds.length) '0' ++ ds

/-- The least natural number that is too large for the numbers of a reference. -/
def limit : Nat := UInt64.size

/-- One path of an alternative. -/
def pick (alternative : List Char) : Draw (List Char) :=
  let (dir, segment) := splitPath alternative
  match numbered? segment with
  | some x =>
    let a := natural x.first
    let b := natural x.last
    if a < limit ∧ b < limit then do
      let n ← Draw.between (min a b) (max a b)
      pure (dir ++ x.stem ++ padded (width x.first) n)
    else pure alternative
  | none => pure alternative

/-- The clip that a reference stands for this time. -/
def resolve (reference : String) : Draw String := do
  let chosen ← Draw.choose (alternatives reference.toList)
  String.ofList <$> pick (chosen.getD reference.toList)

end Clip

end Soundscape
