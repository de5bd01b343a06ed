import Soundscape.Format.Scalar
import Soundscape.Format.Yaml.Gap

/-!
# Quoted texts

In single quotes a quote is written twice and all else stands for itself.  In double quotes a
backslash starts an escape, and at the end of a line it takes the line end away.  In both, words
may be set on several lines.
-/

namespace Soundscape

namespace Yaml

/-- The character that a one-letter escape stands for. -/
def escaped? (c : Char) : Option Char :=
  List.lookup c
    [('0', '\x00'), ('a', '\x07'), ('b', '\x08'), ('t', '\t'), ('\t', '\t'), ('n', '\n'),
     ('v', '\x0b'), ('f', '\x0c'), ('r', '\r'), ('e', '\x1b'), (' ', ' '), ('"', '"'), ('/', '/'),
     ('\\', '\\'), ('N', '\u0085'), ('_', '\u00a0'), ('L', '\u2028'), ('P', '\u2029')]

/-- The number of digits of an escape by number. -/
def escapeWidth? (c : Char) : Option Nat := List.lookup c [('x', 2), ('u', 4), ('U', 8)]

/-- The character with a number, if there is one. -/
def charOf? (n : Nat) : Option Char := if n.isValidChar then some (Char.ofNat n) else none

/-- An escape after its backslash: what it stands for and what follows it. -/
def escape? (s : Spot) (rest : List Spot) : Option (List Char × List Spot) :=
  if isBreak s.char then (Gap.read? 0 rest).map fun (gap, rest) => (gap.breaks, rest)
  else match escaped? s.char, escapeWidth? s.char with
    | some c, _ => some ([c], rest)
    | none, some width =>
      if rest.length < width then none
      else do
        let c ← charOf? (← PlainScalar.digits? 16 (chars (rest.take width)))
        some ([c], rest.drop width)
    | none, none => none

/-- The rest of a text in single quotes: what it reads as and what follows it. -/
def singleFrom : Nat → List Spot → Option (List Char × List Spot)
  | 0, _ => none
  | turns + 1, ss =>
    match ss with
    | [] => none
    | s :: rest => do
      if atMark ss then none
      else if s.char = '\'' then
        if startsWith (· == '\'') rest then
          let (text, rest) ← singleFrom turns (rest.drop 1)
          some ('\'' :: text, rest)
        else some ([], rest)
      else
        let (part, rest) ←
          if isWhite s.char then (Gap.read? 0 ss).map fun (gap, rest) => (gap.text, rest)
          else some ([s.char], rest)
        let (text, rest) ← singleFrom turns rest
        some (part ++ text, rest)

/-- The rest of a text in double quotes: what it reads as and what follows it. -/
def doubleFrom : Nat → List Spot → Option (List Char × List Spot)
  | 0, _ => none
  | turns + 1, ss =>
    match ss with
    | [] => none
    | s :: rest => do
      if atMark ss then none
      else if s.char = '"' then some ([], rest)
      else
        let (part, rest) ←
          if s.char = '\\' then
            match rest with
            | [] => none
            | e :: rest => escape? e rest
          else if isWhite s.char then (Gap.read? 0 ss).map fun (gap, rest) => (gap.text, rest)
          else some ([s.char], rest)
        let (text, rest) ← doubleFrom turns rest
        some (part ++ text, rest)

/-- Reads a text in single quotes after the first of them. -/
def single? (ss : List Spot) : Option (List Char × List Spot) := singleFrom (ss.length + 1) ss

/-- Reads a text in double quotes after the first of them. -/
def double? (ss : List Spot) : Option (List Char × List Spot) := doubleFrom (ss.length + 1) ss

end Yaml

end Soundscape
