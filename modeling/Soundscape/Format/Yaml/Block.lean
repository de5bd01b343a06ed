import Soundscape.Format.Yaml.Spot

/-!
# Block texts

A block text is a run of lines that are equally deep.  A literal one keeps its line ends; in a
folded one a line end between two lines that do not start with a blank reads as a blank.  What is
kept of the line ends after the last line is said in its header.
-/

namespace Soundscape

namespace Yaml

/-- What is kept of the line ends after the last line. -/
inductive Chomping where
  | strip
  | clip
  | keep
  deriving Repr, DecidableEq

/-- The header of a block text. -/
structure BlockHeader where
  chomping : Chomping
  /-- How much deeper than its margin the text is, or zero if the lines themselves show it. -/
  depth : Nat

/-- A sign for what is kept, and what follows it. -/
def chomping? (ss : List Spot) : Option (Chomping × List Spot) :=
  match ss with
  | s :: rest =>
    if s.char = '-' then some (.strip, rest)
    else if s.char = '+' then some (.keep, rest)
    else none
  | [] => none

/-- A digit for the depth, and what follows it. -/
def depth? (ss : List Spot) : Option (Nat × List Spot) :=
  match ss with
  | s :: rest =>
    if '1' ≤ s.char ∧ s.char ≤ '9' then some (s.char.toNat - '0'.toNat, rest) else none
  | [] => none

/-- Reads a header to the end of its line: a sign and a digit in either order. -/
def blockHeader? (ss : List Spot) : Option (BlockHeader × List Spot) :=
  let (header, rest) : BlockHeader × List Spot :=
    match chomping? ss with
    | some (chomping, rest) =>
      match depth? rest with
      | some (depth, rest) => (⟨chomping, depth⟩, rest)
      | none => (⟨chomping, 0⟩, rest)
    | none =>
      match depth? ss with
      | some (depth, rest) =>
        match chomping? rest with
        | some (chomping, rest) => (⟨chomping, depth⟩, rest)
        | none => (⟨.clip, depth⟩, rest)
      | none => (⟨.clip, 0⟩, ss)
  (emptyLine? rest).map fun rest => (header, rest)

/-- What stands between two lines of a block text. -/
structure Indentation where
  breaks : List Char
  deepest : Nat
  rest : List Spot

/-- Reads line ends and the blanks in front of lines up to a depth, or all of them if the depth is
zero.  A tab must not stand among those blanks. -/
def indentation? (depth : Nat) : List Spot → Option Indentation
  | [] => some ⟨[], 0, []⟩
  | s :: rest =>
    if isBreak s.char then
      (indentation? depth rest).map fun i => { i with breaks := s.char :: i.breaks }
    else if (depth == 0 || s.column < depth) && s.char == ' ' then
      (indentation? depth rest).map fun i => { i with deepest := max i.deepest (s.column + 1) }
    else if (depth == 0 || s.column < depth) && s.char == '\t' then none
    else some ⟨[], 0, s :: rest⟩

/-- A block text that was read. -/
structure BlockText where
  text : List Char
  lineEnd : List Char
  breaks : List Char
  rest : List Spot

/-- The lines from here on, after the end of a line, further line ends, and a line that starts with
a blank or does not. -/
def linesFrom (folded : Bool) (depth : Nat) :
    Nat → List Char → List Char → Bool → List Spot → Option BlockText
  | 0, _, _, _, _ => none
  | turns + 1, lineEnd, breaks, afterBlank, ss =>
    if ss.head?.any fun s => s.column == depth then do
      let startsBlank := startsWith isBlank ss
      let join :=
        if folded && lineEnd == ['\n'] && !afterBlank && !startsBlank then
          if breaks.isEmpty then [' '] else []
        else lineEnd
      let line := ss.takeWhile fun s => !isBreak s.char
      let after := ss.dropWhile fun s => !isBreak s.char
      let i ← indentation? depth (after.drop 1)
      let more ← linesFrom folded depth turns (chars (after.take 1)) i.breaks startsBlank i.rest
      some { more with text := join ++ breaks ++ chars line ++ more.text }
    else some ⟨[], lineEnd, breaks, ss⟩

/-- Reads a block text after the character that announces it: what it reads as and what follows it.
If its lines show its depth, that is the greatest up to the first line that is not empty. -/
def block? (folded : Bool) (margin : Nat) (ss : List Spot) : Option (List Char × List Spot) := do
  let (header, rest) ← blockHeader? ss
  let given := if header.depth = 0 then 0 else margin - 1 + header.depth
  let i ← indentation? given rest
  let depth := if given = 0 then max i.deepest (max margin 1) else given
  let b ← linesFrom folded depth (rest.length + 1) [] i.breaks false i.rest
  let kept := match header.chomping with
    | .strip => []
    | .clip => b.lineEnd
    | .keep => b.lineEnd ++ b.breaks
  some (b.text ++ kept, b.rest)

end Yaml

end Soundscape
