import Soundscape.Format.Yaml.Spot

/-!
# Gaps

The words of a text may be set on several lines.  A gap is what separates two of them; it reads as
a blank where the line was ended once, and as the further line ends where it was ended more often.
-/

namespace Soundscape

namespace Yaml

/-- What separates two words. -/
structure Gap where
  blanks : List Char
  breaks : List Char
  deriving Repr, DecidableEq

namespace Gap

def empty : Gap := ⟨[], []⟩

def isBroken (g : Gap) : Bool := !g.breaks.isEmpty

def text (g : Gap) : List Char :=
  match g.breaks with
  | [] => g.blanks
  | ['\n'] => [' ']
  | '\n' :: more => more
  | breaks => breaks

/-- Reads a gap and gives what follows.  A tab must not stand on a further line left of a margin. -/
def read? (margin : Nat) (ss : List Spot) : Option (Gap × List Spot) :=
  let further := (dropBlanks ss).takeWhile fun s => isWhite s.char
  if further.any fun s => s.char == '\t' && s.column < margin then none
  else some (⟨chars (ss.takeWhile fun s => isBlank s.char), (chars further).filter isBreak⟩,
    ss.dropWhile fun s => isWhite s.char)

end Gap

end Yaml

end Soundscape
