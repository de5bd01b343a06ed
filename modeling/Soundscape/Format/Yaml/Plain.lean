import Soundscape.Format.Yaml.Gap

/-!
# Plain words

A text without quotes is a run of words with gaps between them.  It ends before a comment, before a
colon that makes it a name, before a mark, and where a line is not deep enough; in brackets also
before whatever means something there.
-/

namespace Soundscape

namespace Yaml

/-- A plain text that was read. -/
structure PlainText where
  text : List Char
  /-- Whether the gap after it goes on to another line. -/
  endsLine : Bool
  rest : List Spot

/-- Whether a plain text can start at a spot. -/
def startsPlain (inFlow : Bool) (s : Spot) (rest : List Spot) : Bool :=
  if s.char == '-' then !startsWith isBlank rest
  else if s.char == '?' || s.char == ':' then !inFlow && !endsWord rest
  else !isWhite s.char && !indicators.contains s.char

/-- One word and what follows it.  In brackets a colon must not touch what means something there. -/
def plainWord? (inFlow : Bool) : List Spot → Option (List Char × List Spot)
  | [] => some ([], [])
  | s :: rest =>
    if isWhite s.char then some ([], s :: rest)
    else if inFlow && s.char == ':' && startsWith (fun c => isFlowMark c || c == '?') rest then none
    else if (s.char == ':' && endsWord rest) || (inFlow && isFlowMark s.char) then
      some ([], s :: rest)
    else (plainWord? inFlow rest).map fun (word, rest) => (s.char :: word, rest)

/-- The words from here on, after a gap. -/
def plainFrom (inFlow : Bool) (margin : Nat) : Nat → Gap → List Spot → Option PlainText
  | 0, _, _ => none
  | turns + 1, gap, ss =>
    if atMark ss || startsWith (· == '#') ss then some ⟨[], gap.isBroken, ss⟩
    else do
      let (word, rest) ← plainWord? inFlow ss
      if word.isEmpty then some ⟨[], gap.isBroken, ss⟩
      else
        let (next, rest) ← Gap.read? margin rest
        let more ←
          if !inFlow && rest.head?.any (fun s => s.column < margin) then
            some ⟨[], next.isBroken, rest⟩
          else plainFrom inFlow margin turns next rest
        some { more with text := gap.text ++ word ++ more.text }

/-- Reads a plain text, in brackets or not, whose further lines are as deep as a margin. -/
def plain? (inFlow : Bool) (margin : Nat) (ss : List Spot) : Option PlainText :=
  plainFrom inFlow margin (ss.length + 1) .empty ss

end Yaml

end Soundscape
