import Soundscape.Format.Yaml.Block
import Soundscape.Format.Yaml.Plain
import Soundscape.Format.Yaml.Quoted
import Soundscape.Format.Yaml.Token

/-!
# Layout

Tokens are read from left to right.  What has to be remembered on the way is the layout: the depths
of the blocks that are open, and for each open bracket the place of a token that turns out to be
part of a name if a colon follows it.
-/

namespace Soundscape

namespace Yaml

/-- A token that may be the start of a name. -/
structure Candidate where
  index : Nat
  spot : Spot
  required : Bool

/-- What has been read. -/
structure Layout where
  rest : List Spot
  tokens : Array Token
  /-- The open blocks from the innermost one, each by the columns up to its own. -/
  margins : List Nat
  candidate : Option Candidate
  /-- The candidates outside the open brackets, from the innermost one. -/
  outer : List (Option Candidate)
  keyAllowed : Bool

namespace Layout

def start (ss : List Spot) : Layout := ⟨ss, #[], [], none, [], true⟩

def inFlow (l : Layout) : Bool := !l.outer.isEmpty

/-- The columns up to that of the innermost block. -/
def margin (l : Layout) : Nat := l.margins.headD 0

/-- Adds a token, after which there is a text to read and a name may start or not. -/
def push (l : Layout) (t : Token) (rest : List Spot) (keyAllowed : Bool) : Layout :=
  { l with tokens := l.tokens.push t, rest, keyAllowed }

/-! ## Blocks -/

/-- Opens a block at a column, unless it is open, in front of the token with an index. -/
def openBlock (l : Layout) (t : Token) (column index : Nat) : Layout :=
  if !l.inFlow && l.margin ≤ column then
    { l with
      margins := (column + 1) :: l.margins,
      tokens := (l.tokens.take index).push t ++ l.tokens.drop index }
  else l

/-- Opens a block in front of the next token, if one may start there. -/
def startBlock? (l : Layout) (t : Token) (column : Nat) : Option Layout :=
  if l.inFlow then some l
  else if l.keyAllowed then some (l.openBlock t column l.tokens.size)
  else none

def closeBlocks (l : Layout) (margin : Nat) : Layout :=
  if l.inFlow then l
  else
    let closed := l.margins.takeWhile (margin < ·)
    { l with
      margins := l.margins.drop closed.length,
      tokens := l.tokens ++ closed.map fun _ => Token.closeBlock }

/-! ## Names -/

/-- No candidate any more; one that is required must not be given up. -/
def dropCandidate? (l : Layout) : Option Layout :=
  if l.candidate.any Candidate.required then none else some { l with candidate := none }

/-- The next token as the candidate, if a name may start there. -/
def addCandidate? (l : Layout) (s : Spot) : Option Layout :=
  if l.keyAllowed then do
    let l ← l.dropCandidate?
    let required := !l.inFlow && l.margin == s.column + 1
    some { l with candidate := some ⟨l.tokens.size, s, required⟩ }
  else some l

/-- The longest way from the start of a name to its colon, in bytes. -/
def longestName : Nat := 1024

/-- Whether a candidate is on another line than a spot or too far before it. -/
def isStale (s : Spot) (c : Candidate) : Bool :=
  c.spot.line < s.line || c.spot.offset + longestName < s.offset

/-- The layout without stale candidates, none of which must be required. -/
def dropStale? (l : Layout) (s : Spot) : Option Layout :=
  if (l.candidate :: l.outer).any fun c => c.any fun c => isStale s c && c.required then none
  else
    let fresh (c : Option Candidate) : Option Candidate := c.filter fun c => !isStale s c
    some { l with candidate := fresh l.candidate, outer := l.outer.map fresh }

/-! ## Between tokens -/

/-- Whether a spot is a mark of byte order at the start of a line. -/
def isByteOrderMark (s : Spot) : Bool := s.char.toNat == 0xfeff && s.column == 0

/-- The text without blanks, line ends and comments in front, and whether a name may start there. A
tab must not stand where a name may start. -/
def skip (inFlow inComment keyAllowed : Bool) : List Spot → List Spot × Bool
  | [] => ([], keyAllowed)
  | s :: rest =>
    if isBreak s.char then skip inFlow false (keyAllowed || !inFlow) rest
    else if inComment || isByteOrderMark s || s.char == ' '
        || (s.char == '\t' && (inFlow || !keyAllowed)) then
      skip inFlow inComment keyAllowed rest
    else if s.char == '#' then skip inFlow true keyAllowed rest
    else (s :: rest, keyAllowed)

/-- The layout at the next token: what is stale is dropped, and the blocks that are deeper than the
token are closed. -/
def toToken? (l : Layout) : Option Layout :=
  let (rest, keyAllowed) := skip l.inFlow false l.keyAllowed l.rest
  let l := { l with rest, keyAllowed }
  match rest with
  | [] => some l
  | s :: _ => (l.dropStale? s).map fun l => l.closeBlocks (s.column + 1)

/-! ## Tokens -/

/-- A mark on a line of its own, which ends all blocks. -/
def mark? (l : Layout) (t : Token) (rest : List Spot) : Option Layout := do
  some ((← (l.closeBlocks 0).dropCandidate?).push t rest false)

def opening? (l : Layout) (t : Token) (s : Spot) (rest : List Spot) : Option Layout := do
  let l ← l.addCandidate? s
  some ({ l with candidate := none, outer := l.candidate :: l.outer }.push t rest true)

def closing? (l : Layout) (t : Token) (rest : List Spot) : Option Layout := do
  let l ← l.dropCandidate?
  let l := match l.outer with
    | [] => l
    | c :: outer => { l with candidate := c, outer }
  some (l.push t rest false)

/-- A colon after a name.  If there is a candidate the name starts there, and so does a block
mapping whose depth is new. -/
def colon? (l : Layout) (s : Spot) (rest : List Spot) : Option Layout :=
  match l.candidate with
  | some c =>
    let tokens := (l.tokens.take c.index).push .key ++ l.tokens.drop c.index
    let l := { l with candidate := none, tokens }.openBlock .openEntries c.spot.column c.index
    some (l.push .value rest false)
  | none => do
    let l ← l.startBlock? .openEntries s.column
    some (l.push .value rest (!l.inFlow))

/-- A token that may be the start of a name. -/
def word? (l : Layout) (s : Spot) (t : Token) (rest : List Spot) : Option Layout := do
  some ((← l.addCandidate? s).push t rest false)

def quoted? (l : Layout) (s : Spot) (text? : Option (List Char × List Spot)) : Option Layout := do
  let (text, rest) ← text?
  l.word? s (.scalar .quoted (String.ofList text)) rest

def block? (l : Layout) (folded : Bool) (rest : List Spot) : Option Layout := do
  let l ← l.dropCandidate?
  let (text, rest) ← Yaml.block? folded l.margin rest
  some (l.push (.scalar (if folded then .folded else .literal) (String.ofList text)) rest true)

def plain? (l : Layout) (s : Spot) (rest : List Spot) : Option Layout :=
  if startsPlain l.inFlow s rest then do
    let p ← Yaml.plain? l.inFlow l.margin (s :: rest)
    let l ← l.word? s (.scalar .plain (String.ofList p.text)) p.rest
    some { l with keyAllowed := p.endsLine }
  else none

/-- Reads a mark on a line of its own. -/
def line? (l : Layout) (s : Spot) (rest : List Spot) : Option Layout :=
  if s.char = '%' then do
    let l ← (l.closeBlocks 0).dropCandidate?
    let (directive, rest) ← directive? rest
    some (l.push (.directive directive) rest false)
  else l.mark? (if s.char = '-' then .documentStart else .documentEnd) (rest.drop 2)

/-- Reads a token that is no mark on a line of its own. -/
def token? (l : Layout) (s : Spot) (rest : List Spot) : Option Layout :=
  match s.char with
  | '[' => l.opening? .openBracket s rest
  | ']' => l.closing? .closeBracket rest
  | '\x7b' => l.opening? .openBrace s rest
  | '\x7d' => l.closing? .closeBrace rest
  | ',' => do some ((← l.dropCandidate?).push .comma rest true)
  | '-' =>
    if endsWord rest then do
      some ((← (← l.startBlock? .openItems s.column).dropCandidate?).push .item rest true)
    else l.plain? s rest
  | '?' =>
    if l.inFlow || endsWord rest then do
      let l ← (← l.startBlock? .openEntries s.column).dropCandidate?
      some (l.push .key rest (!l.inFlow))
    else l.plain? s rest
  | ':' => if l.inFlow || endsWord rest then l.colon? s rest else l.plain? s rest
  | '*' => do
    let (name, rest) ← anchorName? rest
    l.word? s (.alias name) rest
  | '&' => do
    let (name, rest) ← anchorName? rest
    l.word? s (.anchor name) rest
  | '!' => do
    let (name, rest) ← tag? l.inFlow rest
    l.word? s (.tag name) rest
  | '|' => if l.inFlow then none else l.block? false rest
  | '>' => if l.inFlow then none else l.block? true rest
  | '\'' => l.quoted? s (single? rest)
  | '"' => l.quoted? s (double? rest)
  | _ => l.plain? s rest

def finish? : Nat → Layout → Option (List Token)
  | 0, _ => none
  | turns + 1, l => do
    let l ← l.toToken?
    match l.rest with
    | [] => some (← (l.closeBlocks 0).dropCandidate?).tokens.toList
    | s :: rest =>
      let isLine := (s.char == '%' && s.column == 0) || atMark l.rest
      finish? turns (← if isLine then l.line? s rest else l.token? s rest)

end Layout

def tokens? (cs : List Char) : Option (List Token) := do
  let ss ← spots? cs
  (Layout.start ss).finish? (ss.length + 1)

end Yaml

end Soundscape
