import Soundscape.Random.ChaCha

/-!
# Sources of random words

A source is either a seeded stream or a script of words that is replayed from its start when it
ends.  Drawing a word is a function from a source to the word and the source after it, so a run
that starts from equal sources is equal throughout.
-/

namespace Soundscape

/-- Where random words come from. -/
inductive Source where
  /-- The ChaCha stream of a key, from a position on. -/
  | stream (key : ChaCha.Key) (position : Nat)
  /-- The words in turn, again and again; `position` counts the words drawn. -/
  | script (words : List UInt64) (position : Nat)
  deriving Repr, DecidableEq

abbrev Draw := StateM Source

namespace Source

def ofSeed (seed : UInt64) : Source := .stream (ChaCha.keyOf seed) 0

/-- The script of the given words, from its start; without words it gives zeros. -/
def ofWords (words : List UInt64) : Source := .script words 0

/-- A number of draws after which the words repeat: a stream has `2 ^ 64` blocks of sixteen
words. -/
def period : Source → Nat
  | .stream _ _ => 16 * UInt64.size
  | .script words _ => max 1 words.length

/-- The next 64-bit word: two words of a stream, the low half first. -/
def next : Source → UInt64 × Source
  | .stream key position =>
    let low := ChaCha.word key position
    let high := ChaCha.word key (position + 1)
    (low.toUInt64 ||| (high.toUInt64 <<< 32), .stream key (position + 2))
  | .script words position =>
    ((words[position % words.length]?).getD 0, .script words (position + 1))

/-- The next 32-bit word: one word of a stream, the low half of a scripted word. -/
def nextHalf : Source → UInt32 × Source
  | .stream key position => (ChaCha.word key position, .stream key (position + 1))
  | .script words position =>
    (((words[position % words.length]?).getD 0).toUInt32, .script words (position + 1))

def skip : Nat → Source → Source
  | 0, s => s
  | n + 1, s => s.next.2.skip n

theorem skip_add (m n : Nat) (s : Source) : s.skip (m + n) = (s.skip m).skip n := by
  induction m generalizing s with
  | zero => rw [Nat.zero_add]; rfl
  | succ m ih => rw [Nat.succ_add]; exact ih s.next.2

end Source

namespace Draw

def word : Draw UInt64 := fun s => s.next

def half : Draw UInt32 := fun s => s.nextHalf

/-! ## Whole numbers

A number below `range` is the high part of a word times the range.  Words whose low part falls
into the last, incomplete stretch are refused, so that every number is equally likely. -/

/-- The largest low part that is accepted, for words of `bits` bits. -/
def zone (bits range : Nat) : Nat := range * Nat.pow 2 (bits - 1 - range.log2) - 1

/-- Draws until a word is accepted; the last of the turns takes any word. -/
def scaled (bits range : Nat) (draw : Draw Nat) : Nat → Draw Nat
  | 0 => do
    let v ← draw
    pure (v * range / Nat.pow 2 bits)
  | turns + 1 => do
    let v ← draw
    if v * range % Nat.pow 2 bits ≤ zone bits range then pure (v * range / Nat.pow 2 bits)
    else scaled bits range draw turns

/-- How many words are refused at most: a source that refuses a whole period refuses for ever. -/
def turns (s : Source) : Nat := s.period

/-- A number from `low` to `high`, both included, for `low ≤ high < 2 ^ 64`. -/
def between (low high : Nat) : Draw Nat := fun s =>
  let range := high - low + 1
  if range = UInt64.size then
    let (v, s) := s.next
    (v.toNat, s)
  else
    let (k, s) := scaled 64 range (UInt64.toNat <$> word) (turns s) s
    (low + k, s)

/-- A number below `range`, for `0 < range < 2 ^ 32`. -/
def below (range : Nat) : Draw Nat := fun s =>
  scaled 32 range (UInt32.toNat <$> half) (turns s) s

/-- A place in a list of a length that is not zero. -/
def index (length : Nat) : Draw Nat :=
  if length < UInt32.size then below length else between 0 (length - 1)

/-- One of the members of a list, and nothing is drawn when it has none. -/
def choose {A : Type} (xs : List A) : Draw (Option A) := fun s =>
  if xs.isEmpty then (none, s)
  else
    let (i, s) := index xs.length s
    (xs[i]?, s)

end Draw

end Soundscape
