/-!
# The ChaCha stream with eight rounds

A key of eight words determines an endless stream of words: block `b` holds words `16 * b` to
`16 * b + 15`.  A position in the stream is a word index, so there is no buffer to keep.
-/

namespace Soundscape

namespace ChaCha

abbrev Block := Vector UInt32 16

abbrev Key := Vector UInt32 8

/-- A word turned left by `n` places, `0 < n < 32`. -/
def rotateLeft (x : UInt32) (n : UInt32) : UInt32 := (x <<< n) ||| (x >>> (32 - n))

/-- The quarter round on the words at four places. -/
def quarterRound (s : Block) (a b c d : Fin 16) : Block :=
  let s := s.set a (s[a] + s[b])
  let s := s.set d (rotateLeft (s[d] ^^^ s[a]) 16)
  let s := s.set c (s[c] + s[d])
  let s := s.set b (rotateLeft (s[b] ^^^ s[c]) 12)
  let s := s.set a (s[a] + s[b])
  let s := s.set d (rotateLeft (s[d] ^^^ s[a]) 8)
  let s := s.set c (s[c] + s[d])
  s.set b (rotateLeft (s[b] ^^^ s[c]) 7)

/-- A round on the columns and a round on the diagonals. -/
def doubleRound (s : Block) : Block :=
  let s := quarterRound s 0 4 8 12
  let s := quarterRound s 1 5 9 13
  let s := quarterRound s 2 6 10 14
  let s := quarterRound s 3 7 11 15
  let s := quarterRound s 0 5 10 15
  let s := quarterRound s 1 6 11 12
  let s := quarterRound s 2 7 8 13
  quarterRound s 3 4 9 14

/-- The block before any round: constants, key, counter and a zero nonce. -/
def start (key : Key) (counter : Nat) : Block :=
  #v[0x61707865, 0x3320646e, 0x79622d32, 0x6b206574,
     key[0], key[1], key[2], key[3], key[4], key[5], key[6], key[7],
     counter.toUInt32, (counter / UInt32.size).toUInt32, 0, 0]

/-- The block at a counter: four double rounds, added to the start. -/
def block (key : Key) (counter : Nat) : Block :=
  let s := start key counter
  Vector.zipWith (· + ·) (doubleRound (doubleRound (doubleRound (doubleRound s)))) s

def word (key : Key) (position : Nat) : UInt32 :=
  (block key (position / 16)).get ⟨position % 16, Nat.mod_lt _ (by decide)⟩

/-- One turn of the generator that stretches a seed: its next state. -/
def stretch (s : UInt64) : UInt64 := s * 6364136223846793005 + 11634580027462260723

/-- The word that a stretched state gives: its mixed upper half, turned right by its top bits. -/
def permuted (s : UInt64) : UInt32 :=
  let x : UInt32 := (((s >>> 18) ^^^ s) >>> 27).toUInt32
  let r : UInt32 := (s >>> 59).toUInt32
  (x >>> r) ||| (x <<< ((32 - r) &&& 31))

/-- The key that a seed stands for: eight words of the stretched seed. -/
def keyOf (seed : UInt64) : Key :=
  let s1 := stretch seed
  let s2 := stretch s1
  let s3 := stretch s2
  let s4 := stretch s3
  let s5 := stretch s4
  let s6 := stretch s5
  let s7 := stretch s6
  let s8 := stretch s7
  #v[permuted s1, permuted s2, permuted s3, permuted s4,
     permuted s5, permuted s6, permuted s7, permuted s8]

end ChaCha

end Soundscape
