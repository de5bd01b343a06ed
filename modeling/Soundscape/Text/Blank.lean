/-!
# Blank characters, and trimming

The blank characters are those with the property White_Space.  Trimming removes them from the
ends of a text.  Texts are lists of characters here, so that positions are plain counts.
-/

namespace Soundscape

def isBlank (c : Char) : Bool :=
  let n := c.toNat
  (9 ≤ n && n ≤ 13) || n == 0x20 || n == 0x85 || n == 0xa0 || n == 0x1680
    || (0x2000 ≤ n && n ≤ 0x200a) || n == 0x2028 || n == 0x2029 || n == 0x202f || n == 0x205f
    || n == 0x3000

namespace Text

def trimStart (cs : List Char) : List Char := cs.dropWhile isBlank

/-- The longest end of a text whose characters all satisfy `p`. -/
def ending (p : Char → Bool) (cs : List Char) : List Char :=
  (cs.reverse.takeWhile p).reverse

/-- The text without the longest end whose characters all satisfy `p`. -/
def dropEnding (p : Char → Bool) (cs : List Char) : List Char :=
  (cs.reverse.dropWhile p).reverse

def trimEnd (cs : List Char) : List Char := dropEnding isBlank cs

def trim (cs : List Char) : List Char := trimEnd (trimStart cs)

/-- The pieces between the characters that satisfy `p`; one more than there are such characters. -/
def pieces (p : Char → Bool) : List Char → List (List Char)
  | [] => [[]]
  | c :: cs =>
    if p c then [] :: pieces p cs
    else match pieces p cs with
      | [] => [[c]]
      | first :: rest => (c :: first) :: rest

/-- The number of bytes that a text takes. -/
def bytes : List Char → Nat
  | [] => 0
  | c :: cs => c.utf8Size + bytes cs

def lower (cs : List Char) : List Char := cs.map Char.toLower

end Text

/-! ## Small laws -/

namespace Text

theorem pieces_ne_nil (p : Char → Bool) (cs : List Char) : pieces p cs ≠ [] := by
  induction cs with
  | nil => simp [pieces]
  | cons c cs ih =>
    unfold pieces
    split
    · simp
    · split <;> simp

theorem dropEnding_append_ending (p : Char → Bool) (cs : List Char) :
    dropEnding p cs ++ ending p cs = cs := by
  unfold dropEnding ending
  rw [← List.reverse_append, List.takeWhile_append_dropWhile, List.reverse_reverse]

end Text

end Soundscape
