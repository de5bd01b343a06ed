import Soundscape.Number.Scalar
import Soundscape.Text.Alphabetic
import Soundscape.Text.Blank

/-!
# The tokens of a line

Headers, interpolation calls and lists of visuals are read as tokens: keywords in any case, names,
numbers, quoted strings and marks.
-/

namespace Soundscape

/-- The reserved words. -/
inductive Keyword where
  | loop
  | oneshot
  | every
  | group
  | endgroup
  | and
  | as
  | in
  | for
  | ever
  | forever
  | object
  deriving Repr, DecidableEq

namespace Keyword

def word : Keyword → String
  | loop => "loop"
  | oneshot => "oneshot"
  | every => "every"
  | group => "group"
  | endgroup => "endgroup"
  | and => "and"
  | as => "as"
  | .in => "in"
  | .for => "for"
  | ever => "ever"
  | forever => "forever"
  | object => "object"

def all : List Keyword :=
  [loop, oneshot, every, group, endgroup, and, as, .in, .for, ever, forever, object]

/-- The reserved word that a word is, in any ASCII case. -/
def ofWord? (cs : List Char) : Option Keyword :=
  all.find? fun k => k.word.toList == Text.lower cs

end Keyword

/-- A token. -/
inductive Token (α : Type) where
  | keyword (k : Keyword)
  | ident (name : String)
  | number (value : α)
  | str (text : String)
  | star
  | colon
  | comma
  | equals
  | openParen
  | closeParen
  /-- The mark `..` between the ends of a range. -/
  | dots
  deriving Repr, DecidableEq

def Token.describe {α : Type} [Scalar α] : Token α → String
  | keyword k => "keyword '" ++ k.word ++ "'"
  | ident name => "'" ++ name ++ "'"
  | number value => "number " ++ Scalar.text value
  | str text => "\"" ++ text ++ "\""
  | star => "'*'"
  | colon => "':'"
  | comma => "','"
  | equals => "'='"
  | openParen => "'('"
  | closeParen => "')'"
  | dots => "'..'"

/-- A token and the column of its first character. -/
structure Placed (α : Type) where
  token : Token α
  column : Nat
  deriving Repr, DecidableEq

/-- Why no token can be read. -/
inductive LexicalError where
  | unexpected (c : Char)
  | unmatchedQuote
  | invalidNumber (text : String)
  deriving Repr, DecidableEq

def LexicalError.message : LexicalError → String
  | unexpected c => "unexpected character: '" ++ String.singleton c ++ "'"
  | unmatchedQuote => "unmatched quote"
  | invalidNumber text => "invalid number: " ++ text

/-! ## Reading tokens -/

/-- A token and the number of its characters after the first. -/
structure Lexeme (α : Type) where
  token : Token α
  more : Nat
  deriving Repr

namespace Token

variable {α : Type} [Scalar α]

open Numeral (isDigit)

/-- The characters of the number at the head of a text: a sign, digits, and a point with digits
unless the point is the first of two. -/
def numberText (cs : List Char) : List Char :=
  let sign := cs.take (if cs.head? = some '-' then 1 else 0)
  let rest := cs.drop sign.length
  let whole := rest.takeWhile isDigit
  match rest.dropWhile isDigit with
  | '.' :: '.' :: _ => sign ++ whole
  | '.' :: fraction => sign ++ whole ++ '.' :: fraction.takeWhile isDigit
  | _ => sign ++ whole

def inWord (c : Char) : Bool := isWordCharacter c || c == '_'

def ofWord (cs : List Char) : Token α :=
  match Keyword.ofWord? cs with
  | some k => keyword k
  | none => ident (String.ofList cs)

/-- The quoted string whose text and end follow its opening quote. -/
def lexString (cs : List Char) : Except LexicalError (Lexeme α) :=
  let text := cs.takeWhile (· != '"')
  if text.length = cs.length then .error .unmatchedQuote
  else .ok ⟨str (String.ofList text), text.length + 1⟩

/-- The number at the head of a text. -/
def lexNumber (cs : List Char) : Except LexicalError (Lexeme α) :=
  let text := numberText cs
  match (Numeral.read? text).bind Scalar.ofNumeral? with
  | some v => .ok ⟨number v, text.length - 1⟩
  | none => .error (.invalidNumber (String.ofList text))

/-- The token that starts with the character `c`, which is not blank, and goes on in `cs`. -/
def lexeme (c : Char) (cs : List Char) : Except LexicalError (Lexeme α) :=
  let next := cs.head?
  if c = '*' then .ok ⟨star, 0⟩
  else if c = ':' then .ok ⟨colon, 0⟩
  else if c = ',' then .ok ⟨comma, 0⟩
  else if c = '=' then .ok ⟨equals, 0⟩
  else if c = '(' then .ok ⟨openParen, 0⟩
  else if c = ')' then .ok ⟨closeParen, 0⟩
  else if c = '"' then lexString cs
  else if c = '.' ∧ next = some '.' then .ok ⟨dots, 1⟩
  else if c = '.' ∧ next.any isDigit then lexNumber (c :: cs)
  else if c = '-' ∧ next.any (fun d => isDigit d || d == '.') then lexNumber (c :: cs)
  else if isDigit c then lexNumber (c :: cs)
  else if isAlphabetic c ∨ c = '_' then
    let more := cs.takeWhile inWord
    .ok ⟨ofWord (c :: more), more.length⟩
  else .error (.unexpected c)

/-- The tokens of a text whose first character stands at the given column; or the first error, with
the column of the character where its token would start. -/
def tokenize (column : Nat) : List Char → Except (LexicalError × Nat) (List (Placed α))
  | [] => .ok []
  | c :: cs =>
    if isBlank c then tokenize (column + 1) cs
    else match lexeme c cs with
      | .error e => .error (e, column)
      | .ok x => do
        let rest ← tokenize (column + 1 + x.more) (cs.drop x.more)
        return ⟨x.token, column⟩ :: rest
  termination_by cs => cs.length
  decreasing_by all_goals simp [List.length_drop]; try omega

end Token

end Soundscape
