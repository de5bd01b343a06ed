import Soundscape.Quantity
import Soundscape.Script.Token

/-!
# Diagnostics

A diagnostic is a problem at a line and a column.  Reading a script never stops at a problem, so a
script comes with the list of all its diagnostics.  A problem is a cause; its wording is a function
of the cause.
-/

namespace Soundscape

/-- What a header or a call should have at some point. -/
inductive Expected where
  | star
  | statementKind
  | clip
  | colon
  | group
  | groupName
  | openParen
  | closeParen
  | and
  | as
  | easeName
  | in
  | number
  | visual
  | objectPath
  deriving Repr, DecidableEq

/-- How the expected thing is called in messages. -/
def Expected.describe : Expected → String
  | star => "'*' after count"
  | statementKind => "'loop' or 'oneshot'"
  | clip => "a quoted clip name"
  | colon => "':'"
  | group => "'group'"
  | groupName => "a group name"
  | openParen => "'('"
  | closeParen => "')'"
  | and => "'and'"
  | as => "'as'"
  | easeName => "an ease name"
  | .in => "'in'"
  | number => "a number"
  | visual => "a visual tag or 'object'"
  | objectPath => "a quoted object path"

/-- What is wrong with a line. -/
inductive Problem (α : Type) where
  /-- The end of a group where none is open. -/
  | strayGroupEnd
  | emptyGroup (name : String)
  | nestedGroup
  | strayProperty
  | unrecognised (text : String)
  /-- A line in a statement that is no property. -/
  | noProperty (text : String)
  | missingValue (key : String)
  | unknownProperty (key : String)
  | notOnGroup (key : String)
  | quantity (e : QuantityError)
  | noBoolean (text : String)
  | unknownMode (text : String)
  /-- A movement with too few or too many values. -/
  | wrongArity (mode : String) (takes got : Nat)
  | emptyCoordinate (mode : String)
  | lexical (e : LexicalError)
  /-- A token other than the one expected, or none. -/
  | expected (what : Expected) (got : Option (Token α))
  /-- A count that is no positive whole number of moderate size. -/
  | badCount (value : α)
  | tooWide (low high : α)
  /-- A value that looks like a call and is none. -/
  | noFunction
  | unknownEase (name : String)
  | trailing (got : Token α)
  deriving Repr, DecidableEq

/-- How serious a problem is. -/
inductive Severity where
  | error
  | warning
  deriving Repr, DecidableEq

def Severity.name : Severity → String
  | error => "Error"
  | warning => "Warning"

namespace Problem

variable {α : Type}

def severity : Problem α → Severity
  | strayGroupEnd | emptyGroup _ => .warning
  | _ => .error

def message [Scalar α] : Problem α → String
  | strayGroupEnd => "'endgroup' without an open group"
  | emptyGroup name => "group '" ++ name ++ "' has no statements"
  | nestedGroup => "groups cannot be nested"
  | strayProperty => "property outside of a statement or group"
  | unrecognised text => "unrecognised line: " ++ text
  | noProperty text => "expected 'key = value', got: " ++ text
  | missingValue key => "missing value for '" ++ key ++ "'"
  | unknownProperty key => "unknown property '" ++ key ++ "'"
  | notOnGroup key => "'" ++ key ++ "' is not allowed on a group"
  | quantity e => e.message
  | noBoolean text => "invalid boolean '" ++ text ++ "'"
  | unknownMode text => "unknown move mode '" ++ text ++ "'"
  | wrongArity mode takes got =>
    "'" ++ mode ++ "' takes " ++ Nat.repr takes ++ " values, got " ++ Nat.repr got
  | emptyCoordinate mode => "empty value in '" ++ mode ++ "' movement"
  | lexical e => e.message
  | expected what (some got) => "expected " ++ what.describe ++ ", got " ++ got.describe
  | expected what none => "expected " ++ what.describe ++ " at end of line"
  | badCount value => "count must be a positive integer, got " ++ Scalar.text value
  | tooWide low high =>
    "range '" ++ Scalar.text low ++ ".." ++ Scalar.text high ++ "' is too wide"
  | noFunction => "expected an interpolation function"
  | unknownEase name => "unknown ease '" ++ name ++ "'"
  | trailing got => "unexpected " ++ got.describe ++ " after end of expression"

end Problem

/-- A problem and where it is. -/
structure Diagnostic (α : Type) where
  problem : Problem α
  line : Nat
  column : Nat
  deriving Repr, DecidableEq

namespace Diagnostic

variable {α : Type}

def severity (d : Diagnostic α) : Severity := d.problem.severity

def isError (d : Diagnostic α) : Bool := d.severity == .error

def text [Scalar α] (d : Diagnostic α) : String :=
  "[" ++ Nat.repr d.line ++ ":" ++ Nat.repr d.column ++ "] " ++ d.severity.name ++ ": "
    ++ d.problem.message

end Diagnostic

end Soundscape
