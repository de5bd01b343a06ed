import Soundscape.Files
import Soundscape.Format.Mapping
import Soundscape.Session
import Soundscape.Text.Blank

/-!
# Configuration

Settings that are the same from session to session are kept in a file.  A file that is not there
and a file without content stand for the defaults, as do settings that are not written.
-/

namespace Soundscape

/-- The settings of a session. -/
structure Config (α : Type) where
  /-- The seed; without one each session has its own. -/
  seed : Option UInt64
  tickSeconds : α
  clipRoot : Option String
  /-- The length of a clip whose length is not known. -/
  defaultClipSeconds : α
  strictEasing : Bool

/-- Why a configuration cannot be used. -/
inductive ConfigError where
  | unreadable (path : String) (e : ReadError)
  | malformed (path : String)
  | badTick (path : String)
  | badClipSeconds (path : String)
  deriving Repr, DecidableEq

def ConfigError.message : ConfigError → String
  | unreadable path e => "failed to read " ++ path ++ ": " ++ e.message
  | malformed path => "invalid config " ++ path ++ ": not a mapping of settings"
  | badTick path => "invalid config " ++ path ++ ": tick_seconds must be positive"
  | badClipSeconds path =>
    "invalid config " ++ path ++ ": default_clip_seconds must not be negative"

namespace Config

variable {α : Type} [Scalar α]

def default : Config α := ⟨none, 0.02, none, Scheduler.defaultFallback, false⟩

/-- A setting that may mean nothing, else as `read` reads it. -/
def optional? {A : Type} (read : MappingValue → Option A) (value : MappingValue) :
    Option (Option A) := do
  if ← value.isNothing? then some none else some (some (← read value))

def seed? (value : MappingValue) : Option UInt64 := do
  let n ← PlainScalar.natural? (← value.word? .int).toList
  if n < UInt64.size then some n.toUInt64 else none

def number? (value : MappingValue) : Option α := do
  Scalar.ofNumeral? (← PlainScalar.number? (← value.word? .float).toList)

def bool? (value : MappingValue) : Option Bool := do
  PlainScalar.bool? (← value.word? .bool)

/-- The settings with one of them as written. -/
def set (c : Config α) (name : String) (value : MappingValue) : Option (Config α) :=
  match name with
  | "seed" => (optional? seed? value).map fun seed => { c with seed }
  | "tick_seconds" => (number? value).map fun tickSeconds => { c with tickSeconds }
  | "clip_root" => (optional? MappingValue.text? value).map fun clipRoot => { c with clipRoot }
  | "default_clip_seconds" =>
    (number? value).map fun defaultClipSeconds => { c with defaultClipSeconds }
  | "strict_easing" => (bool? value).map fun strictEasing => { c with strictEasing }
  | _ => some c

def names : List String :=
  ["seed", "tick_seconds", "clip_root", "default_clip_seconds", "strict_easing"]

def isUnambiguous (m : Mapping) : Bool :=
  names.all fun name => (m.filter fun entry => entry.1 == name).length ≤ 1

def ofMapping? (m : Mapping) : Option (Config α) :=
  if isUnambiguous m then
    m.foldl (fun c? entry => c?.bind fun c => c.set entry.1 entry.2) (some default)
  else none

def validate (path : String) (c : Config α) : Except ConfigError (Config α) :=
  if !(Scalar.isFinite c.tickSeconds && decide (0 < c.tickSeconds)) then .error (.badTick path)
  else if !(Scalar.isFinite c.defaultClipSeconds && decide (0 ≤ c.defaultClipSeconds)) then
    .error (.badClipSeconds path)
  else .ok c

def ofText (path text : String) : Except ConfigError (Config α) :=
  if (Text.trim text.toList).isEmpty then .ok default
  else match (Mapping.read? text.toList).bind ofMapping? with
    | some c => c.validate path
    | none => .error (.malformed path)

def load (store : Store) (path : String) : Except ConfigError (Config α) :=
  match store.readText path with
  | .ok text => ofText path text
  | .error .notFound => .ok default
  | .error e => .error (.unreadable path e)

/-- What a session is started with; `fresh` is the seed where none is set. -/
def setup (c : Config α) (fresh : UInt64) : SessionSetup α :=
  ⟨c.seed.getD fresh, c.tickSeconds, c.defaultClipSeconds, c.strictEasing⟩

end Config

end Soundscape
