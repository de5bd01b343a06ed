import Soundscape.Format.Scalar

/-!
# Command lines

A command line names one of three commands, its script and its options.  An option that takes a
value has it after a `=` or as the next argument; no option is given twice.  Options of one letter
may be written together.  Arguments are read from left to right: what cannot be used is refused
unless help or the version was asked for before.
-/

namespace Soundscape

/-- How statements are written out. -/
inductive DumpFormat where
  | yaml
  | json
  deriving Repr, DecidableEq

/-- The options of a run. -/
structure RunOptions where
  seconds : Option Float
  step : Option Float
  seed : Option UInt64
  realtime : Bool
  config : Option String
  /-- Whether calls are written out instead of clips played. -/
  dryRun : Bool

/-- What the program is asked to do. -/
inductive Command where
  | check (script : String) (strictEasing : Bool)
  | dump (script : String) (format : DumpFormat) (seed : UInt64)
  | run (script : String) (options : RunOptions)
  | version
  | help

namespace Arguments

/-! ## Values -/

/-- A seed: digits, perhaps after a plus sign. -/
def seed? (text : String) : Option UInt64 :=
  let ds := match text.toList with
    | '+' :: ds => ds
    | ds => ds
  match PlainScalar.digits? 10 ds with
  | some n => if n < UInt64.size then some n.toUInt64 else none
  | none => none

def number? (text : String) : Option Float := (Numeral.read? text.toList).map Numeral.toFloat

def path? (text : String) : Option String := if text.isEmpty then none else some text

def format? : String → Option DumpFormat
  | "yaml" => some .yaml
  | "json" => some .json
  | _ => none

/-- What the value of an option must be. -/
inductive ValueKind where
  | seed
  | number
  | path
  | format
  deriving Repr, DecidableEq

/-- Whether a text is a value of a kind. -/
def ValueKind.accepts (text : String) : ValueKind → Bool
  | seed => (seed? text).isSome
  | number => (number? text).isSome
  | path => (path? text).isSome
  | format => (format? text).isSome

/-- The options that a command has. -/
structure Options where
  flags : List String
  valued : List (String × ValueKind)

/-! ## Reading -/

/-- What was given so far. -/
structure Given where
  flags : List String
  values : List (String × String)
  script : Option String

/-- What a list of arguments comes to. -/
inductive Outcome where
  | given (g : Given)
  | help
  | version
  | refused

def Given.nothing : Given := ⟨[], [], none⟩

def isOption (arg : String) : Bool := arg.startsWith "-" && arg != "-"

/-- The name of a long option and the value after its `=`. -/
def splitLong (arg : String) : String × Option String :=
  let cs := arg.toList.drop 2
  let name := String.ofList (cs.takeWhile (· != '='))
  match cs.dropWhile (· != '=') with
  | [] => (name, none)
  | _ :: value => (name, some (String.ofList value))

/-- Adds an option without a value, unless it was given before. -/
def Given.addFlag? (g : Given) (name : String) : Option Given :=
  if g.flags.contains name then none else some { g with flags := name :: g.flags }

/-- Adds an option with a value, unless it was given before or the value is not of its kind. -/
def Given.addValue? (g : Given) (name value : String) (kind : ValueKind) : Option Given :=
  if (g.values.lookup name).isSome || !kind.accepts value then none
  else some { g with values := (name, value) :: g.values }

/-- Adds the only argument that is no option; it must not be empty. -/
def Given.addScript? (g : Given) (script : String) : Option Given :=
  if g.script.isSome || script.isEmpty then none else some { g with script := some script }

/-- Reads letters written together, of which one may ask for the version. -/
def readLetters (hasVersion : Bool) (g : Given) : List Char → Outcome
  | [] => .given g
  | 'v' :: cs =>
    match g.addFlag? "verbose" with
    | some g => readLetters hasVersion g cs
    | none => .refused
  | 'h' :: _ => .help
  | 'V' :: _ => if hasVersion then .version else .refused
  | _ => .refused

def read (o : Options) (g : Given) : List String → Outcome
  | [] => .given g
  | arg :: args =>
    if arg = "--" then
      match args.foldlM Given.addScript? g with
      | some g => .given g
      | none => .refused
    else if arg = "--help" then .help
    else if arg.startsWith "--" then
      match splitLong arg with
      | (name, some value) =>
        match (o.valued.lookup name).bind (g.addValue? name value) with
        | some g => read o g args
        | none => .refused
      | (name, none) =>
        if o.flags.contains name then
          match g.addFlag? name with
          | some g => read o g args
          | none => .refused
        else
          match args with
          | [] => .refused
          | value :: args =>
            if isOption value then .refused
            else match (o.valued.lookup name).bind (g.addValue? name value) with
              | some g => read o g args
              | none => .refused
    else if isOption arg then
      match readLetters false g (arg.toList.drop 1) with
      | .given g => read o g args
      | outcome => outcome
    else
      match g.addScript? arg with
      | some g => read o g args
      | none => .refused

/-! ## Commands -/

/-- A value, if it is given, as `parse` reads it; nothing when it cannot be read. -/
def Given.value? {A : Type} (g : Given) (name : String) (parse : String → Option A) :
    Option (Option A) :=
  match g.values.lookup name with
  | none => some none
  | some text => (parse text).map some

def check? (g : Given) : Option Command := do
  some (.check (← g.script) (g.flags.contains "strict-easing"))

/-- The command to write the statements of a script. -/
def dump? (g : Given) : Option Command := do
  let format ← g.value? "format" format?
  let seed ← g.value? "seed" seed?
  some (.dump (← g.script) (format.getD .yaml) (seed.getD 0))

def run? (g : Given) : Option Command := do
  let seconds ← g.value? "seconds" number?
  let step ← g.value? "step" number?
  let seed ← g.value? "seed" seed?
  let config ← g.value? "config" path?
  some (.run (← g.script)
    { seconds, step, seed, config, realtime := g.flags.contains "realtime",
      dryRun := g.flags.contains "dry-run" })

/-- The command that arguments make, when they are read with its options. -/
def command? (flags : List String) (valued : List (String × ValueKind))
    (make : Given → Option Command) (args : List String) : Option Command :=
  match read ⟨"verbose" :: flags, valued⟩ .nothing args with
  | .given g => make g
  | .help => some .help
  | .version => some .version
  | .refused => none

/-- Reads a command line from the name of its command on. -/
def named? (name : String) (args : List String) : Option Command :=
  match name with
  | "check" => command? ["strict-easing"] [] check? args
  | "dump" => command? [] [("format", .format), ("seed", .seed)] dump? args
  | "run" =>
    command? ["realtime", "dry-run"]
      [("seconds", .number), ("step", .number), ("seed", .seed), ("config", .path)] run? args
  | "help" =>
    match args with
    | [] => some .help
    | [topic] => if ["check", "dump", "run", "help"].contains topic then some .help else none
    | _ => none
  | _ => none

/-- Reads a command line whose first options were read. -/
def parseFrom? (g : Given) : List String → Option Command
  | [] => none
  | arg :: args =>
    if arg = "--help" then some .help
    else if arg = "--version" then some .version
    else if arg = "--verbose" then (g.addFlag? "verbose").bind fun g => parseFrom? g args
    else if isOption arg then
      if arg.startsWith "--" then none
      else match readLetters true g (arg.toList.drop 1) with
        | .given g => parseFrom? g args
        | .help => some .help
        | .version => some .version
        | .refused => none
    else named? arg args

/-- Reads a command line; nothing when it cannot be used. -/
def parse? (args : List String) : Option Command := parseFrom? .nothing args

end Arguments

end Soundscape
