import Soundscape.CommandLine.Arguments
import Soundscape.CommandLine.Report
import Soundscape.Playback.Wav
import Soundscape.Session.Config

/-!
# Running commands

A command is run against a store of files and gives what is written and the exit code.  Nothing
here touches the world: the outer layer reads files for the store and writes the texts.
-/

namespace Soundscape

/-- What running a command comes to. -/
structure ProgramResult where
  code : Nat
  out : String
  err : String
  /-- The time a run takes by the clock on the wall. -/
  seconds : Float
  looked : List String

namespace ProgramResult

def success (out err : String) : ProgramResult := ⟨0, out, err, 0.0, []⟩

def failure (message : String) : ProgramResult := ⟨1, "", "error: " ++ message ++ "\n", 0.0, []⟩

/-- A command during which the program aborted.  What it then says on standard error is left
out. -/
def aborted : ProgramResult := ⟨101, "", "", 0.0, []⟩

end ProgramResult

namespace Command

def versionText : String := "satie 0.1.0\n"

def usageText : String := "Usage: satie [OPTIONS] <COMMAND>\n\nCommands: check, dump, run\n"

def lines (ls : List String) : String := String.join (ls.map fun l => l ++ "\n")

/-- The diagnostics of a script, with its path in front of each. -/
def diagnosticText (path : String) (ds : List (Diagnostic Float)) : String :=
  lines (ds.map fun d => path ++ ":" ++ d.text)

def unreadable (path : String) (e : ReadError) : ProgramResult :=
  .failure ("failed to read " ++ path ++ ": " ++ e.message)

/-- Shows the diagnostics of a script and counts what it has. -/
def runCheck (store : Store) (path : String) (strictEasing : Bool) : ProgramResult :=
  match store.readText path with
  | .error e => unreadable path e
  | .ok script =>
    if compileAborts Float strictEasing script then .aborted
    else
      let (compiled, _) := compile (α := Float) strictEasing script (.ofSeed 0)
      { ProgramResult.success
          (path ++ ": " ++ Nat.repr compiled.statements.length ++ " statement(s), "
            ++ Nat.repr compiled.diagnostics.length ++ " diagnostic(s)\n")
          (diagnosticText path compiled.diagnostics) with
        code := if compiled.hasErrors then 1 else 0 }

def runDump (store : Store) (path : String) (format : DumpFormat) (seed : UInt64) : ProgramResult :=
  match store.readText path with
  | .error e => unreadable path e
  | .ok script =>
    if compileAborts Float false script then .aborted
    else
      let (compiled, _) := compile false script (.ofSeed seed)
      let data := Report.statements compiled.statements
      let text := match format with
        | .yaml => data.yaml
        | .json => data.jsonLines
      .success (text ++ "\n") (diagnosticText path compiled.diagnostics)

/-- The path of the settings below the home directory. -/
def homeConfig (home : String) : String := Wav.join home ".satie/config.yaml"

/-- The settings of a run: those of the file with the seed and the step of the options. -/
def settings (store : Store) (home : Option String) (o : RunOptions) :
    Except String (Config Float) := do
  let path? := o.config.or (home.map homeConfig)
  let config ← match path? with
    | some path => (Config.load store path).mapError ConfigError.message
    | none => pure .default
  let config := { config with seed := o.seed.or config.seed }
  let config ← match o.step with
    | some step =>
      if step.isFinite && decide (0.0 < step) then pure { config with tickSeconds := step }
      else throw "--step must be positive"
    | none => pure config
  match o.seconds with
  | some seconds =>
    if seconds.isFinite && decide (0.0 ≤ seconds) then pure config
    else throw "--seconds must not be negative"
  | none => pure config

/-- What becomes of a session that loads a script and plays it. -/
def sessionFate {β : Type} [AudioBackend Float β] (script : String) (seconds : Option Float)
    (s : Session Float) (b : β) : Fate := do
  s.loadFate script
  (s.load script).driveFate seconds b

/-- Plays a script: writes the calls of a dry run, or plays the clips below the clip root. -/
def runRun (store : Store) (home : Option String) (fresh : UInt64) (path : String)
    (o : RunOptions) : ProgramResult :=
  match settings store home o with
  | .error message => .failure message
  | .ok config =>
    match store.readText path with
    | .error e => unreadable path e
    | .ok script =>
      if compileAborts Float config.strictEasing script then .aborted
      else
        let new := Session.new (config.setup fresh)
        let session := new.load script
        let err := diagnosticText path session.diagnostics
        if o.dryRun then
          let recording := Recording.empty config.defaultClipSeconds [] []
          if (sessionFate script o.seconds new recording).aborts then .aborted
          else
            let (_, recording, seconds) := session.drive o.seconds recording
            let out := lines (recording.lifecycle.map fun c => (Report.call c).json)
            { ProgramResult.success out err with seconds := if o.realtime then seconds else 0.0 }
        else
          let wav : Wav Float := .new (config.clipRoot.getD "") store
          if (sessionFate script o.seconds new wav).aborts then .aborted
          else
            let (_, wav, seconds) := session.drive o.seconds wav
            { ProgramResult.success "" err with
              seconds := if o.realtime then seconds else 0.0
              looked := wav.looked }

def execute (store : Store) (home : Option String) (fresh : UInt64) : Command → ProgramResult
  | .check path strictEasing => runCheck store path strictEasing
  | .dump path format seed => runDump store path format seed
  | .run path options => runRun store home fresh path options
  | .version => .success versionText ""
  | .help => .success usageText ""

def executeLine (store : Store) (home : Option String) (fresh : UInt64) (args : List String) :
    ProgramResult :=
  match Arguments.parse? args with
  | some command => command.execute store home fresh
  | none => ⟨2, "", usageText, 0.0, []⟩

end Command

end Soundscape
