import Soundscape.CommandLine.Run

/-!
# The program

The outer layer: it reads the files that a command asks for, writes what the command gives, and
waits where a run follows the clock on the wall.
-/

namespace Soundscape

/-- Why reading failed.  A directory is opened before it is refused, what is no directory is not; and
the only argument that can be refused is the path. -/
def ReadError.ofSystem : IO.Error → ReadError
  | .noFileOrDirectory .. => .notFound
  | .inappropriateType _ _ "Is a directory" => .isADirectory
  | .inappropriateType .. => .notADirectory
  | .invalidArgument .. => .nameTooLong
  | e => .other (toString e)

def readPath (path : String) : IO (Except ReadError ByteArray) := do
  try
    return .ok (← IO.FS.readBinFile path)
  catch e =>
    return .error (.ofSystem e)

/-- The store of the paths read so far; any other path is not there. -/
def storeOf (known : List (String × Except ReadError ByteArray)) : Store :=
  ⟨fun path => (known.lookup path).getD (.error .notFound)⟩

/-- The files that a command asks for by name. -/
def pathsOf (home : Option String) : Command → List String
  | .check script _ => [script]
  | .dump script _ _ => [script]
  | .run script options => script :: (options.config.or (home.map Command.homeConfig)).toList
  | _ => []

def readMissing (known : List (String × Except ReadError ByteArray)) :
    List String → IO (List (String × Except ReadError ByteArray))
  | [] => return known
  | path :: rest => do
    if (known.lookup path).isSome then readMissing known rest
    else readMissing ((path, ← readPath path) :: known) rest

/-- Executes a command until it has looked at no clip that was not read. -/
partial def executeFully (home : Option String) (fresh : UInt64) (command : Command)
    (known : List (String × Except ReadError ByteArray)) : IO ProgramResult := do
  let result := command.execute (storeOf known) home fresh
  let more ← readMissing known result.looked
  if more.length == known.length then return result
  else executeFully home fresh command more

end Soundscape

open Soundscape in
/-- Executes the command line that the program is given. -/
def main (args : List String) : IO UInt32 := do
  let home ← IO.getEnv "HOME"
  match Arguments.parse? args with
  | none =>
    IO.eprint Command.usageText
    return 2
  | some command =>
    let high ← IO.rand 0 (UInt32.size - 1)
    let low ← IO.rand 0 (UInt32.size - 1)
    let fresh := (high * UInt32.size + low).toUInt64
    let known ← readMissing [] (pathsOf home command)
    let result ← executeFully home fresh command known
    IO.eprint result.err
    if 0.0 < result.seconds then IO.sleep (result.seconds * 1000.0).toUInt32
    IO.print result.out
    return result.code.toUInt32
