/-!
# Files

What the program knows of files is a function from paths to what reading them gives.  A tree of
files in memory is one such function; its paths are relative to the directory it stands for.
-/

namespace Soundscape

/-- Why a file cannot be read. -/
inductive ReadError where
  | notFound
  | notADirectory
  | isADirectory
  /-- A name on the path or the path itself is too long. -/
  | nameTooLong
  | notText
  | other (reason : String)
  deriving Repr, DecidableEq

def ReadError.message : ReadError → String
  | notFound => "No such file or directory (os error 2)"
  | notADirectory => "Not a directory (os error 20)"
  | isADirectory => "Is a directory (os error 21)"
  | nameTooLong => "File name too long (os error 36)"
  | notText => "stream did not contain valid UTF-8"
  | other reason => reason

/-- What reading a path gives. -/
structure Store where
  read : String → Except ReadError ByteArray

def Store.readText (s : Store) (path : String) : Except ReadError String :=
  match s.read path with
  | .error e => .error e
  | .ok bytes =>
    match String.fromUTF8? bytes with
    | some text => .ok text
    | none => .error .notText

/-- A file or a directory. -/
inductive FileEntry where
  | file (bytes : ByteArray)
  | directory

/-- Files and directories by the names on their paths; directories above a file need no entry. -/
abbrev FileTree := List (List String × FileEntry)

namespace FileTree

def names (path : String) : List String := (path.splitToList (· == '/'))

/-- Whether there is a directory at a place. -/
def hasDirectory (t : FileTree) (place : List String) : Bool :=
  t.any fun (path, entry) => match entry with
    | .directory => place.isPrefixOf path
    | .file _ => place.isPrefixOf path && path.length != place.length

/-- The bytes of the file at a place. -/
def file? (t : FileTree) (place : List String) : Option ByteArray :=
  t.findSome? fun (path, entry) => match entry with
    | .file bytes => if path = place then some bytes else none
    | .directory => none

def longestName : Nat := 255

def longestPath : Nat := 4095

/-- Follows names from a directory that the tree is below: there are directories further up, and
nothing else is known. -/
def followAbove : List String → Except ReadError ByteArray
  | [] => .error .isADirectory
  | name :: rest =>
    if name = "" ∨ name = "." ∨ name = ".." then followAbove rest
    else if longestName < name.utf8ByteSize then .error .nameTooLong
    else .error .notFound

/-- Follows names from a directory to a file. -/
def follow (t : FileTree) (dir : List String) : List String → Except ReadError ByteArray
  | [] => .error .isADirectory
  | name :: rest =>
    if name = "" ∨ name = "." then follow t dir rest
    else if name = ".." then
      if dir.isEmpty then followAbove rest else follow t dir.dropLast rest
    else if longestName < name.utf8ByteSize then .error .nameTooLong
    else
      let place := dir ++ [name]
      match file? t place with
      | some bytes => if rest.isEmpty then .ok bytes else .error .notADirectory
      | none => if hasDirectory t place then follow t place rest else .error .notFound

def read (t : FileTree) (path : String) : Except ReadError ByteArray :=
  if path.isEmpty then .error .notFound
  else if longestPath < path.utf8ByteSize then .error .nameTooLong
  else if path.startsWith "/" then followAbove (names path)
  else follow t [] (names path)

def store (t : FileTree) : Store := ⟨t.read⟩

/-- The tree with an entry in place of what was at its path. -/
def write (t : FileTree) (path : String) (entry : FileEntry) : FileTree :=
  (names path, entry) :: t

end FileTree

end Soundscape
