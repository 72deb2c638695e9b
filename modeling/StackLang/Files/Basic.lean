import StackLang.Path

/-! A tree of files as a value. A place is the list of names that leads from
the root to an entry; paths are resolved piece by piece, and every piece, an
empty one or a dot included, needs a directory to stand in. Links and
permissions are left out, and a file is written as a whole or not at all. -/
namespace StackLang

inductive OsError where
  | notFound
  | occupied
  | notDirectory
  | isDirectory
  | denied
  | invalid
  | notEmpty
  | nameTooLong
  | nulInName
  | nulInCommand
  | notText
  deriving DecidableEq, Repr

def OsError.message : OsError → String
  | .notFound => "No such file or directory (os error 2)"
  | .occupied => "File exists (os error 17)"
  | .notDirectory => "Not a directory (os error 20)"
  | .isDirectory => "Is a directory (os error 21)"
  | .denied => "Permission denied (os error 13)"
  | .invalid => "Invalid argument (os error 22)"
  | .notEmpty => "Directory not empty (os error 39)"
  | .nameTooLong => "File name too long (os error 36)"
  | .nulInName => "file name contained an unexpected NUL byte"
  | .nulInCommand => "nul byte found in provided data"
  | .notText => "stream did not contain valid UTF-8"

/-- What running an executable file does: it writes two texts and ends. -/
structure Program where
  output : String := ""
  errors : String := ""
  status : Nat := 0
  deriving DecidableEq, Repr

inductive Entry where
  | file (content : List UInt8) (program : Option Program)
  | directory
  deriving DecidableEq, Repr

abbrev Place := List String

/-- The entries below the root, and the working directory. -/
structure Files where
  entries : List (Place × Entry)
  working : Place

namespace Files

def at? (files : Files) (place : Place) : Option Entry :=
  if place = [] then some .directory
  else (files.entries.find? fun pair => pair.1 = place).map (·.2)

/-- The longest name an entry can have, in bytes. -/
def longestName : Nat := 255

/-- One step from a place along a piece of a path. -/
def step (files : Files) (place : Place) (piece : String) : Except OsError Place :=
  match files.at? place with
  | none => .error .notFound
  | some (.file _ _) => .error .notDirectory
  | some .directory =>
    if piece = "" || piece = "." then .ok place
    else if piece = ".." then .ok place.dropLast
    else if longestName < piece.utf8ByteSize then .error .nameTooLong
    else if (files.at? (place ++ [piece])).isSome then .ok (place ++ [piece])
    else .error .notFound

/-- Where the resolution of a path starts. -/
def origin (files : Files) (path : Path) : Place :=
  if path.isAbsolute then [] else files.working

/-- The place of the existing entry that a path names. -/
def locate (files : Files) (path : Path) : Except OsError Place :=
  if path.text.contains (Char.ofNat 0) then .error .nulInName
  else if path.text = "" then .error .notFound
  else path.pieces.foldlM files.step (files.origin path)

def entry (files : Files) (path : Path) : Except OsError Entry := do
  match files.at? (← files.locate path) with
  | some found => pure found
  | none => throw .notFound

def exists? (files : Files) (path : Path) : Bool :=
  match files.entry path with
  | .ok _ => true
  | .error _ => false

def isFile (files : Files) (path : Path) : Bool :=
  match files.entry path with
  | .ok (.file _ _) => true
  | _ => false

def isDirectory (files : Files) (path : Path) : Bool :=
  match files.entry path with
  | .ok .directory => true
  | _ => false

/-- The absolute path of a place, without dots or doubled slashes. -/
def pathOf (place : Place) : Path :=
  ⟨"/" ++ Path.slashed place⟩

def canonical (files : Files) (path : Path) : Except OsError Path :=
  (files.locate path).map pathOf

def read (files : Files) (path : Path) : Except OsError (List UInt8) := do
  match ← files.entry path with
  | .file content _ => pure content
  | .directory => throw .isDirectory

def children (files : Files) (place : Place) : List (String × Entry) :=
  files.entries.filterMap fun (inner, entry) =>
    match inner.getLast? with
    | some name => if inner = place ++ [name] then some (name, entry) else none
    | none => none

def program (files : Files) (path : Path) : Except OsError Program := do
  match ← files.entry path with
  | .file _ (some program) => pure program
  | _ => throw .denied

end Files

end StackLang
