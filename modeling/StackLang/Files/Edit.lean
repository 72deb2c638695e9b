import StackLang.Files.Basic

/-! Changes to a tree of files. Each either fails, leaving the tree as it was,
or answers the tree after it. -/
namespace StackLang.Files

def put (files : Files) (place : Place) (entry : Entry) : Files :=
  { files with entries := (files.entries.filter fun pair => pair.1 ≠ place) ++ [(place, entry)] }

def erase (files : Files) (place : Place) : Files :=
  { files with entries := files.entries.filter fun pair => pair.1 ≠ place }

def eraseBelow (files : Files) (place : Place) : Files :=
  { files with entries := files.entries.filter fun pair => !(place.isPrefixOf pair.1 && pair.1 ≠ place) }

/-- The directory in which the last piece of a path stands, and that piece. -/
def holder (files : Files) (path : Path) (pieces : List String) : Except OsError (Place × String) := do
  if path.text.contains (Char.ofNat 0) then throw .nulInName
  if path.text = "" then throw .notFound
  let last := pieces.getLast?.getD ""
  let place ← pieces.dropLast.foldlM files.step (files.origin path)
  match files.at? place with
  | some .directory => pure (place, last)
  | some (.file _ _) => throw .notDirectory
  | none => throw .notFound

def withoutTrailingSlashes (path : Path) : List String :=
  (path.pieces.reverse.dropWhile (· == "")).reverse

def write (files : Files) (path : Path) (content : List UInt8) : Except OsError Files := do
  let (place, last) ← files.holder path path.pieces
  if last = "" || last = "." || last = ".." then throw .isDirectory
  if longestName < last.utf8ByteSize then throw .nameTooLong
  match files.at? (place ++ [last]) with
  | some .directory => throw .isDirectory
  | _ => pure (files.put (place ++ [last]) (.file content none))

def makeDirectory (files : Files) (path : Path) : Except OsError Files := do
  match withoutTrailingSlashes path with
  | [] => if path.text = "" then throw .notFound else throw .occupied
  | pieces =>
    let (place, last) ← files.holder path pieces
    if last = "." || last = ".." then throw .occupied
    if longestName < last.utf8ByteSize then throw .nameTooLong
    match files.at? (place ++ [last]) with
    | some _ => throw .occupied
    | none => pure (files.put (place ++ [last]) .directory)

/-- A directory is made together with the missing ones above it, at most
`depth` of them. The tree grows even if the last step fails. -/
def makeDirectoriesWithin : Nat → Files → Path → Except OsError Unit × Files
  | 0, files, _ => (.error .notFound, files)
  | depth + 1, files, path =>
    if path.text = "" then (.ok (), files)
    else
      let settle (tree : Files) (failure : OsError) : Except OsError Unit × Files :=
        if tree.isDirectory path then (.ok (), tree) else (.error failure, tree)
      match files.makeDirectory path with
      | .ok made => (.ok (), made)
      | .error .notFound =>
        match path.parent? with
        | none => (.error .notFound, files)
        | some parent =>
          match makeDirectoriesWithin depth files parent with
          | (.error failure, tree) => (.error failure, tree)
          | (.ok (), tree) =>
            match tree.makeDirectory path with
            | .ok made => (.ok (), made)
            | .error failure => settle tree failure
      | .error failure => settle files failure

/-- A path has no more directories above it than it has pieces. -/
def makeDirectories (files : Files) (path : Path) : Except OsError Unit × Files :=
  makeDirectoriesWithin (path.pieces.length + 1) files path

def removeFile (files : Files) (path : Path) : Except OsError Files := do
  match withoutTrailingSlashes path with
  | [] => if path.text = "" then throw .notFound else throw .isDirectory
  | pieces =>
    let (place, last) ← files.holder path pieces
    if last = "." || last = ".." then throw .isDirectory
    if longestName < last.utf8ByteSize then throw .nameTooLong
    match files.at? (place ++ [last]) with
    | none => throw .notFound
    | some .directory => throw .isDirectory
    | some (.file _ _) =>
      if pieces.length = path.pieces.length then pure (files.erase (place ++ [last]))
      else throw .notDirectory

def removeDirectory (files : Files) (path : Path) : Except OsError Files := do
  match withoutTrailingSlashes path with
  | [] => if path.text = "" then throw .notFound else throw .denied
  | pieces =>
    let (place, last) ← files.holder path pieces
    if last = "." then throw .invalid
    if last = ".." then throw .notEmpty
    match files.at? (place ++ [last]) with
    | none => throw .notFound
    | some (.file _ _) => throw .notDirectory
    | some .directory =>
      if (files.children (place ++ [last])).isEmpty then pure (files.erase (place ++ [last]))
      else throw .notEmpty

/-- A directory is removed with all it holds. Its content goes first, so the
tree shrinks even if the directory itself stays. -/
def removeTree (files : Files) (path : Path) : Except OsError Unit × Files :=
  match files.locate path with
  | .error failure => (.error failure, files)
  | .ok place =>
    match files.at? place with
    | some .directory =>
      let emptied := files.eraseBelow place
      match emptied.removeDirectory path with
      | .ok tree => (.ok (), tree)
      | .error .notFound => (.ok (), emptied)
      | .error failure => (.error failure, emptied)
    | _ => (.error .notDirectory, files)

/-- A file is set at a place, with directories wherever the way to it lacks one. -/
def plant (files : Files) (place : Place) (entry : Entry) : Files :=
  let ways := (List.range place.length).map fun length => place.take length
  let grown := ways.foldl (fun tree way => if (tree.at? way).isSome then tree else tree.put way .directory) files
  grown.put place entry

/-- The files below a place by their paths from it, and the empty directories
with a slash behind, in the order of their texts. -/
def listing (files : Files) (place : Place) : List String :=
  let below := files.entries.filter fun pair => place.isPrefixOf pair.1 && pair.1 ≠ place
  let texts := below.filterMap fun (inner, entry) =>
    let text := Path.slashed (inner.drop place.length)
    match entry with
    | .file _ _ => some text
    | .directory => if (files.children inner).isEmpty then some (text ++ "/") else none
  texts.mergeSort fun left right => !(right < left)

end StackLang.Files
