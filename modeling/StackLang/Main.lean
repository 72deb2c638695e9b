import StackLang.Command.Run

/-! The command line. The directories that a command can reach are read into memory, the
command runs on them, and what it has changed is written back. -/
namespace StackLang

/-- Everything at and below a place that can be read. Of the root only the files are taken. -/
partial def gather (place : Place) : IO (List (Place × Entry)) := do
  try
    let found ← IO.FS.realPath (Files.pathOf place).text
    if ← found.isDir then
      let inside ← found.readDir
      let children ← if place = [] then
          inside.toList.filterM fun child => do return !(← child.path.isDir)
        else pure inside.toList
      let below ← children.mapM fun child => gather (place ++ [child.fileName])
      return (place, .directory) :: below.flatten
    else
      let content ← IO.FS.readBinFile found
      return [(place, .file content.toList none)]
  catch _ => return []

/-- The place of a path that is resolved without asking the system. -/
def lexicalPlace (working : Place) (path : Path) : Place :=
  let start := if path.isAbsolute then [] else working
  path.pieces.foldl (fun place piece =>
    if piece = "" ∨ piece = "." then place
    else if piece = ".." then place.dropLast
    else place ++ [piece]) start

def above (place : Place) : List (Place × Entry) :=
  (List.range place.length).map fun length => (place.take length, .directory)

def snapshot (working : Place) (paths : List Path) : IO Files := do
  let places := working :: paths.map (lexicalPlace working)
  let entries ← places.mapM gather
  let all := places.flatMap above ++ entries.flatten
  return { entries := (all.filter (·.1 ≠ [])).eraseDups, working }

/-- Bring the system from one state of the files to another. -/
def writeBack (before after : Files) : IO Unit := do
  for (place, entry) in after.entries do
    if before.at? place ≠ some entry then
      match entry with
      | .directory => IO.FS.createDirAll (Files.pathOf place).text
      | .file content _ => IO.FS.writeBinFile (Files.pathOf place).text ⟨content.toArray⟩
  for (place, entry) in before.entries.reverse do
    if after.at? place = none then
      match entry with
      | .directory => IO.FS.removeDir (Files.pathOf place).text
      | .file _ _ => IO.FS.removeFile (Files.pathOf place).text

def runOnSystem (arguments : List String) : IO UInt32 := do
  let environment : Environment :=
    { roots := ← IO.getEnv "QUADRATE_ROOT", home := ← IO.getEnv "HOME" }
  let working := (Path.mk (← IO.currentDir).toString).pieces.filter (· ≠ "")
  let sources := arguments.filterMap fun text => (Path.mk text).parent?
  let before ← snapshot working (environment.searchRoots ++ sources)
  let outcome := runCommand Files.start environment before arguments
  writeBack before outcome.files
  IO.print outcome.output
  IO.eprint outcome.errors
  return UInt32.ofNat outcome.status

end StackLang

def main (arguments : List String) : IO UInt32 := StackLang.runOnSystem arguments
