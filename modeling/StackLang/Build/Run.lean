import StackLang.Build.Compile
import StackLang.Build.Toolchain
import StackLang.Files.Edit
import StackLang.Output.Support

/-! A build: the generated files are written into a directory, the C compiler makes the
program of them, and unless they are to be kept they are removed again. -/
namespace StackLang

inductive BuildWarning where
  | leftOver (path : Path)
  | notCleaned (directory : Path) (error : OsError)
  deriving DecidableEq, Repr

def BuildWarning.message : BuildWarning → String
  | .leftOver path => "ignoring " ++ path.text ++ " left over from another build"
  | .notCleaned directory error => "cannot clean up " ++ directory.text ++ ": " ++ error.message

/-- The sources of a build: the one that every program has, and those of its units. -/
def sourcePaths (directory : Path) (sourceNames : List String) : List Path :=
  (supportSourceName :: sourceNames).map directory.join

/-- The C sources directly inside of a directory that are not among those of a build. -/
def staleSources (files : Files) (directory : Path) (sources : List Path) :
    Except BuildError (List Path) :=
  match files.locate directory with
  | .error error => .error (.io directory (.walk directory error))
  | .ok place =>
    let inside := (files.children place).filterMap fun (name, entry) =>
      match entry with
      | .file _ _ => some name
      | .directory => none
    let stale := inside.filter fun name =>
      let path := directory.join name
      path.extension? = some "c" && !sources.any path.same
    .ok ((stale.mergeSort fun left right => !(right < left)).map directory.join)

def outputFiles (generated : List GeneratedUnit) : List (String × String) :=
  [(supportHeaderName, Support.header), (supportSourceName, Support.source)] ++
    generated.flatMap fun unit =>
      [(unit.headerName, unit.header), (unit.sourceName, unit.source)]

/-- Write files into a directory, up to the first that cannot be written. -/
def writeFiles (directory : Path) :
    List (String × String) → Files → Except BuildError Unit × Files
  | [], files => (.ok (), files)
  | (name, content) :: rest, files =>
    let path := directory.join name
    match files.write path (Text.Utf8.encode content.toList) with
    | .error error => (.error (.io path (.system error)), files)
    | .ok files => writeFiles directory rest files

/-- Remove files from a directory, up to the first that is there and stays. -/
def removeFiles (directory : Path) : List String → Files → Except OsError Unit × Files
  | [], files => (.ok (), files)
  | name :: rest, files =>
    match files.removeFile (directory.join name) with
    | .ok files => removeFiles directory rest files
    | .error .notFound => removeFiles directory rest files
    | .error error => (.error error, files)

/-- Write the files of a program and make the program of them. -/
def emit (shell : Shell) (settings : Settings) (generated : List GeneratedUnit) (files : Files) :
    Except BuildError Path × List BuildWarning × Files :=
  let directory := settings.compiler.outputDirectory
  match files.makeDirectories directory with
  | (.error error, files) => (.error (.io directory (.system error)), [], files)
  | (.ok (), files) =>
    match writeFiles directory (outputFiles generated) files with
    | (.error error, files) => (.error error, [], files)
    | (.ok (), files) =>
      let sources := sourcePaths directory (generated.map (·.sourceName))
      match staleSources files directory sources with
      | .error error => (.error error, [], files)
      | .ok stale =>
        let output := settings.compiler.output
        let (linked, files) := link shell settings files directory sources output
        (linked.map fun _ => output, stale.map .leftOver, files)

/-- Remove what a build has written: its directory if the build has made it, and otherwise
the files by their names. -/
def cleanUp (directory : Path) (created : Bool) (generated : List GeneratedUnit)
    (files : Files) : List BuildWarning × Files :=
  let (outcome, files) :=
    if created then files.removeTree directory
    else removeFiles directory ((outputFiles generated).map (·.1)) files
  match outcome with
  | .ok () => ([], files)
  | .error error => ([.notCleaned directory error], files)

structure BuildOutcome where
  result : Except BuildError Path
  warnings : List BuildWarning
  files : Files
  search : Search

/-- The part of a build that reads files only. -/
def prepare (settings : Settings) (files : Files) (search : Search) (seeds : List Path) :
    Except BuildError (List GeneratedUnit) × Search :=
  match compile files search seeds with
  | (.error error, search) => (.error error, search)
  | (.ok units, search) =>
    match analyze units with
    | .error error => (.error (.analysis error), search)
    | .ok table => (generateAll settings.runtime units table, search)

def build (shell : Shell) (settings : Settings) (files : Files) (search : Search)
    (seeds : List Path) : BuildOutcome :=
  match prepare settings files search seeds with
  | (.error error, search) => ⟨.error error, [], files, search⟩
  | (.ok generated, search) =>
    let directory := settings.compiler.outputDirectory
    let created := !files.exists? directory
    let (result, warnings, files) := emit shell settings generated files
    if settings.compiler.saveTemps then ⟨result, warnings, files, search⟩
    else
      let (more, files) := cleanUp directory created generated files
      ⟨result, warnings ++ more, files, search⟩

end StackLang
