import StackLang.Files.Basic

/-! Modules: the name a file is compiled under, and the search for the file that
is meant where a module is imported. A search remembers every file it found. -/
namespace StackLang

/-- The file that stands for the directory it is in. -/
def moduleEntry : String := "module.qd"

/-- The name a file is compiled and imported under: for the entry file of a
directory the directory's name, for any other file its stem, with an underscore
for everything that cannot stand in a C identifier. -/
def moduleName (path : Path) : String :=
  let raw :=
    if path.fileName? = some moduleEntry then path.parent?.bind Path.fileName?
    else path.stem?
  (raw.getD "main").map fun c => if c.isAlphanum then c else '_'

structure Environment where
  roots : Option String := none
  home : Option String := none

/-- The directories to search for modules: the listed roots, or else one below
the home directory. -/
def Environment.searchRoots (environment : Environment) : List Path :=
  match environment.roots with
  | some listed =>
    if listed = "" then fromHome
    else (Text.splitAt ':' listed.toList).map fun root => ⟨String.ofList root⟩
  | none => fromHome
where
  fromHome : List Path :=
    match environment.home with
    | some home => [Path.join ⟨home⟩ "quadrate"]
    | none => []

structure ModuleNotFound where
  name : String
  searched : List Path
  deriving DecidableEq, Repr

def ModuleNotFound.message (failure : ModuleNotFound) : String :=
  "module not found: '" ++ failure.name ++ "'"

/-- A file found earlier for a name imported from a directory. -/
structure Finding where
  directory : Path
  name : String
  file : Path

structure Search where
  roots : List Path
  known : List Finding := []

namespace Search

/-- The directory from which the imports of a file are seen. -/
def directoryOf (importer : Path) : Path :=
  importer.parent?.getD ⟨""⟩

/-- The files an import can mean, the nearest first. -/
def candidates (search : Search) (directory : Path) (name : String) : List Path :=
  [directory.join (name ++ ".qd"), (directory.join name).join moduleEntry] ++
    search.roots.map fun root => (root.join name).join moduleEntry

def remembered? (search : Search) (directory : Path) (name : String) : Option Path :=
  (search.known.find? fun finding => finding.directory.same directory && finding.name == name).map (·.file)

/-- The file an import means: one found before, or the first candidate that is
a file, by its canonical path. -/
def resolve (search : Search) (files : Files) (importer : Path) (name : String) :
    Except ModuleNotFound Path × Search :=
  let directory := directoryOf importer
  match search.remembered? directory name with
  | some file => (.ok file, search)
  | none =>
    let candidates := search.candidates directory name
    match candidates.find? files.isFile with
    | none => (.error ⟨name, candidates⟩, search)
    | some candidate =>
      let file := match files.canonical candidate with
        | .ok path => path
        | .error _ => candidate
      (.ok file, { search with known := search.known ++ [⟨directory, name, file⟩] })

end Search

end StackLang
