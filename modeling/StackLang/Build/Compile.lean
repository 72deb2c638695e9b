import StackLang.Build.Error
import StackLang.Output.Generate
import StackLang.SourceUnit

/-! Compiling files together with all they import, breadth first. A file is compiled once,
however often it is asked for or imported. -/
namespace StackLang

/-- A file to compile, and the name it is imported under. -/
structure Request where
  path : Path
  importName : Option String := none
  deriving DecidableEq, Repr

namespace Files

def countOutside (files : Files) (places : List Place) : Nat :=
  (files.entries.filter fun pair => pair.1 ∉ places).length

theorem mem_of_at? {files : Files} {place : Place} {entry : Entry}
    (found : files.at? place = some entry) (notRoot : place ≠ []) :
    (place, entry) ∈ files.entries := by
  simp only [at?, notRoot, if_false, Option.map_eq_some_iff] at found
  obtain ⟨pair, chosen, rfl⟩ := found
  have named := List.find?_some chosen
  simp only [decide_eq_true_eq] at named
  exact named ▸ List.mem_of_find?_eq_some chosen

theorem ne_root_of_file {files : Files} {place : Place} {content : List UInt8}
    {program : Option Program} (found : files.at? place = some (.file content program)) :
    place ≠ [] := by
  rintro rfl
  simp [at?] at found

theorem countOutside_cons_lt {files : Files} {place : Place} {places : List Place}
    {entry : Entry} (member : (place, entry) ∈ files.entries) (absent : place ∉ places) :
    files.countOutside (place :: places) < files.countOutside places := by
  have counted : (place, entry) ∈ files.entries.filter fun pair => pair.1 ∉ places :=
    List.mem_filter.mpr ⟨member, by simpa using absent⟩
  have narrowed : (files.entries.filter fun pair => pair.1 ∉ place :: places) =
      (files.entries.filter fun pair => pair.1 ∉ places).filter fun pair => pair.1 ≠ place := by
    rw [List.filter_filter]
    refine List.filter_congr fun pair _ => ?_
    simp
  rw [countOutside, countOutside, narrowed]
  exact List.length_filter_lt_length_iff_exists.mpr ⟨_, counted, by simp⟩

end Files

/-- Compile a queue of requests and whatever their files import. The places of the files
compiled before are `done`. -/
def compileQueue (files : Files) (search : Search) (done : List Place) :
    List Request → Except BuildError (List SourceUnit) × Search
  | [] => (.ok [], search)
  | request :: queue =>
    match files.locate request.path with
    | .error error => (.error (.io request.path (.system error)), search)
    | .ok place =>
      if _known : place ∈ done then compileQueue files search done queue
      else
        match _found : files.at? place with
        | none => (.error (.io request.path (.system .notFound)), search)
        | some .directory => (.error (.io request.path (.system .isDirectory)), search)
        | some (.file content _) =>
          match SourceUnit.compile ⟨request.path, request.importName, [], none⟩ files search
            content with
          | (.error error, search) => (.error (.source error), search)
          | (.ok (unit, _), search) =>
            let imports := (unit.tree.map SourceTree.imports).getD []
            let requests := imports.map fun target => ⟨target.path, some target.name⟩
            let (others, search) := compileQueue files search (place :: done) (queue ++ requests)
            (others.map (unit :: ·), search)
termination_by queue => (files.countOutside done, queue.length)
decreasing_by
  · exact .right _ (by simp)
  · exact .left _ _ (Files.countOutside_cons_lt
      (Files.mem_of_at? _found (Files.ne_root_of_file _found)) _known)

def canonicalSeeds (files : Files) (seeds : List Path) : Except BuildError (List Path) :=
  seeds.mapM fun seed =>
    match files.canonical seed with
    | .ok path => .ok path
    | .error error => .error (.io seed (.system error))

/-- The units of a program: the files that are asked for, in order, and then all that they
import. -/
def compile (files : Files) (search : Search) (seeds : List Path) :
    Except BuildError (List SourceUnit) × Search :=
  match canonicalSeeds files seeds with
  | .error error => (.error error, search)
  | .ok paths => compileQueue files search [] (paths.map fun path => { path })

def generateAll (settings : RuntimeSettings) (units : List SourceUnit) (table : SymbolTable) :
    Except BuildError (List GeneratedUnit) :=
  units.mapM fun unit =>
    match generate settings unit table with
    | .ok files => .ok files
    | .error error => .error (.code unit.path error)

end StackLang
