import StackLang.Proofs.Discovery
import StackLang.Proofs.Searching

/-! The files that are compiled when some files are asked for: these, and all that can be reached
from them through imports, each once and breadth first. -/
namespace StackLang

open Relation (ReflTransGen)

/-- The files that a file imports if it is compiled alone. -/
def importsAt (files : Files) (roots : List Path) (path : Path) : List Path :=
  match files.read path with
  | .error _ => []
  | .ok content =>
    match (SourceUnit.compile { path } files (.fresh roots) content).1 with
    | .error _ => []
    | .ok (unit, _) => unit.importPaths

def Reached (files : Files) (roots asked : List Path) (path : Path) : Prop :=
  ∃ seed ∈ asked, ReflTransGen (fun importer target => target ∈ importsAt files roots importer)
    seed path

section Compiling

variable {files : Files} {roots : List Path} {path : Path} {place : Place} {content : List UInt8}
  {program : Option Program}

theorem Files.eq_pathOf (canonical : files.canonical path = .ok path)
    (located : files.locate path = .ok place) : path = pathOf place := by
  obtain ⟨place', located', named⟩ := canonical_ok canonical
  rw [located] at located'
  cases located'
  exact named

theorem Files.read_of_found (located : files.locate path = .ok place)
    (found : files.at? place = some (.file content program)) : files.read path = .ok content := by
  simp [Files.read, Files.entry, located, found, bind, Except.bind, pure, Except.pure]

/-- The imports of a file at a canonical path are seen from a plain path. -/
theorem Files.Rooted.plain_directory (rooted : files.Rooted)
    (canonical : files.canonical path = .ok path) (located : files.locate path = .ok place)
    (found : files.at? place = some (.file content program)) :
    (Search.directoryOf path).Plain := by
  have walkable := rooted.walkable located
  obtain rfl := eq_pathOf canonical located
  rw [directoryOf_pathOf walkable.proper (ne_root_of_file found)]
  exact ⟨_, walkable.dropLast.proper, rfl⟩

/-- What compiling the file of a request comes to. -/
structure Answers (files : Files) (roots : List Path) (request : Request) (unit : SourceUnit) :
    Prop where
  path : unit.path = request.path
  importName : unit.importName = request.importName
  canonical : files.canonical unit.path = .ok unit.path
  imports : importsAt files roots unit.path = unit.importPaths
  requests : ∀ target ∈ unit.requests, files.canonical target.path = .ok target.path ∧
    target.importName = some (moduleName target.path)

theorem Search.Faithful.answers {search later : Search} (faithful : search.Faithful files roots)
    (rooted : files.Rooted) {request : Request} {unit : SourceUnit} {imports : List Path}
    (canonical : files.canonical request.path = .ok request.path)
    (located : files.locate request.path = .ok place)
    (found : files.at? place = some (.file content program))
    (compiled : SourceUnit.compile ⟨request.path, request.importName, [], none⟩ files search
      content = (.ok (unit, imports), later)) :
    Answers files roots request unit ∧ later.Faithful files roots := by
  have plain := rooted.plain_directory canonical located found
  obtain ⟨tree, stream, scanned, parsed, rfl⟩ := SourceUnit.compile_ok compiled
  obtain ⟨outcome, learned, learned', here, there, faithful'⟩ :=
    TokenStream.ofBytes_agree faithful (faithful_fresh files roots) plain content
  rw [scanned] at here
  cases here
  refine ⟨⟨rfl, rfl, canonical, ?_, ?_⟩, faithful'⟩
  · have alone : (SourceUnit.compile { path := request.path } files (.fresh roots) content).1 =
        .ok (⟨request.path, none, stream.tokens, some tree⟩, stream.imports) := by
      simp only [SourceUnit.compile, there]
      change (SourceTree.parse request.path stream.tokens >>= _) = _
      rw [parsed]
      rfl
    simp only [importsAt, Files.read_of_found located found, alone]
    rfl
  · intro target member
    obtain ⟨source, among, rfl⟩ := List.mem_map.mp member
    obtain ⟨token, inside, imported, rfl⟩ := (SourceTree.parse_named parsed).2 source among
    have standing := TokenStream.ofBytes_canonical rooted faithful plain scanned token inside
    exact ⟨standing imported, rfl⟩

end Compiling

def Worklist.start (roots asked : List Path) : Worklist :=
  ⟨.fresh roots, [], asked.map (Request.mk · none), []⟩

/-- A request for a file that is asked for, or that was reached through imports. -/
structure Request.Valid (files : Files) (roots asked : List Path) (request : Request) : Prop where
  canonical : files.canonical request.path = .ok request.path
  reached : Reached files roots asked request.path
  named : request.importName = none ∧ request.path ∈ asked ∨
    request.importName = some (moduleName request.path)

/-- A unit of a file that is asked for, or that was reached through imports. -/
structure SourceUnit.Valid (files : Files) (roots asked : List Path) (unit : SourceUnit) :
    Prop where
  canonical : files.canonical unit.path = .ok unit.path
  imports : importsAt files roots unit.path = unit.importPaths
  reached : Reached files roots asked unit.path
  named : unit.importName = if unit.path ∈ asked then none else some (moduleName unit.path)

theorem Answers.valid_requests {files : Files} {roots asked : List Path} {request : Request}
    {unit : SourceUnit} (answers : Answers files roots request unit)
    (reached : Reached files roots asked unit.path) :
    ∀ target ∈ unit.requests, target.Valid files roots asked := by
  intro target member
  obtain ⟨seed, among, way⟩ := reached
  have imported : target.path ∈ importsAt files roots unit.path := by
    rw [answers.imports]
    exact List.mem_map_of_mem member
  obtain ⟨canonical, named⟩ := answers.requests target member
  exact ⟨canonical, ⟨seed, among, way.tail imported⟩, .inr named⟩

/-- What holds between two turns. The requests ever made are those for the files that are asked
for and then, unit by unit, for what is imported; they were answered from the front, by one unit
for each path. -/
structure Worklist.Sound (files : Files) (roots asked : List Path) (worklist : Worklist) :
    Prop where
  faithful : worklist.search.Faithful files roots
  requests : ∀ request ∈ worklist.queue, request.Valid files roots asked
  units : ∀ unit ∈ worklist.units, unit.Valid files roots asked
  done : ∀ place, place ∈ worklist.done ↔
    ∃ unit ∈ worklist.units, files.locate unit.path = .ok place
  history : ∃ passed, asked.map (Request.mk · none) ++
      worklist.units.flatMap SourceUnit.requests = passed ++ worklist.queue ∧
    worklist.units.map (·.path) = (passed.map (·.path)).eraseDups

namespace Worklist

variable {files : Files} {roots asked : List Path} {worklist next : Worklist}

theorem sound_start (canonical : ∀ path ∈ asked, files.canonical path = .ok path) :
    (start roots asked).Sound files roots asked where
  faithful := Search.faithful_fresh files roots
  requests := by
    intro request member
    obtain ⟨path, among, rfl⟩ := List.mem_map.mp member
    exact ⟨canonical path among, ⟨path, among, .refl⟩, .inl ⟨rfl, among⟩⟩
  units := by simp [start]
  done := by simp [start]
  history := ⟨[], by simp [start]⟩

/-- A file was compiled before exactly if one of the units has its path. -/
theorem Sound.mem_done_iff (sound : worklist.Sound files roots asked) {path : Path} {place : Place}
    (canonical : files.canonical path = .ok path) (located : files.locate path = .ok place) :
    place ∈ worklist.done ↔ path ∈ worklist.units.map (·.path) := by
  rw [sound.done, List.mem_map]
  constructor
  · rintro ⟨unit, member, located'⟩
    have same := Files.eq_pathOf (sound.units unit member).canonical located'
    exact ⟨unit, member, same.trans (Files.eq_pathOf canonical located).symm⟩
  · rintro ⟨unit, member, rfl⟩
    exact ⟨unit, member, located⟩

/-- An import is answered only behind all files that are asked for, so the unit of a file that is
asked for has no name from an import. -/
theorem Sound.importName_eq {search : Search} {done : List Place} {request : Request}
    {queue : List Request} {units : List SourceUnit}
    (sound : Sound files roots asked ⟨search, done, request :: queue, units⟩)
    (unknown : request.path ∉ units.map (·.path)) :
    request.importName =
      if request.path ∈ asked then none else some (moduleName request.path) := by
  obtain ⟨passed, history, answered⟩ := sound.history
  rcases (sound.requests request List.mem_cons_self).named with ⟨bare, member⟩ | named
  · rw [if_pos member, bare]
  · have imported : request.path ∉ asked := by
      intro member
      apply unknown
      rw [answered, List.mem_eraseDups]
      have among (more : List Request) (split : passed = asked.map (Request.mk · none) ++ more) :
          request.path ∈ passed.map (·.path) := by
        rw [split, List.map_append, List.map_map]
        exact List.mem_append_left _ (List.mem_map.mpr ⟨_, member, rfl⟩)
      rcases List.append_eq_append_iff.mp history with ⟨more, split, _⟩ | ⟨more, split, rest⟩
      · exact among more split
      · cases more with
        | nil => exact among [] (by simp [split])
        | cons first more =>
          obtain rfl := (List.cons.inj rest).1
          have bare : request ∈ asked.map (Request.mk · none) := by simp [split]
          obtain ⟨path, _, rfl⟩ := List.mem_map.mp bare
          cases named
    rw [if_neg imported, named]

theorem Sound.turn (sound : worklist.Sound files roots asked) (rooted : files.Rooted)
    (turn : Turn files worklist next) : next.Sound files roots asked := by
  cases turn with
  | @pass search done request queue units place located known =>
    have valid := sound.requests request List.mem_cons_self
    have member := (sound.mem_done_iff valid.canonical located).mp known
    obtain ⟨passed, history, answered⟩ := sound.history
    refine ⟨sound.faithful, fun other later => sound.requests other (List.mem_cons_of_mem _ later),
      sound.units, sound.done, passed ++ [request], ?_, ?_⟩
    · rw [history, List.append_assoc, List.singleton_append]
    · rw [answered, List.mem_eraseDups] at member
      rw [List.map_append, List.map_singleton, eraseDups_concat, if_pos member, answered]
  | @compile search later done request queue units place content program unit imports located
      unknown found compiled =>
    have valid := sound.requests request List.mem_cons_self
    have missing : request.path ∉ units.map (·.path) :=
      fun member => unknown ((sound.mem_done_iff valid.canonical located).mpr member)
    obtain ⟨answers, faithful⟩ :=
      sound.faithful.answers rooted valid.canonical located found compiled
    have unitValid : unit.Valid files roots asked := by
      refine ⟨answers.canonical, answers.imports, ?_, ?_⟩
      · rw [answers.path]
        exact valid.reached
      · rw [answers.path, answers.importName]
        exact sound.importName_eq missing
    refine ⟨faithful, ?_, ?_, ?_, ?_⟩
    · refine List.forall_mem_append.mpr ⟨?_, ?_⟩
      · exact fun other later => sound.requests other (List.mem_cons_of_mem _ later)
      · exact answers.valid_requests unitValid.reached
    · exact List.forall_mem_append.mpr ⟨sound.units, by simpa using unitValid⟩
    · exact mem_done_concat sound.done (by rw [answers.path, located])
    · obtain ⟨passed, history, answered⟩ := sound.history
      refine ⟨passed ++ [request], ?_, ?_⟩
      · rw [List.flatMap_append, ← List.append_assoc, history]
        simp
      · rw [answered, List.mem_eraseDups] at missing
        rw [List.map_append, List.map_append, List.map_singleton, List.map_singleton,
          eraseDups_concat, if_neg missing, answered, answers.path]

theorem Sound.run (sound : worklist.Sound files roots asked) (rooted : files.Rooted)
    (run : ReflTransGen (Turn files) worklist next) : next.Sound files roots asked :=
  holds_of_run (fun _ _ turn sound => sound.turn rooted turn) run sound

/-- When no request is left, the units are the first answers to all requests. -/
theorem Sound.paths_eq (sound : worklist.Sound files roots asked) (finished : worklist.queue = []) :
    worklist.units.map (·.path) =
      (asked ++ worklist.units.flatMap SourceUnit.importPaths).eraseDups := by
  obtain ⟨passed, history, answered⟩ := sound.history
  rw [finished, List.append_nil] at history
  rw [answered, ← history, List.map_append, List.map_map, List.map_flatMap]
  congr 2
  exact List.map_id _

end Worklist

/-- Units of all files that can be reached from the ones that are asked for, breadth first. -/
structure ImportClosure (files : Files) (roots asked : List Path) (units : List SourceUnit) :
    Prop where
  canonical : ∀ unit ∈ units, files.canonical unit.path = .ok unit.path
  imports : ∀ unit ∈ units, importsAt files roots unit.path = unit.importPaths
  distinct : (units.map (·.path)).Nodup
  closed : ∀ path, path ∈ units.map (·.path) ↔ Reached files roots asked path
  ordered : ∃ first found, units = first ++ found ∧ first.map (·.path) = asked.eraseDups ∧
    (∀ unit ∈ first, unit.importName = none) ∧
    (∀ unit ∈ found, unit.importName = some (moduleName unit.path) ∧
      ∃ importer ∈ units, unit.path ∈ importer.importPaths) ∧
    found.Pairwise fun unit other =>
      Prod.Lex (· < ·) (· < ·) (importedAt units unit.path) (importedAt units other.path)

theorem Worklist.Sound.importClosure {files : Files} {roots asked : List Path}
    {worklist : Worklist} (sound : worklist.Sound files roots asked)
    (finished : worklist.queue = []) : ImportClosure files roots asked worklist.units := by
  have paths := sound.paths_eq finished
  have listed (path : Path) : path ∈ worklist.units.map (·.path) ↔
      path ∈ asked ∨ ∃ unit ∈ worklist.units, path ∈ unit.importPaths := by
    rw [paths, List.mem_eraseDups, List.mem_append, List.mem_flatMap]
  refine ⟨fun unit member => (sound.units unit member).canonical,
    fun unit member => (sound.units unit member).imports, ?_, ?_, ?_⟩
  · rw [paths]
    exact nodup_eraseDups _
  · intro path
    constructor
    · intro member
      obtain ⟨unit, among, rfl⟩ := List.mem_map.mp member
      exact (sound.units unit among).reached
    · rintro ⟨seed, asking, way⟩
      induction way with
      | refl => exact (listed _).mpr (.inl asking)
      | tail _ imported ih =>
        obtain ⟨unit, among, rfl⟩ := List.mem_map.mp ih
        rw [(sound.units unit among).imports] at imported
        exact (listed _).mpr (.inr ⟨unit, among, imported⟩)
  · rw [List.eraseDups_append] at paths
    obtain ⟨first, found, split, firstPaths, foundPaths⟩ := List.map_eq_append_iff.mp paths
    refine ⟨first, found, split, firstPaths, ?_, ?_, ?_⟩
    · intro unit member
      have asking : unit.path ∈ asked := by
        rw [← List.mem_eraseDups, ← firstPaths]
        exact List.mem_map_of_mem member
      rw [(sound.units unit (split ▸ List.mem_append_left _ member)).named, if_pos asking]
    · intro unit member
      have among : unit.path ∈ found.map (·.path) := List.mem_map_of_mem member
      rw [foundPaths, mem_eraseDups_removeAll, List.mem_flatMap] at among
      rw [(sound.units unit (split ▸ List.mem_append_right _ member)).named, if_neg among.2]
      exact ⟨rfl, among.1⟩
    · have order := pairwise_idxOf_eraseDups
        (worklist.units.flatMap SourceUnit.importPaths) asked
      rw [← foundPaths, List.pairwise_map] at order
      exact order.imp importedAt_of_idxOf

theorem canonicalSeeds_ok_iff {files : Files} {seeds asked : List Path} :
    canonicalSeeds files seeds = .ok asked ↔
      List.Forall₂ (fun seed path => files.canonical seed = .ok path) seeds asked := by
  rw [canonicalSeeds, Outcome.mapM_ok_iff]
  refine Iff.of_eq (congrArg (List.Forall₂ · seeds asked) ?_)
  funext seed path
  cases files.canonical seed <;> simp

theorem Files.Rooted.canonical_seeds {files : Files} (rooted : files.Rooted)
    {seeds asked : List Path}
    (made : List.Forall₂ (fun seed path => files.canonical seed = .ok path) seeds asked) :
    ∀ path ∈ asked, files.canonical path = .ok path := by
  induction made with
  | nil => simp
  | cons first _ ih => exact List.forall_mem_cons.mpr ⟨rooted.canonical_canonical first, ih⟩

/-- A compilation ends, and if it does not fail it has compiled the files that are asked for and
all that they import. -/
theorem compile_ends_with_the_import_closure {files : Files} (rooted : files.Rooted)
    (roots seeds : List Path) :
    (WellFounded fun after before => Turn files before after) ∧
    (∀ asked, List.Forall₂ (fun seed path => files.canonical seed = .ok path) seeds asked →
      ∃ last, ReflTransGen (Turn files) (.start roots asked) last ∧
        Ends files last [] (compile files (.fresh roots) seeds).1) ∧
    ∀ units later, compile files (.fresh roots) seeds = (.ok units, later) →
      ∃ asked, List.Forall₂ (fun seed path => files.canonical seed = .ok path) seeds asked ∧
        ImportClosure files roots asked units := by
  have run {asked : List Path} (made : canonicalSeeds files seeds = .ok asked) :
      ∃ last, ReflTransGen (Turn files) (.start roots asked) last ∧
        Ends files last [] (compile files (.fresh roots) seeds).1 := by
    rw [compile, made]
    exact turns_of_compileQueue files _ _ _ _
  refine ⟨wellFounded_turn files, fun asked made => run (canonicalSeeds_ok_iff.mpr made), ?_⟩
  intro units later compiled
  cases made : canonicalSeeds files seeds with
  | error error =>
    rw [compile, made] at compiled
    cases compiled
  | ok asked =>
    have related := canonicalSeeds_ok_iff.mp made
    obtain ⟨last, turns, _, others, grown, outcome⟩ := run made
    rw [compiled] at outcome
    have sound := (Worklist.sound_start (rooted.canonical_seeds related)).run rooted turns
    refine ⟨asked, related, ?_⟩
    rcases outcome with ⟨finished, ended⟩ | ⟨_, error, failed⟩
    · cases ended
      have closure := sound.importClosure finished
      rwa [grown] at closure
    · cases failed

/-- A file that imports another one twice, by two names. -/
def pairMain : List UInt8 := "use twin\nuse \"./twin\"\n".toUTF8.toList

/-- A file that imports the first one. -/
def pairTwin : List UInt8 := "use main\n".toUTF8.toList

def pair : Files where
  entries := [(["w"], .directory), (["w", "main.qd"], .file pairMain none),
    (["w", "twin.qd"], .file pairTwin none)]
  working := ["w"]

/-- A search that remembers all that the two files import. -/
def pairSearch : Search where
  roots := []
  known := [⟨⟨"/w"⟩, "twin", ⟨"/w/twin.qd"⟩⟩, ⟨⟨"/w"⟩, "./twin", ⟨"/w/twin.qd"⟩⟩,
    ⟨⟨"/w"⟩, "main", ⟨"/w/main.qd"⟩⟩]

theorem plain_pair : Path.Plain ⟨"/w"⟩ := by
  refine ⟨["w"], ?_, by decide⟩
  intro name member
  rw [List.mem_singleton.mp member]
  constructor <;> decide +kernel

theorem faithful_pairSearch : pairSearch.Faithful pair [] where
  sameRoots := rfl
  plain := by simp [pairSearch, plain_pair]
  found := by
    intro finding member importer seen
    simp only [pairSearch, List.mem_cons, List.not_mem_nil, or_false] at member
    rcases member with rfl | rfl | rfl
    all_goals
      simp only [Search.resolve, seen, Files.canonical, Search.fresh]
      unfold Files.isFile Files.entry Files.locate
      simp only [String.contains_char_eq]
      decide

/-- The files are read with a search that looks for nothing, which changes nothing. -/
theorem compile_pair : ∃ main twin later,
    compile pair (.fresh []) [⟨"main.qd"⟩, ⟨"./main.qd"⟩] = (.ok [main, twin], later) ∧
      main.path = ⟨"/w/main.qd"⟩ ∧ twin.path = ⟨"/w/twin.qd"⟩ := by
  have seeds : canonicalSeeds pair [⟨"main.qd"⟩, ⟨"./main.qd"⟩] =
      .ok [⟨"/w/main.qd"⟩, ⟨"/w/main.qd"⟩] := by
    simp only [canonicalSeeds, Files.canonical, Files.locate, String.contains_char_eq]
    decide +kernel
  have place : pair.locate ⟨"/w/main.qd"⟩ = .ok ["w", "main.qd"] := by
    simp only [Files.locate, String.contains_char_eq]
    decide
  have place' : pair.locate ⟨"/w/twin.qd"⟩ = .ok ["w", "twin.qd"] := by
    simp only [Files.locate, String.contains_char_eq]
    rfl
  have read : ((SourceUnit.compile ⟨⟨"/w/main.qd"⟩, none, [], none⟩ pair pairSearch
      pairMain).1.toOption.map fun read => (read.1.path, read.1.requests)) =
      some (⟨"/w/main.qd"⟩, [⟨⟨"/w/twin.qd"⟩, some "twin"⟩, ⟨⟨"/w/twin.qd"⟩, some "twin"⟩]) := by
    decide +kernel
  have read' : ((SourceUnit.compile ⟨⟨"/w/twin.qd"⟩, some "twin", [], none⟩ pair pairSearch
      pairTwin).1.toOption.map fun read => (read.1.path, read.1.requests)) =
      some (⟨"/w/twin.qd"⟩, [⟨⟨"/w/main.qd"⟩, some "main"⟩]) := by
    decide +kernel
  obtain ⟨⟨main, imports⟩, read, shown⟩ := Option.map_eq_some_iff.mp read
  obtain ⟨⟨twin, imports'⟩, read', shown'⟩ := Option.map_eq_some_iff.mp read'
  obtain ⟨path, requests⟩ := Prod.mk.inj shown
  obtain ⟨path', requests'⟩ := Prod.mk.inj shown'
  obtain ⟨later, compiled, learned⟩ := SourceUnit.compile_agree
    ⟨⟨"/w/main.qd"⟩, none, [], none⟩ (Search.faithful_fresh pair []) faithful_pairSearch
    plain_pair pairMain
  obtain ⟨last, compiled', _⟩ := SourceUnit.compile_agree
    ⟨⟨"/w/twin.qd"⟩, some "twin", [], none⟩ learned faithful_pairSearch plain_pair pairTwin
  rw [Outcome.eq_ok_of_toOption read] at compiled
  rw [Outcome.eq_ok_of_toOption read'] at compiled'
  refine ⟨main, twin, last, ?_, path, path'⟩
  have second : compileQueue pair later [["w", "main.qd"]]
      [⟨⟨"/w/twin.qd"⟩, some "twin"⟩, ⟨⟨"/w/twin.qd"⟩, some "twin"⟩] = (.ok [twin], last) := by
    refine compileQueue_answer place' (by simp) rfl compiled' ?_
    rw [requests', List.singleton_append, compileQueue_pass _ place' (by simp),
      compileQueue_pass _ place (by simp), compileQueue_nil]
  rw [compile, seeds]
  refine compileQueue_answer place (by simp) rfl compiled ?_
  rw [requests]
  exact (compileQueue_pass _ place (by simp)).trans second

theorem files_that_import_each_other_are_compiled_once :
    pair.Rooted ∧ ∃ units later,
      compile pair (.fresh []) [⟨"main.qd"⟩, ⟨"./main.qd"⟩] = (.ok units, later) ∧
      units.map (·.path) = [⟨"/w/main.qd"⟩, ⟨"/w/twin.qd"⟩] ∧
      ∃ asked, List.Forall₂ (fun seed path => pair.canonical seed = .ok path)
        [⟨"main.qd"⟩, ⟨"./main.qd"⟩] asked ∧ ImportClosure pair [] asked units := by
  have rooted : pair.Rooted := by
    intro _
    simp only [Files.locate, String.contains_char_eq]
    decide +kernel
  obtain ⟨main, twin, later, compiled, path, path'⟩ := compile_pair
  refine ⟨rooted, [main, twin], later, compiled, by simp [path, path'], ?_⟩
  exact (compile_ends_with_the_import_closure rooted [] _).2.2 _ _ compiled

end StackLang
