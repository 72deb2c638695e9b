import StackLang.Proofs.ForeignDeclarations
import StackLang.Proofs.Outputs

/-! The headers that a unit includes for its imports. A header is named after the path of its unit,
an include after the path of the import, so the two agree if every import leads to a unit under the
very path that the unit was compiled under. That holds because all these paths are plain, whatever
a search remembers from programs that were compiled before. -/
namespace StackLang

open StackLang.Outcome

/-! ### Plain paths -/

theorem Path.Plain.eq_pathOf {path : Path} (plain : path.Plain) {files : Files} {place : Place}
    (located : files.locate path = .ok place) : path = Files.pathOf place := by
  obtain ⟨names, proper, rfl⟩ := plain
  rw [Files.eq_of_locate_pathOf proper located]

theorem Files.Rooted.plain_of_canonical {files : Files} (rooted : files.Rooted) {path full : Path}
    (made : files.canonical path = .ok full) : full.Plain := by
  obtain ⟨place, located, rfl⟩ := canonical_ok made
  exact ⟨place, (rooted.walkable located).proper, rfl⟩

/-- All files that a search remembers have plain paths. -/
def Search.Plain (search : Search) : Prop := ∀ finding ∈ search.known, finding.file.Plain

theorem Search.plain_fresh (roots : List Path) : (fresh roots).Plain := by
  intro finding member
  cases member

namespace Scanner

variable {scanner finished : Scanner} {files : Files}

/-- A token is looked up at most once. -/
theorem search_settle {token : Token} {outcome : Except SyntaxError Token}
    (done : scanner.settle files token = (outcome, finished)) :
    finished.search = scanner.search ∨
      finished.search = (scanner.search.resolve files scanner.path token.literal).2 := by
  unfold settle at done
  dsimp only at done
  split at done
  · cases done
    exact .inl rfl
  · split at done
    · cases done
      exact .inl rfl
    · split at done
      · split at done
        · next resolved =>
          cases done
          exact .inr (congrArg Prod.snd resolved).symm
        · next resolved =>
          cases done
          exact .inr (congrArg Prod.snd resolved).symm
      · cases done
        exact .inl rfl

/-- A step learns what one name means, or nothing. -/
theorem search_next {outcome : Except SyntaxError (Option Token)}
    (found : scanner.next files = (outcome, finished)) :
    finished.search = scanner.search ∨
      ∃ name, finished.search = (scanner.search.resolve files scanner.path name).2 := by
  unfold next at found
  split at found
  · dsimp only [commentEnd] at found
    split at found <;> cases found <;> exact .inl rfl
  · dsimp only at found
    split at found
    · cases found
      exact .inl rfl
    · next first text started =>
      cases read : Lexeme.read first text with
      | failure =>
        rw [read] at found
        cases found
        exact .inl rfl
      | token kind literal extent =>
        rw [read] at found
        dsimp only [take] at found
        split at found
        · next done =>
          cases found
          exact (search_settle done).imp_right fun looked => ⟨_, looked⟩
        · next done =>
          cases found
          exact (search_settle done).imp_right fun looked => ⟨_, looked⟩

end Scanner

section Keeping

variable {files : Files} (rooted : files.Rooted)

include rooted

theorem Search.Plain.resolve {search : Search} (plain : search.Plain) (importer : Path)
    (name : String) :
    (search.resolve files importer name).2.Plain ∧
      ∀ file, (search.resolve files importer name).1 = .ok file → file.Plain := by
  cases recalled : search.remembered? (directoryOf importer) name with
  | some file =>
    obtain ⟨finding, chosen, rfl⟩ := Option.map_eq_some_iff.mp recalled
    simp only [Search.resolve, recalled]
    refine ⟨plain, ?_⟩
    rintro _ ⟨⟩
    exact plain finding (List.mem_of_find?_eq_some chosen)
  | none =>
    rw [search.resolve_of_forgotten recalled]
    cases answered : ((fresh search.roots).resolve files importer name).1 with
    | error => exact ⟨plain, by simp⟩
    | ok file =>
      have found := rooted.plain_of_canonical (canonical_of_resolve rooted answered)
      refine ⟨List.forall_mem_append.mpr ⟨plain, by simpa using found⟩, ?_⟩
      rintro _ ⟨⟩
      exact found

theorem Search.Plain.next {scanner behind : Scanner} {outcome : Except SyntaxError (Option Token)}
    (plain : scanner.search.Plain) (found : scanner.next files = (outcome, behind)) :
    behind.search.Plain := by
  rcases Scanner.search_next found with same | ⟨name, learned⟩
  · rw [same]
    exact plain
  · rw [learned]
    exact (plain.resolve rooted _ _).1

/-- A token that stands for an imported file has a plain path. -/
theorem Search.Plain.module {scanner behind : Scanner} {token : Token}
    (plain : scanner.search.Plain) (found : scanner.next files = (.ok (some token), behind))
    (imported : token.kind = .module) : Path.Plain ⟨token.literal⟩ := by
  rcases Scanner.next_cases found with
    closing | ⟨_, _, _, _, read, _⟩ | ⟨name, file, _, resolved, _, spelled⟩
  · rw [closing] at imported
    cases imported
  · exact absurd imported (Lexeme.spelled_of_read read).kind_ne.2
  · rw [spelled]
    exact (plain.resolve rooted _ _).2 file (congrArg Prod.fst resolved)

theorem Search.Plain.scanAll {scanner : Scanner} (plain : scanner.search.Plain) :
    (TokenStream.scanAll files scanner).2.search.Plain := by
  fun_induction TokenStream.scanAll files scanner with
  | case1 scanner error behind found => exact plain.next rooted found
  | case2 scanner behind found => exact plain.next rooted found
  | case3 scanner token rest found error finished others ih =>
    have kept := ih (plain.next rooted found)
    rwa [others] at kept
  | case4 scanner token rest found more finished others ih =>
    have kept := ih (plain.next rooted found)
    rwa [others] at kept

theorem Search.Plain.compile {search : Search} (plain : search.Plain) (blank : SourceUnit)
    (content : List UInt8) : (blank.compile files search content).2.Plain := by
  unfold SourceUnit.compile
  dsimp only
  unfold TokenStream.ofBytes
  split
  · exact plain
  · next text decoded =>
    have kept : (TokenStream.scanAll files
        (.ofText blank.path (Expansion.expand blank.path text) search)).2.search.Plain :=
      Search.Plain.scanAll rooted plain
    unfold TokenStream.ofText
    split
    · next scanned => rwa [scanned] at kept
    · next scanned => rwa [scanned] at kept

/-- What a unit imports has plain paths. -/
theorem Search.Plain.imports {search later : Search} (plain : search.Plain)
    {blank unit : SourceUnit} {content : List UInt8} {imports : List Path}
    (compiled : blank.compile files search content = (.ok (unit, imports), later)) :
    ∀ request ∈ unit.requests, request.path.Plain := by
  obtain ⟨tree, stream, scanned, parsed, rfl⟩ := SourceUnit.compile_ok compiled
  obtain ⟨tokens, last, split, ended, imported⟩ :=
    TokenStream.ofBytes_keeps (fun scanner => scanner.search.Plain)
      (fun token => token.kind = .module → Path.Plain ⟨token.literal⟩)
      (fun _ _ _ kept found => ⟨kept.module rooted found, kept.next rooted found⟩)
      (fun _ => plain) scanned
  intro request member
  obtain ⟨target, among, rfl⟩ := List.mem_map.mp member
  obtain ⟨token, inside, kind, rfl⟩ := (SourceTree.parse_named parsed).2 target among
  rw [split] at inside
  rcases List.mem_append.mp inside with earlier | behind
  · exact imported token earlier kind
  · rw [List.mem_singleton.mp behind, ended] at kind
    cases kind

theorem Search.Plain.compileQueue {search : Search} (plain : search.Plain) (done : List Place)
    (queue : List Request) : (compileQueue files search done queue).2.Plain := by
  fun_induction StackLang.compileQueue files search done queue with
  | case1 => exact plain
  | case2 => exact plain
  | case3 _ _ _ _ _ _ _ ih => exact ih plain
  | case4 => exact plain
  | case5 => exact plain
  | case6 search done request _ _ _ _ content _ _ _ _ refused =>
    have kept := plain.compile rooted ⟨request.path, request.importName, [], none⟩ content
    rwa [refused] at kept
  | case7 search done request _ _ _ _ content _ _ unit _ _ first _ _ others =>
    rename_i rest ih
    have kept := plain.compile rooted ⟨request.path, request.importName, [], none⟩ content
    rw [first] at kept
    have later := ih kept
    rwa [rest] at later

theorem Search.Plain.program {search : Search} (plain : search.Plain) (seeds : List Path) :
    (StackLang.compile files search seeds).2.Plain := by
  unfold StackLang.compile
  split
  · exact plain
  · exact plain.compileQueue rooted _ _

end Keeping

/-- The searches that a compiler comes to have. It begins with one that remembers nothing, and
every compilation leaves it another one, whether it fails or not; files may change in between. -/
inductive Search.Arises : Search → Prop
  | fresh (roots : List Path) : Arises (.fresh roots)
  | compile {search : Search} (before : Arises search) {files : Files} (rooted : files.Rooted)
    (seeds : List Path) : Arises (StackLang.compile files search seeds).2

theorem Search.Arises.plain {search : Search} (arises : search.Arises) : search.Plain := by
  induction arises with
  | fresh roots => exact plain_fresh roots
  | compile _ rooted seeds ih => exact ih.program rooted seeds

/-! ### Units and what they import -/

/-- What holds between two turns: no two units have one path, and what a unit imports is compiled
already or waits in the queue. -/
structure Worklist.Linked (files : Files) (worklist : Worklist) : Prop where
  search : worklist.search.Plain
  queue : ∀ request ∈ worklist.queue, request.path.Plain
  units : ∀ unit ∈ worklist.units, unit.path.Plain
  done : ∀ place, place ∈ worklist.done ↔
    ∃ unit ∈ worklist.units, files.locate unit.path = .ok place
  distinct : (worklist.units.map (·.path)).Nodup
  imports : ∀ unit ∈ worklist.units, ∀ path ∈ unit.importPaths,
    path ∈ worklist.units.map (·.path) ∨ path ∈ worklist.queue.map (·.path)

namespace Worklist

variable {files : Files} {worklist next : Worklist}

theorem Linked.mem_done_iff (linked : worklist.Linked files) {path : Path} {place : Place}
    (plain : path.Plain) (located : files.locate path = .ok place) :
    place ∈ worklist.done ↔ path ∈ worklist.units.map (·.path) := by
  rw [linked.done, List.mem_map]
  constructor
  · rintro ⟨unit, member, located'⟩
    have same := (linked.units unit member).eq_pathOf located'
    exact ⟨unit, member, same.trans (plain.eq_pathOf located).symm⟩
  · rintro ⟨unit, member, rfl⟩
    exact ⟨unit, member, located⟩

theorem Linked.turn (linked : worklist.Linked files) (rooted : files.Rooted)
    (turn : Turn files worklist next) : next.Linked files := by
  cases turn with
  | @pass search done request queue units place located known =>
    obtain ⟨first, others⟩ := List.forall_mem_cons.mp linked.queue
    refine ⟨linked.search, others, linked.units, linked.done, linked.distinct, ?_⟩
    intro unit member path imported
    rcases linked.imports unit member path imported with compiled | waiting
    · exact .inl compiled
    · rcases List.mem_cons.mp waiting with rfl | later
      -- The place was compiled before, and under this path, since both paths are plain.
      · exact .inl ((linked.mem_done_iff first located).mp known)
      · exact .inr later
  | @compile search later done request queue units place content program unit imports located
      unknown found compiled =>
    obtain ⟨first, others⟩ := List.forall_mem_cons.mp linked.queue
    have missing : request.path ∉ units.map (·.path) :=
      fun member => unknown ((linked.mem_done_iff first located).mpr member)
    have asked : unit.path = request.path := by
      obtain ⟨_, _, _, _, rfl⟩ := SourceUnit.compile_ok compiled
      rfl
    have kept := linked.search.compile rooted ⟨request.path, request.importName, [], none⟩ content
    rw [compiled] at kept
    refine ⟨kept, ?_, ?_, ?_, ?_, ?_⟩
    · exact List.forall_mem_append.mpr ⟨others, linked.search.imports rooted compiled⟩
    · rw [← asked] at first
      exact List.forall_mem_append.mpr ⟨linked.units, by simpa using first⟩
    · exact mem_done_concat linked.done (by rw [asked, located])
    · rw [List.map_append, List.map_singleton, asked, ← List.concat_eq_append]
      exact linked.distinct.concat missing
    · simp only [List.map_append, List.mem_append]
      intro importer member path imported
      rcases member with earlier | last
      · rcases linked.imports importer earlier path imported with compiled | waiting
        · exact .inl (.inl compiled)
        · rcases List.mem_cons.mp waiting with rfl | later
          · exact .inl (.inr (by simp [asked]))
          · exact .inr (.inl later)
      -- What the new unit imports, be it itself, is asked for behind the others.
      · rw [List.mem_singleton.mp last] at imported
        exact .inr (.inr imported)

end Worklist

theorem linked_of_compile {files : Files} (rooted : files.Rooted) {search later : Search}
    (plain : search.Plain) {seeds : List Path} {units : List SourceUnit}
    (compiled : compile files search seeds = (.ok units, later)) :
    (units.map (·.path)).Nodup ∧
      ∀ unit ∈ units, ∀ path ∈ unit.importPaths, path ∈ units.map (·.path) := by
  have start (asked : List Path) (made : canonicalSeeds files seeds = .ok asked) :
      Worklist.Linked files ⟨search, [], asked.map fun path => { path }, []⟩ := by
    refine ⟨plain, ?_, by simp, by simp, by simp, by simp⟩
    intro request member
    obtain ⟨path, among, rfl⟩ := List.mem_map.mp member
    obtain ⟨seed, _, canonical⟩ := exists_of_forall₂ (canonicalSeeds_ok_iff.mp made) among
    exact rooted.plain_of_canonical canonical
  obtain ⟨last, linked, finished, rfl⟩ := compile_keeps (Worklist.Linked files) start
    (fun _ _ turn linked => linked.turn rooted turn) compiled
  refine ⟨linked.distinct, ?_⟩
  intro unit member path imported
  rcases linked.imports unit member path imported with compiled | waiting
  · exact compiled
  · rw [finished] at waiting
    cases waiting

/-- What a unit imports is asked for under the name of the imported file's module. -/
theorem SourceUnit.Compiled.import_named {unit : SourceUnit} (compiled : unit.Compiled)
    {tree : SourceTree} (held : unit.tree = some tree) {target : Import}
    (among : target ∈ importsOf tree.statements) :
    target.name = moduleName target.path ∧ target.path ∈ unit.importPaths := by
  obtain ⟨tree', held', parsed, _⟩ := compiled.parsed
  rw [held] at held'
  cases held'
  rw [← SourceTree.imports_of_parse parsed] at among
  constructor
  · obtain ⟨token, _, _, rfl⟩ := (SourceTree.parse_named parsed).2 target among
    rfl
  · have request : ⟨target.path, some target.name⟩ ∈ unit.requests := by
      rw [SourceUnit.requests, held]
      exact List.mem_map_of_mem among
    exact List.mem_map_of_mem request

theorem UnitCode.include_mem_headerRows {code : UnitCode} {header : String}
    (settings : RuntimeSettings) (member : header ∈ code.includes) :
    includeRow header ∈ code.headerRows settings := by
  have listed : includeRow header ∈ code.includes.map includeRow := List.mem_map_of_mem member
  unfold headerRows
  simp only [List.mem_append, List.mem_cons, listed, true_or, or_true]

/-- Every import of a unit leads to one unit of the program, and what the unit includes for it is
the header that is generated for that unit, however its file was asked for. -/
theorem includes_are_the_headers_of_the_imported_units {files : Files} (rooted : files.Rooted)
    {search later : Search} (arises : search.Arises) {seeds : List Path} {units : List SourceUnit}
    (compiled : compile files search seeds = (.ok units, later)) {settings : RuntimeSettings}
    {table : SymbolTable}
    (generates : ∀ unit ∈ units, ∃ made, generate settings unit table = .ok made) :
    ∀ unit ∈ units, ∃ tree code, unit.tree = some tree ∧
      UnitCode.ofUnit unit table = .ok code ∧
      List.Forall₂ (fun target header =>
        (∃ front importee back, units = front ++ importee :: back ∧
          importee.path = target.path ∧ (∀ other ∈ front ++ back, other.path ≠ target.path) ∧
          ∃ made, generate settings importee table = .ok made ∧ made.headerName = header) ∧
        HasLine (code.files settings).header ("#include \"" ++ header ++ "\""))
      (importsOf tree.statements) code.includes := by
  obtain ⟨distinct, linked⟩ := linked_of_compile rooted arises.plain compiled
  intro unit member
  obtain ⟨made, generated⟩ := generates unit member
  obtain ⟨code, built, rfl⟩ := ofUnit_of_generate generated
  obtain ⟨tree, held, _, _, includes⟩ := ofUnit_ok built
  refine ⟨tree, code, held, built, ?_⟩
  rw [includes, List.forall₂_map_right_iff, List.forall₂_same]
  intro target among
  have read := compile_compiled compiled unit member
  obtain ⟨named, imported⟩ := read.import_named held among
  constructor
  · obtain ⟨importee, inside, same⟩ := List.mem_map.mp (linked unit member _ imported)
    obtain ⟨made, generated⟩ := generates importee inside
    obtain ⟨front, back, rfl⟩ := List.append_of_mem inside
    refine ⟨front, importee, back, rfl, same, ?_, made, generated, ?_⟩
    · rw [List.map_append, List.map_cons, List.nodup_middle, ← List.map_append] at distinct
      rw [← same]
      intro other elsewhere equal
      exact (List.nodup_cons.mp distinct).1 (List.mem_map.mpr ⟨other, elsewhere, equal⟩)
    · rw [(generate_names generated).1, compile_named compiled importee inside, named, same]
  · have included : CName.header target.name target.path ∈ code.includes := by
      rw [includes]
      exact List.mem_map_of_mem among
    apply UnitCode.hasLine_header
    exact UnitCode.include_mem_headerRows settings included

/-- A file that imports itself, and one that imports it in turn. -/
def circleMain : List UInt8 :=
  "use main\nuse twin\nfn main() \x7b\n\ttwin::go\n\x7d\n".toUTF8.toList

def circleTwin : List UInt8 := "use main\nfn go() \x7b\n\x7d\n".toUTF8.toList

def circle : Files where
  entries := [(["w"], .directory), (["w", "main.qd"], .file circleMain none),
    (["w", "twin.qd"], .file circleTwin none)]
  working := ["w"]

theorem faithful_circle : pairSearch.Faithful circle [] where
  sameRoots := rfl
  plain := by simp [pairSearch, plain_pair]
  found := by
    intro finding member importer seen
    simp only [pairSearch, List.mem_cons, List.not_mem_nil, or_false] at member
    rcases member with rfl | rfl | rfl
    all_goals
      simp only [Search.resolve, seen, Files.canonical, Search.fresh]
      unfold Files.isFile Files.entry Files.locate
      simp only [String.contains_char_eq]
      decide

theorem compile_circle {main twin : SourceUnit} {imports imports' : List Path}
    (read : (SourceUnit.compile ⟨⟨"/w/main.qd"⟩, none, [], none⟩ circle pairSearch circleMain).1 =
      .ok (main, imports))
    (read' : (SourceUnit.compile ⟨⟨"/w/twin.qd"⟩, some "twin", [], none⟩ circle pairSearch
      circleTwin).1 = .ok (twin, imports'))
    (requests : main.requests = [⟨⟨"/w/main.qd"⟩, some "main"⟩, ⟨⟨"/w/twin.qd"⟩, some "twin"⟩])
    (requests' : twin.requests = [⟨⟨"/w/main.qd"⟩, some "main"⟩]) :
    ∃ later, compile circle (.fresh []) [⟨"main.qd"⟩] = (.ok [main, twin], later) := by
  have seeds : canonicalSeeds circle [⟨"main.qd"⟩] = .ok [⟨"/w/main.qd"⟩] := by
    simp only [canonicalSeeds, Files.canonical, Files.locate, String.contains_char_eq]
    rfl
  have place : circle.locate ⟨"/w/main.qd"⟩ = .ok ["w", "main.qd"] := by
    simp only [Files.locate, String.contains_char_eq]
    rfl
  have place' : circle.locate ⟨"/w/twin.qd"⟩ = .ok ["w", "twin.qd"] := by
    simp only [Files.locate, String.contains_char_eq]
    decide
  obtain ⟨later, compiled, learned⟩ := SourceUnit.compile_agree
    ⟨⟨"/w/main.qd"⟩, none, [], none⟩ (Search.faithful_fresh circle []) faithful_circle
    plain_pair circleMain
  obtain ⟨last, compiled', _⟩ := SourceUnit.compile_agree
    ⟨⟨"/w/twin.qd"⟩, some "twin", [], none⟩ learned faithful_circle plain_pair circleTwin
  rw [read] at compiled
  rw [read'] at compiled'
  refine ⟨last, ?_⟩
  simp only [compile, seeds, List.map_cons, List.map_nil]
  apply compileQueue_answer place (by simp) rfl compiled
  rw [requests, List.nil_append, compileQueue_pass _ place (by simp)]
  apply compileQueue_answer place' (by decide) rfl compiled'
  rw [requests', List.nil_append, compileQueue_pass _ place (by simp), compileQueue_nil]

theorem file_that_imports_itself_includes_its_header :
    circle.Rooted ∧ (Search.fresh []).Arises ∧ ∃ units table later,
      compile circle (.fresh []) [⟨"main.qd"⟩] = (.ok units, later) ∧
      analyze units = .ok table ∧
      (∀ unit ∈ units, ∃ made, generate {} unit table = .ok made) ∧
      ∃ unit ∈ units, ∃ code, UnitCode.ofUnit unit table = .ok code ∧
        code.includes = ["main_main.h", "twin_twin.h"] ∧
        ∀ header ∈ code.includes, ∃ importee ∈ units, ∃ made,
          generate {} importee table = .ok made ∧ made.headerName = header := by
  have rooted : circle.Rooted := by
    intro _
    simp only [Files.locate, String.contains_char_eq]
    decide
  have built : (do
      let one := SourceUnit.compile ⟨⟨"/w/main.qd"⟩, none, [], none⟩ circle pairSearch circleMain
      let two := SourceUnit.compile ⟨⟨"/w/twin.qd"⟩, some "twin", [], none⟩ circle pairSearch
        circleTwin
      let main ← one.1.toOption
      let twin ← two.1.toOption
      let table ← (analyze [main.1, twin.1]).toOption
      let code ← (UnitCode.ofUnit main.1 table).toOption
      let code' ← (UnitCode.ofUnit twin.1 table).toOption
      return (main.1.requests, twin.1.requests, code.includes, code'.includes)) =
      some ([⟨⟨"/w/main.qd"⟩, some "main"⟩, ⟨⟨"/w/twin.qd"⟩, some "twin"⟩],
        [⟨⟨"/w/main.qd"⟩, some "main"⟩], ["main_main.h", "twin_twin.h"], ["main_main.h"]) := by
    decide +kernel
  obtain ⟨⟨main, imports⟩, read, built⟩ := Option.bind_eq_some_iff.mp built
  obtain ⟨⟨twin, imports'⟩, read', built⟩ := Option.bind_eq_some_iff.mp built
  obtain ⟨table, analyzed, built⟩ := Option.bind_eq_some_iff.mp built
  obtain ⟨code, made, built⟩ := Option.bind_eq_some_iff.mp built
  obtain ⟨code', made', built⟩ := Option.bind_eq_some_iff.mp built
  simp only [Option.pure_def, Option.some.injEq, Prod.mk.injEq] at built
  obtain ⟨requests, requests', includes, _⟩ := built
  have made := eq_ok_of_toOption made
  obtain ⟨later, compiled⟩ := compile_circle (eq_ok_of_toOption read) (eq_ok_of_toOption read')
    requests requests'
  have generates : ∀ unit ∈ [main, twin], ∃ made, generate {} unit table = .ok made := by
    simp only [List.forall_mem_cons, generate]
    rw [made, eq_ok_of_toOption made']
    exact ⟨⟨_, rfl⟩, ⟨_, rfl⟩, by simp⟩
  refine ⟨rooted, .fresh [], _, table, later, compiled, eq_ok_of_toOption analyzed, generates,
    main, List.mem_cons_self, code, made, includes, ?_⟩
  obtain ⟨tree, same, _, remade, linked⟩ := includes_are_the_headers_of_the_imported_units rooted
    (.fresh []) compiled generates main List.mem_cons_self
  rw [made] at remade
  cases remade
  intro header member
  obtain ⟨_, _, ⟨front, importee, back, parted, _, _, generated⟩, _⟩ :=
    exists_of_forall₂ linked member
  exact ⟨importee, by simp [parted], generated⟩

end StackLang
