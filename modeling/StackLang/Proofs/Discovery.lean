import StackLang.Proofs.Parsing
import StackLang.Proofs.Remainder
import StackLang.Proofs.Turns

/-! The units that are found from the files that are asked for. Whether a file is asked for or
imported, its unit has the name of the file's module. -/
namespace StackLang

open StackLang.Grammar

theorem Grammar.Declaration.import_token {tokens rest : List Token} {statements : List Statement}
    (declared : Grammar.Declaration tokens rest statements) :
    ∀ target ∈ importsOf statements, ∃ token ∈ tokens, token.kind = .module ∧
      target = ⟨⟨token.literal⟩, moduleName ⟨token.literal⟩⟩ := by
  cases declared <;> simp [importsOf, Statement.import?, *]

/-- Every import of a file is a token that stands for the imported file. -/
theorem Grammar.File.import_token {tokens : List Token} {statements : List Statement}
    (file : File tokens statements) :
    ∀ target ∈ importsOf statements, ∃ token ∈ tokens, token.kind = .module ∧
      target = ⟨⟨token.literal⟩, moduleName ⟨token.literal⟩⟩ := by
  induction file with
  | done => simp [importsOf]
  | declaration first _ ih =>
    intro target member
    rw [importsOf, List.filterMap_append] at member
    rcases List.mem_append.mp member with here | later
    · exact first.import_token target here
    · obtain ⟨token, among, imported⟩ := ih target later
      exact ⟨token, first.suffix.subset among, imported⟩

/-- A request that imports a file does so under the name of the file's module. -/
def Request.Named (request : Request) : Prop :=
  ∀ name ∈ request.importName, name = moduleName request.path

theorem SourceTree.parse_named {path : Path} {tokens : List Token} {tree : SourceTree}
    (parsed : SourceTree.parse path tokens = .ok tree) :
    tree.name = moduleName path ∧ ∀ target ∈ tree.imports, ∃ token ∈ tokens,
      token.kind = .module ∧ target = ⟨⟨token.literal⟩, moduleName ⟨token.literal⟩⟩ := by
  have file := file_of_parse parsed
  unfold SourceTree.parse at parsed
  split at parsed
  · cases parsed
  · cases parsed
    exact ⟨rfl, file.import_token⟩

theorem SourceTree.imports_of_parse {path : Path} {tokens : List Token} {tree : SourceTree}
    (parsed : SourceTree.parse path tokens = .ok tree) :
    tree.imports = importsOf tree.statements := by
  unfold SourceTree.parse at parsed
  split at parsed
  · cases parsed
  · cases parsed
    rfl

/-- The unit of a request has the name of its file's module, and so have the files it imports. -/
theorem Request.Named.unit {request : Request} (named : request.Named) {unit : SourceUnit}
    {files : Files} {search later : Search} {content : List UInt8} {imports : List Path}
    (compiled : SourceUnit.compile ⟨request.path, request.importName, [], none⟩ files search
      content = (.ok (unit, imports), later)) :
    unit.name = moduleName unit.path ∧
      ∀ target ∈ (unit.tree.map SourceTree.imports).getD [],
        Request.Named ⟨target.path, some target.name⟩ := by
  obtain ⟨tree, stream, _, parsed, rfl⟩ := SourceUnit.compile_ok compiled
  obtain ⟨treeNamed, importsNamed⟩ := SourceTree.parse_named parsed
  constructor
  · unfold SourceUnit.name
    cases asked : request.importName with
    | none => exact treeNamed
    | some name => exact named name asked
  · rintro target member _ ⟨⟩
    obtain ⟨token, _, _, rfl⟩ := importsNamed target member
    rfl

/-- What holds between two turns: what is compiled, and what waits, has the name of its file's
module. -/
structure Worklist.Named (worklist : Worklist) : Prop where
  requests : ∀ request ∈ worklist.queue, request.Named
  units : ∀ unit ∈ worklist.units, unit.name = moduleName unit.path

theorem Worklist.Named.turn {files : Files} {worklist next : Worklist} (named : worklist.Named)
    (turn : Turn files worklist next) : next.Named := by
  cases turn with
  | pass => exact ⟨(List.forall_mem_cons.mp named.requests).2, named.units⟩
  | compile _ _ _ compiled =>
    obtain ⟨first, others⟩ := List.forall_mem_cons.mp named.requests
    obtain ⟨unitNamed, importsNamed⟩ := first.unit compiled
    constructor
    · exact List.forall_mem_append.mpr ⟨others, List.forall_mem_map.mpr importsNamed⟩
    · exact List.forall_mem_append.mpr ⟨named.units, by simpa using unitNamed⟩

theorem compile_named {files : Files} {search later : Search} {seeds : List Path}
    {units : List SourceUnit} (compiled : compile files search seeds = (.ok units, later)) :
    ∀ unit ∈ units, unit.name = moduleName unit.path := by
  have start (asked : List Path) :
      Worklist.Named ⟨search, [], asked.map fun path => { path }, []⟩ := by
    refine ⟨?_, by simp⟩
    intro request member
    obtain ⟨path, _, rfl⟩ := List.mem_map.mp member
    rintro _ ⟨⟩
  obtain ⟨last, named, _, rfl⟩ := compile_keeps Worklist.Named (fun asked _ => start asked)
    (fun _ _ turn named => named.turn turn) compiled
  exact named.units

end StackLang
