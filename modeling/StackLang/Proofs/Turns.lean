import Mathlib.Logic.Relation
import StackLang.Proofs.ImportOrder

/-! The compilation of a program, turn by turn. Every turn answers the first request of a worklist,
so what each turn keeps is kept to the end. -/
namespace StackLang

open Relation (ReflTransGen)

/-- What is at hand between two turns of the compilation. -/
structure Worklist where
  search : Search
  done : List Place
  queue : List Request
  units : List SourceUnit

/-- One turn: the first request is passed over if its file was compiled before, and else its file
is compiled, and what it imports is asked for behind all other requests. -/
inductive Turn (files : Files) : Worklist → Worklist → Prop
  | pass {search : Search} {done : List Place} {request : Request} {queue : List Request}
    {units : List SourceUnit} {place : Place} (located : files.locate request.path = .ok place)
    (known : place ∈ done) :
    Turn files ⟨search, done, request :: queue, units⟩ ⟨search, done, queue, units⟩
  | compile {search later : Search} {done : List Place} {request : Request} {queue : List Request}
    {units : List SourceUnit} {place : Place} {content : List UInt8} {program : Option Program}
    {unit : SourceUnit} {imports : List Path} (located : files.locate request.path = .ok place)
    (unknown : place ∉ done) (found : files.at? place = some (.file content program))
    (compiled : SourceUnit.compile ⟨request.path, request.importName, [], none⟩ files search
      content = (.ok (unit, imports), later)) :
    Turn files ⟨search, done, request :: queue, units⟩
      ⟨later, place :: done, queue ++ unit.requests, units ++ [unit]⟩

/-- No compilation goes on for ever: a turn leaves fewer files to compile or fewer requests. -/
theorem wellFounded_turn (files : Files) :
    WellFounded fun after before => Turn files before after := by
  refine Subrelation.wf ?_ (InvImage.wf
    (fun worklist : Worklist => (files.countOutside worklist.done, worklist.queue.length))
    (Prod.lex Nat.lt_wfRel Nat.lt_wfRel).wf)
  intro after before turn
  cases turn with
  | pass => exact .right _ (Nat.lt_succ_self _)
  | compile _ unknown found =>
    have member := Files.mem_of_at? found (Files.ne_root_of_file found)
    exact .left _ _ (Files.countOutside_cons_lt member unknown)

/-- Where a compilation ends: no request is left, or the first one cannot be answered. -/
def Ends (files : Files) (last : Worklist) (units : List SourceUnit)
    (outcome : Except BuildError (List SourceUnit)) : Prop :=
  (∀ next, ¬Turn files last next) ∧ ∃ others, last.units = units ++ others ∧
    (last.queue = [] ∧ outcome = .ok others ∨
      last.queue ≠ [] ∧ ∃ error, outcome = .error error)

theorem ends_of_failure {files : Files} {search : Search} {done : List Place} {request : Request}
    {queue : List Request} {units : List SourceUnit} {error : BuildError}
    (stuck : ∀ next, ¬Turn files ⟨search, done, request :: queue, units⟩ next) :
    ∃ last, ReflTransGen (Turn files) ⟨search, done, request :: queue, units⟩ last ∧
      Ends files last units (.error error) :=
  ⟨_, .refl, stuck, [], (List.append_nil _).symm, .inr ⟨List.cons_ne_nil _ _, error, rfl⟩⟩

/-- A queue is compiled turn by turn. -/
theorem turns_of_compileQueue (files : Files) (search : Search) (done : List Place)
    (queue : List Request) (units : List SourceUnit) :
    ∃ last, ReflTransGen (Turn files) ⟨search, done, queue, units⟩ last ∧
      Ends files last units (compileQueue files search done queue).1 := by
  fun_induction compileQueue files search done queue generalizing units with
  | case1 search done =>
    refine ⟨_, .refl, ?_, [], (List.append_nil _).symm, .inl ⟨rfl, rfl⟩⟩
    rintro next ⟨⟩
  | case2 search done request queue error unlocated =>
    refine ends_of_failure ?_
    intro next turn
    cases turn <;> simp_all
  | case3 search done request queue place located known ih =>
    obtain ⟨last, run, ends⟩ := ih units
    exact ⟨last, .head (.pass located known) run, ends⟩
  | case4 search done request queue place located unknown missing =>
    refine ends_of_failure ?_
    intro next turn
    cases turn <;> simp_all
  | case5 search done request queue place located unknown directory =>
    refine ends_of_failure ?_
    intro next turn
    cases turn <;> simp_all
  | case6 search done request queue place located unknown content program found error later
      refused =>
    refine ends_of_failure ?_
    intro next turn
    cases turn <;> simp_all
  | case7 search done request queue place located unknown content program found unit imports later
      compiled =>
    rename_i rest ih
    obtain ⟨last, run, stuck, others, grown, outcome⟩ := ih (units ++ [unit])
    refine ⟨last, .head (.compile located unknown found compiled) run, stuck, unit :: others, ?_,
      ?_⟩
    · rw [grown, List.append_assoc, List.singleton_append]
    · rw [rest] at outcome
      rcases outcome with ⟨empty, rfl⟩ | ⟨left, error, rfl⟩
      · exact .inl ⟨empty, rfl⟩
      · exact .inr ⟨left, error, rfl⟩

/-- What every turn keeps is kept by a run. -/
theorem holds_of_run {files : Files} {Holds : Worklist → Prop}
    (turn : ∀ before after, Turn files before after → Holds before → Holds after)
    {first last : Worklist} (run : ReflTransGen (Turn files) first last) (holds : Holds first) :
    Holds last := by
  induction run with
  | refl => exact holds
  | tail _ step ih => exact turn _ _ step ih

/-- What holds when the files are asked for, and is kept by every turn, holds when all files are
compiled. -/
theorem compile_keeps {files : Files} {search later : Search} {seeds : List Path}
    {units : List SourceUnit} (Holds : Worklist → Prop)
    (start : ∀ asked, canonicalSeeds files seeds = .ok asked →
      Holds ⟨search, [], asked.map fun path => { path }, []⟩)
    (turn : ∀ before after, Turn files before after → Holds before → Holds after)
    (compiled : compile files search seeds = (.ok units, later)) :
    ∃ last, Holds last ∧ last.queue = [] ∧ last.units = units := by
  unfold compile at compiled
  split at compiled
  · cases compiled
  · next asked made =>
    obtain ⟨last, run, _, others, grown, outcome⟩ := turns_of_compileQueue files search []
      (asked.map fun path => { path }) []
    rw [compiled] at outcome
    have kept := holds_of_run turn run (start asked made)
    rcases outcome with ⟨finished, ended⟩ | ⟨_, error, failed⟩
    · cases ended
      exact ⟨last, kept, finished, grown⟩
    · cases failed

/-- The places of some units, when one more unit is compiled. -/
theorem mem_done_concat {files : Files} {done : List Place} {units : List SourceUnit}
    (known : ∀ place, place ∈ done ↔ ∃ unit ∈ units, files.locate unit.path = .ok place)
    {unit : SourceUnit} {place : Place} (located : files.locate unit.path = .ok place)
    (other : Place) :
    other ∈ place :: done ↔ ∃ known ∈ units ++ [unit], files.locate known.path = .ok other := by
  rw [List.mem_cons, known]
  simp [or_and_right, exists_or, located, eq_comm, or_comm]

/-! ### Single turns -/

theorem compileQueue_pass {files : Files} {search : Search} {done : List Place}
    (request : Request) {queue : List Request} {place : Place}
    (located : files.locate request.path = .ok place) (known : place ∈ done) :
    compileQueue files search done (request :: queue) = compileQueue files search done queue := by
  rw [compileQueue]
  simp only [located, known, dite_true]

/-- A file that was not compiled before comes before all the others, and its imports behind them. -/
theorem compileQueue_cons {files : Files} {search later : Search} {done : List Place}
    (request : Request) {queue : List Request} {place : Place} {content : List UInt8}
    {program : Option Program} {unit : SourceUnit} {imports : List Path}
    (located : files.locate request.path = .ok place) (fresh : place ∉ done)
    (found : files.at? place = some (.file content program))
    (compiled : SourceUnit.compile ⟨request.path, request.importName, [], none⟩ files search
      content = (.ok (unit, imports), later)) :
    compileQueue files search done (request :: queue) =
      let targets := (unit.tree.map SourceTree.imports).getD []
      let requests := targets.map fun target => ⟨target.path, some target.name⟩
      let (others, search) := compileQueue files later (place :: done) (queue ++ requests)
      (others.map (unit :: ·), search) := by
  rw [compileQueue]
  simp only [located, fresh, dite_false]
  split
  · next missing => rw [found] at missing; cases missing
  · next wrong => rw [found] at wrong; cases wrong
  · next _ _ known =>
    rw [found] at known
    cases known
    simp only [compiled]

theorem compileQueue_answer {files : Files} {search later last : Search} {done : List Place}
    {request : Request} {queue : List Request} {place : Place} {content : List UInt8}
    {program : Option Program} {unit : SourceUnit} {imports : List Path} {others : List SourceUnit}
    (located : files.locate request.path = .ok place) (unknown : place ∉ done)
    (found : files.at? place = some (.file content program))
    (compiled : SourceUnit.compile ⟨request.path, request.importName, [], none⟩ files search
      content = (.ok (unit, imports), later))
    (rest : compileQueue files later (place :: done) (queue ++ unit.requests) =
      (.ok others, last)) :
    compileQueue files search done (request :: queue) = (.ok (unit :: others), last) := by
  rw [compileQueue_cons request located unknown found compiled]
  unfold SourceUnit.requests at rest
  simp only [rest]
  rfl

/-- A file that imports nothing leaves the queue as it is. -/
theorem compileQueue_alone {files : Files} {search later last : Search} {done : List Place}
    {request : Request} {queue : List Request} {place : Place} {content : List UInt8}
    {program : Option Program} {unit : SourceUnit} {imports : List Path} {others : List SourceUnit}
    (located : files.locate request.path = .ok place) (unknown : place ∉ done)
    (found : files.at? place = some (.file content program))
    (compiled : SourceUnit.compile ⟨request.path, request.importName, [], none⟩ files search
      content = (.ok (unit, imports), later))
    (alone : unit.requests = [])
    (rest : compileQueue files later (place :: done) queue = (.ok others, last)) :
    compileQueue files search done (request :: queue) = (.ok (unit :: others), last) := by
  apply compileQueue_answer located unknown found compiled
  rw [alone, List.append_nil]
  exact rest

theorem compileQueue_nil (files : Files) (search : Search) (done : List Place) :
    compileQueue files search done [] = (.ok [], search) := by
  rw [compileQueue]

/-! ### One file -/

def loneFile (content : List UInt8) : Files where
  entries := [(["w"], .directory), (["w", "main.qd"], .file content none)]
  working := ["w"]

theorem compile_loneFile {content : List UInt8} {main : SourceUnit} {imports : List Path}
    {later : Search}
    (read : SourceUnit.compile ⟨⟨"/w/main.qd"⟩, none, [], none⟩ (loneFile content) ⟨[], []⟩ content =
      (.ok (main, imports), later)) (alone : main.requests = []) :
    compile (loneFile content) ⟨[], []⟩ [⟨"main.qd"⟩] = (.ok [main], later) := by
  have seeds : canonicalSeeds (loneFile content) [⟨"main.qd"⟩] = .ok [⟨"/w/main.qd"⟩] := by
    simp only [canonicalSeeds, Files.canonical, Files.locate, String.contains_char_eq]
    rfl
  have place : (loneFile content).locate ⟨"/w/main.qd"⟩ = .ok ["w", "main.qd"] := by
    simp only [Files.locate, String.contains_char_eq]
    rfl
  rw [compile, seeds]
  exact compileQueue_alone place (by simp) rfl read alone (compileQueue_nil _ _ _)

end StackLang
