import StackLang.Proofs.CanonicalPaths
import StackLang.Proofs.Remainder

/-! The search for imported files. What a search remembers never changes what it finds, so a file
is read as if it were the first one, and all files it imports have canonical paths. -/
namespace StackLang

/-- A path with the names of a place and nothing else. -/
def Path.Plain (path : Path) : Prop :=
  ∃ place, (∀ name ∈ place, EntryName name) ∧ path = Files.pathOf place

theorem Path.Plain.eq_of_same {path other : Path} (plain : path.Plain) (plain' : other.Plain)
    (same : path.same other = true) : path = other := by
  obtain ⟨place, proper, rfl⟩ := plain
  obtain ⟨place', proper', rfl⟩ := plain'
  rw [Files.eq_of_same proper proper' same]

namespace Search

variable {search : Search} {files : Files} {roots : List Path} {importer file : Path}
  {name : String}

def fresh (roots : List Path) : Search := ⟨roots, []⟩

/-- What a search remembers is what a fresh one finds. -/
structure Faithful (search : Search) (files : Files) (roots : List Path) : Prop where
  sameRoots : search.roots = roots
  plain : ∀ finding ∈ search.known, finding.directory.Plain
  found : ∀ finding ∈ search.known, ∀ importer, directoryOf importer = finding.directory →
    ((fresh roots).resolve files importer finding.name).1 = .ok finding.file

theorem faithful_fresh (files : Files) (roots : List Path) : (fresh roots).Faithful files roots :=
  ⟨rfl, by simp [fresh], by simp [fresh]⟩

/-- Only the directory of an importer counts. -/
theorem resolve_congr {sibling : Path} (beside : directoryOf importer = directoryOf sibling) :
    search.resolve files importer name = search.resolve files sibling name := by
  rw [Search.resolve, Search.resolve, beside]

theorem Faithful.learn (faithful : search.Faithful files roots)
    (plain : (directoryOf importer).Plain)
    (answered : ((fresh roots).resolve files importer name).1 = .ok file) :
    Faithful { search with known := search.known ++ [⟨directoryOf importer, name, file⟩] }
      files roots where
  sameRoots := faithful.sameRoots
  plain := List.forall_mem_append.mpr ⟨faithful.plain, by simpa using plain⟩
  found := by
    refine List.forall_mem_append.mpr ⟨faithful.found, ?_⟩
    intro finding last sibling beside
    rw [List.mem_singleton] at last
    subst last
    rw [← answered]
    exact congrArg Prod.fst (resolve_congr beside)

/-- What is not remembered is looked for, and remembered if it is found. -/
theorem resolve_of_forgotten (search : Search)
    (forgotten : search.remembered? (directoryOf importer) name = none) :
    search.resolve files importer name =
      (((fresh search.roots).resolve files importer name).1,
        match ((fresh search.roots).resolve files importer name).1 with
        | .ok file => { search with known := search.known ++ [⟨directoryOf importer, name, file⟩] }
        | .error _ => search) := by
  have forgotten' : (fresh search.roots).remembered? (directoryOf importer) name = none := rfl
  have listed : (fresh search.roots).candidates (directoryOf importer) name =
      search.candidates (directoryOf importer) name := rfl
  simp only [Search.resolve, forgotten, forgotten', listed]
  cases (search.candidates (directoryOf importer) name).find? files.isFile <;> rfl

theorem remembered?_append (search : Search) (finding : Finding) (directory : Path)
    (name : String) :
    remembered? { search with known := search.known ++ [finding] } directory name =
      (search.remembered? directory name).or
        (if finding.directory.same directory && finding.name == name then some finding.file
          else none) := by
  simp only [remembered?, List.find?_append, List.find?_singleton, Option.map_or]
  split_ifs <;> rfl

/-- Looking up one name does not change what others mean. -/
theorem resolve_behind (search : Search) (files : Files) (importer : Path)
    (name other : String) :
    ((search.resolve files importer name).2.resolve files importer other).1 =
      (search.resolve files importer other).1 := by
  cases known : search.remembered? (directoryOf importer) name with
  | some file => simp only [Search.resolve, known]
  | none =>
    rw [search.resolve_of_forgotten known]
    cases answered : ((fresh search.roots).resolve files importer name).1 with
    | error => rfl
    | ok file =>
      have learned := search.remembered?_append ⟨directoryOf importer, name, file⟩
        (directoryOf importer) other
      dsimp only
      cases recalled : search.remembered? (directoryOf importer) other with
      | some known =>
        rw [recalled, Option.some_or] at learned
        simp only [Search.resolve, recalled, learned]
      | none =>
        rw [recalled, Option.none_or] at learned
        rw [search.resolve_of_forgotten recalled]
        split_ifs at learned with same
        · rw [Bool.and_eq_true, beq_iff_eq] at same
          obtain rfl : name = other := same.2
          rw [answered]
          simp only [Search.resolve, learned]
        · rw [resolve_of_forgotten _ learned]

/-- A search answers as a fresh one does, whatever it remembers. -/
theorem Faithful.resolve (faithful : search.Faithful files roots)
    (plain : (directoryOf importer).Plain) (name : String) :
    ∃ later, search.resolve files importer name =
        (((fresh roots).resolve files importer name).1, later) ∧
      later.Faithful files roots := by
  cases recalled : search.remembered? (directoryOf importer) name with
  | some file =>
    obtain ⟨finding, chosen, rfl⟩ := Option.map_eq_some_iff.mp recalled
    have member := List.mem_of_find?_eq_some chosen
    have fits := List.find?_some chosen
    rw [Bool.and_eq_true, beq_iff_eq] at fits
    obtain ⟨same, rfl⟩ := fits
    have here := (faithful.plain finding member).eq_of_same plain same
    refine ⟨search, ?_, faithful⟩
    rw [faithful.found finding member importer here.symm]
    simp only [Search.resolve, recalled]
  | none =>
    obtain rfl := faithful.sameRoots
    rw [search.resolve_of_forgotten recalled]
    cases answered : ((fresh search.roots).resolve files importer name).1 with
    | error failure => exact ⟨search, rfl, faithful⟩
    | ok file => exact ⟨_, rfl, faithful.learn plain answered⟩

/-- The file that an import means is found by its canonical path. -/
theorem canonical_of_resolve (rooted : files.Rooted)
    (answered : ((fresh roots).resolve files importer name).1 = .ok file) :
    files.canonical file = .ok file := by
  have forgotten : (fresh roots).remembered? (directoryOf importer) name = none := rfl
  simp only [Search.resolve, forgotten] at answered
  split at answered
  · cases answered
  · next candidate found =>
    have stands := List.find?_some found
    cases located : files.locate candidate with
    | error error => simp [Files.isFile, Files.entry, located, bind, Except.bind] at stands
    | ok place =>
      have made : files.canonical candidate = .ok (Files.pathOf place) := by
        rw [Files.canonical, located]
        rfl
      rw [made] at answered
      cases answered
      exact rooted.canonical_canonical made

end Search

namespace Scanner

variable {left right : Scanner} {files : Files} {roots : List Path}

/-- Two scanners at the same point of the same file, whose searches may remember different
findings. -/
structure Twins (files : Files) (roots : List Path) (left right : Scanner) : Prop where
  faithful : left.search.Faithful files roots
  faithful' : right.search.Faithful files roots
  plain : (Search.directoryOf left.path).Plain
  alike : right = { left with search := right.search }

/-- Steps that do not look at the search keep two scanners alike. -/
theorem Twins.moved (twins : Twins files roots left right) (move : Scanner → Scanner)
    (stays : ∀ scanner, (move scanner).path = scanner.path ∧
      (move scanner).search = scanner.search)
    (blind : ∀ scanner search,
      move { scanner with search } = { move scanner with search }) :
    Twins files roots (move left) (move right) where
  faithful := by
    rw [(stays left).2]
    exact twins.faithful
  faithful' := by
    rw [(stays right).2]
    exact twins.faithful'
  plain := by
    rw [(stays left).1]
    exact twins.plain
  alike := by
    rw [(stays right).2]
    exact (congrArg move twins.alike).trans (blind left right.search)

theorem Twins.consume (twins : Twins files roots left right) (count : Nat) :
    Twins files roots (left.consume count) (right.consume count) :=
  twins.moved (·.consume count) (fun _ => ⟨rfl, rfl⟩) fun _ _ => rfl

theorem Twins.marked (twins : Twins files roots left right) :
    Twins files roots left.marked right.marked :=
  twins.moved (·.marked) (fun _ => ⟨rfl, rfl⟩) fun _ _ => rfl

theorem Twins.entering (twins : Twins files roots left right) (token : Token) :
    Twins files roots (left.entering token) (right.entering token) :=
  twins.moved (·.entering token) (fun _ => ⟨rfl, rfl⟩) fun _ _ => rfl

/-- Two steps of scanning come to the same, and the scanners behind them are alike again. -/
def SameStep (files : Files) (roots : List Path) {α : Type} (left right : Scanned α) : Prop :=
  ∃ outcome after after', left = (outcome, after) ∧ right = (outcome, after') ∧
    Twins files roots after after'

theorem Twins.take (twins : Twins files roots left right) (reading : Lexeme.Reading) :
    SameStep files roots (left.take reading) (right.take reading) := by
  have alike := twins.alike
  cases reading with
  | token kind literal extent =>
    refine ⟨_, _, _, rfl, ?_, twins.consume extent⟩
    rw [alike]
    rfl
  | failure complaint extent =>
    refine ⟨_, _, _, rfl, ?_, twins.consume extent⟩
    rw [alike]
    rfl

theorem Twins.commentEnd (twins : Twins files roots left right) :
    ∃ found after after', left.commentEnd = (found, after) ∧ right.commentEnd = (found, after') ∧
      Twins files roots after after' := by
  obtain ⟨faithful, faithful', plain, alike⟩ := twins
  generalize right.search = search at *
  subst alike
  unfold Scanner.commentEnd
  dsimp only
  split <;> exact ⟨_, _, _, rfl, rfl, faithful, faithful', plain, rfl⟩

/-- Settling a token is the one step that asks the search. -/
theorem Twins.settle (twins : Twins files roots left right) (token : Token) :
    SameStep files roots (left.settle files token) (right.settle files token) := by
  obtain ⟨faithful, faithful', plain, alike⟩ := twins
  generalize right.search = search at *
  subst alike
  obtain ⟨later, answer, learned⟩ := faithful.resolve plain token.literal
  obtain ⟨later', answer', learned'⟩ := faithful'.resolve plain token.literal
  unfold Scanner.settle
  dsimp only
  split_ifs
  · exact ⟨_, _, _, rfl, rfl, faithful, faithful', plain, rfl⟩
  · exact ⟨_, _, _, rfl, rfl, faithful, faithful', plain, rfl⟩
  · rw [answer, answer']
    cases ((Search.fresh roots).resolve files left.path token.literal).1 with
    | ok file => exact ⟨_, _, _, rfl, rfl, learned, learned', plain, rfl⟩
    | error failure => exact ⟨_, _, _, rfl, rfl, learned, learned', plain, rfl⟩
  · exact ⟨_, _, _, rfl, rfl, faithful, faithful', plain, rfl⟩

theorem Twins.next (twins : Twins files roots left right) :
    SameStep files roots (left.next files) (right.next files) := by
  have commented : right.commented = left.commented := by rw [twins.alike]
  have rest : right.rest = left.rest := by rw [twins.alike]
  unfold Scanner.next
  rw [commented, rest]
  split
  · obtain ⟨found, after, after', closed, closed', twins'⟩ := twins.commentEnd
    rw [closed, closed']
    exact ⟨_, _, _, rfl, rfl, twins'⟩
  · have started := (twins.consume (Lexeme.blanks false left.rest).length).marked
    have ahead : (right.consume (Lexeme.blanks false left.rest).length).marked.rest =
        (left.consume (Lexeme.blanks false left.rest).length).marked.rest := by rw [started.alike]
    dsimp only
    rw [ahead]
    split
    · exact ⟨_, _, _, rfl, rfl, started⟩
    · next first text _ =>
      obtain ⟨outcome, after, after', taken, taken', twins'⟩ :=
        (started.consume 1).take (Lexeme.read first text)
      rw [taken, taken']
      cases outcome with
      | error error => exact ⟨_, _, _, rfl, rfl, twins'⟩
      | ok token =>
        obtain ⟨outcome, after, after', settled, settled', twins''⟩ :=
          (twins'.entering token).settle token
        dsimp only
        rw [settled, settled']
        cases outcome <;> exact ⟨_, _, _, rfl, rfl, twins''⟩

/-- A token that stands for an imported file has the canonical path of the file. -/
theorem Twins.canonical_next {scanner behind : Scanner} {token : Token}
    (twins : Twins files roots scanner scanner) (rooted : files.Rooted)
    (found : scanner.next files = (.ok (some token), behind)) (imported : token.kind = .module) :
    files.canonical ⟨token.literal⟩ = .ok ⟨token.literal⟩ := by
  rcases next_cases found with
    closing | ⟨_, _, _, _, read, _⟩ | ⟨name, file, _, resolved, _, spelled⟩
  · rw [closing] at imported
    cases imported
  · exact absurd imported (Lexeme.spelled_of_read read).kind_ne.2
  · obtain ⟨later, answer, _⟩ := twins.faithful.resolve twins.plain name
    rw [resolved] at answer
    rw [spelled]
    exact Search.canonical_of_resolve rooted (Prod.mk.inj answer).1.symm

end Scanner

open Scanner (Twins SameStep)

namespace TokenStream

variable {files : Files} {roots : List Path}

theorem scanAll_eq (files : Files) (scanner : Scanner) :
    scanAll files scanner =
      match scanner.next files with
      | (.error error, behind) => (.error error, behind)
      | (.ok none, behind) => (.ok [], behind)
      | (.ok (some token), behind) =>
        match scanAll files behind with
        | (.error error, finished) => (.error error, finished)
        | (.ok tokens, finished) => (.ok (token :: tokens), finished) := by
  rw [scanAll]
  split
  · next scanned => exact scanned ▸ rfl
  · next scanned => exact scanned ▸ rfl
  · next scanned => exact scanned ▸ rfl

theorem twins_scanAll {left right : Scanner} (twins : Twins files roots left right) :
    SameStep files roots (scanAll files left) (scanAll files right) := by
  obtain ⟨outcome, behind, behind', here, there, twins'⟩ := twins.next
  rw [scanAll_eq files left, scanAll_eq files right, here, there]
  match outcome, here with
  | .error error, here => exact ⟨_, _, _, rfl, rfl, twins'⟩
  | .ok none, here => exact ⟨_, _, _, rfl, rfl, twins'⟩
  | .ok (some token), here =>
    have shorter := Scanner.rest_next_lt left files token behind here
    obtain ⟨outcome, _, _, here, there, twins''⟩ := twins_scanAll twins'
    dsimp only
    rw [here, there]
    cases outcome <;> exact ⟨_, _, _, rfl, rfl, twins''⟩
termination_by left.rest.length

/-- The tokens of a file do not depend on what the search remembers. -/
theorem ofBytes_agree {search other : Search} (faithful : search.Faithful files roots)
    (faithful' : other.Faithful files roots) {path : Path}
    (plain : (Search.directoryOf path).Plain) (bytes : List UInt8) :
    ∃ outcome later later', ofBytes files search path bytes = (outcome, later) ∧
      ofBytes files other path bytes = (outcome, later') ∧ later.Faithful files roots := by
  unfold ofBytes
  cases decode path bytes with
  | error error => exact ⟨_, _, _, rfl, rfl, faithful⟩
  | ok text =>
    have twins : Twins files roots (.ofText path (Expansion.expand path text) search)
        (.ofText path (Expansion.expand path text) other) := ⟨faithful, faithful', plain, rfl⟩
    obtain ⟨outcome, after, after', here, there, twins'⟩ := twins_scanAll twins
    dsimp only [ofText]
    rw [here, there, twins'.alike]
    cases outcome <;> exact ⟨_, _, _, rfl, rfl, twins'.faithful⟩

theorem ofBytes_canonical (rooted : files.Rooted) {search later : Search}
    (faithful : search.Faithful files roots) {path : Path} (plain : (Search.directoryOf path).Plain)
    {bytes : List UInt8} {stream : TokenStream}
    (scanned : ofBytes files search path bytes = (.ok stream, later)) :
    ∀ token ∈ stream.tokens, token.kind = .module →
      files.canonical ⟨token.literal⟩ = .ok ⟨token.literal⟩ := by
  have keeps (before : Scanner) (token : Token) (behind : Scanner)
      (twins : Twins files roots before before)
      (found : before.next files = (.ok (some token), behind)) :
      (token.kind = .module → files.canonical ⟨token.literal⟩ = .ok ⟨token.literal⟩) ∧
        Twins files roots behind behind := by
    refine ⟨twins.canonical_next rooted found, ?_⟩
    obtain ⟨_, after, after', here, there, twins'⟩ := twins.next
    rw [found] at here there
    cases here
    cases there
    exact twins'
  obtain ⟨tokens, last, split, ended, imported⟩ :=
    ofBytes_keeps (fun scanner => Twins files roots scanner scanner) _ keeps
      (fun _ => ⟨faithful, faithful, plain, rfl⟩) scanned
  intro token member named
  rw [split] at member
  rcases List.mem_append.mp member with inside | behind
  · exact imported token inside named
  · rw [List.mem_singleton.mp behind, ended] at named
    cases named

end TokenStream

/-- What a file is compiled to does not depend on what the search remembers. -/
theorem SourceUnit.compile_agree (blank : SourceUnit) {files : Files} {roots : List Path}
    {search other : Search} (faithful : search.Faithful files roots)
    (faithful' : other.Faithful files roots) (plain : (Search.directoryOf blank.path).Plain)
    (content : List UInt8) :
    ∃ later, blank.compile files search content = ((blank.compile files other content).1, later) ∧
      later.Faithful files roots := by
  obtain ⟨outcome, later, later', here, there, learned⟩ :=
    TokenStream.ofBytes_agree faithful faithful' plain content
  refine ⟨later, ?_, learned⟩
  rw [compile, compile, here, there]

end StackLang
