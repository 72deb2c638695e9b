import StackLang.Proofs.Searching
import StackLang.Proofs.Writing

/-! Spellings of a directory. Doubled slashes and dots inside of a path lead nowhere else, so what a
search remembers for one spelling of a directory holds for every other one, and a search that was
asked many times answers like one that is asked for the first time. -/
namespace StackLang

open StackLang.Outcome

namespace Path

variable {path directory other : Path} {piece : String}

def leadsOn (piece : String) : Bool := piece ≠ "" && piece ≠ "."

def Component.piece? : Component → Option String
  | .root => none
  | .here => none
  | .up => some ".."
  | .name text => some text

theorem piece?_component? (piece : String) :
    (component? piece).bind Component.piece? = if leadsOn piece then some piece else none := by
  unfold component?
  split
  · rfl
  · rfl
  · rfl
  · next notEmpty notHere _ =>
    have onward : leadsOn piece = true := by
      rw [leadsOn, Bool.and_eq_true, decide_eq_true_eq, decide_eq_true_eq]
      exact ⟨notEmpty, notHere⟩
    rw [if_pos onward]
    rfl

theorem filterMap_piece? (pieces : List String) :
    (pieces.filterMap component?).filterMap Component.piece? = pieces.filter leadsOn := by
  rw [List.filterMap_filterMap, ← List.filterMap_eq_filter]
  congr 1
  funext piece
  rw [piece?_component?]
  rfl

theorem pieces_of_isAbsolute (absolute : path.isAbsolute = true) :
    ∃ more, path.pieces = "" :: more := by
  have first : path.text.toList.head? = some '/' := by simpa [isAbsolute] using absolute
  obtain ⟨rest, spelled⟩ := List.head?_eq_some_iff.mp first
  rw [pieces, spelled, Text.splitAt, if_pos rfl]
  exact ⟨_, rfl⟩

/-- Components tell which pieces of a path lead on. -/
theorem filter_pieces (path : Path) :
    path.pieces.filter leadsOn = path.components.filterMap Component.piece? := by
  unfold components
  split
  · next empty => rw [empty]; rfl
  · next first more spelled =>
    rw [spelled, List.filterMap_append, filterMap_piece?]
    split_ifs with absolute here
    · obtain ⟨others, front⟩ := pieces_of_isAbsolute absolute
      rw [spelled] at front
      obtain ⟨rfl, _⟩ := List.cons.inj front
      rfl
    · subst here
      rfl
    · have front := filterMap_piece? [first]
      rw [List.filterMap_cons] at front
      rw [← List.singleton_append, List.filter_append, ← front]
      cases component? first <;> rfl

theorem root_ne_component? (piece : String) : component? piece ≠ some .root := by
  unfold component?
  split <;> simp

/-- Components tell whether a path starts at the root. -/
theorem isAbsolute_iff (path : Path) : path.isAbsolute = true ↔ .root ∈ path.components := by
  have later (pieces : List String) : .root ∉ pieces.filterMap component? := by
    intro member
    obtain ⟨piece, _, read⟩ := List.mem_filterMap.mp member
    exact root_ne_component? piece read
  unfold components
  split
  · next empty => exact absurd empty (by simp [pieces, splitAt_ne_nil])
  · next first more _ =>
    have front : .root ∉ (component? first).toList := by
      simpa using (root_ne_component? first)
    split_ifs with absolute here
    · simp [absolute]
    · simp [absolute, later]
    · simp [absolute, later, front]

theorem text_eq_of_components (empty : path.components = []) : path.text = "" := by
  by_contra spelled
  have relative : ¬path.isAbsolute = true := by simp [isAbsolute_iff, empty]
  obtain ⟨c, rest, letters⟩ := List.exists_cons_of_ne_nil (String.toList_eq_nil_iff.not.mpr spelled)
  have slashless : c ≠ '/' := by simpa [isAbsolute, letters] using relative
  have first : ∃ front more, path.pieces = String.ofList (c :: front) :: more := by
    rw [pieces, letters, Text.splitAt, if_neg slashless]
    cases pieces : Text.splitAt '/' rest with
    | nil => exact absurd pieces (splitAt_ne_nil '/' rest)
    | cons front more => exact ⟨front, more.map String.ofList, rfl⟩
  obtain ⟨front, more, split⟩ := first
  have some : String.ofList (c :: front) ≠ "" := by simp
  rw [components, split] at empty
  simp only [relative, Bool.false_eq_true, if_false, List.append_eq_nil_iff] at empty
  split_ifs at empty with here
  · simp at empty
  · have read : component? (String.ofList (c :: front)) = none := by simpa using empty.1
    unfold component? at read
    split at read
    · next same => exact some same
    · next same => exact here same
    · cases read
    · cases read

structure SameWay (left right : Path) : Prop where
  absolute : left.isAbsolute = right.isAbsolute
  pieces : left.pieces.filter leadsOn = right.pieces.filter leadsOn
  empty : left.text = "" ↔ right.text = ""

theorem sameWay_of_same (same : directory.same other = true) : SameWay directory other := by
  have components : directory.components = other.components := by simpa [Path.same] using same
  refine ⟨?_, ?_, ?_⟩
  · rw [Bool.eq_iff_iff, isAbsolute_iff, isAbsolute_iff, components]
  · rw [filter_pieces, filter_pieces, components]
  · have nothing : (Path.mk "").components = [] := by decide
    have empty {left right : Path} (components : left.components = right.components)
        (spelled : left.text = "") : right.text = "" := by
      obtain rfl : left = ⟨""⟩ := by cases left; simpa using spelled
      exact text_eq_of_components (components.symm.trans nothing)
    exact ⟨empty components, empty components.symm⟩

theorem SameWay.mem_iff (same : SameWay directory other) {c : Char} (notSlash : c ≠ '/')
    (notDot : c ≠ '.') : c ∈ directory.text.toList ↔ c ∈ other.text.toList := by
  have among (path : Path) :
      c ∈ path.text.toList ↔ ∃ piece ∈ path.pieces.filter leadsOn, c ∈ piece.toList := by
    rw [← and_iff_left (a := c ∈ path.text.toList) notSlash, ← mem_pieces_iff]
    refine exists_congr fun piece => ?_
    rw [List.mem_filter, and_assoc]
    refine and_congr_right fun _ => ?_
    refine ⟨fun inside => ⟨?_, inside⟩, And.right⟩
    rw [leadsOn, Bool.and_eq_true, decide_eq_true_eq, decide_eq_true_eq]
    constructor
    · rintro rfl
      cases inside
    · rintro rfl
      exact notDot (List.mem_singleton.mp inside)
  rw [among, among, same.pieces]

/-- A path seen from a directory has the directory's way in front. -/
theorem pieces_join_of_relative {name : String} (relative : ¬(Path.mk name).isAbsolute = true)
    (spelled : directory.text ≠ "") :
    ∃ front, (directory.join name).pieces = front ++ (Path.mk name).pieces ∧
      front.filter leadsOn = directory.pieces.filter leadsOn ∧
      (directory.join name).isAbsolute = directory.isAbsolute := by
  have started (tail : String) :
      (Path.mk (directory.text ++ tail)).isAbsolute = directory.isAbsolute := by
    obtain ⟨c, rest, letters⟩ :=
      List.exists_cons_of_ne_nil (String.toList_eq_nil_iff.not.mpr spelled)
    simp [isAbsolute, letters]
  have behind (text : List Char) :
      (Text.splitAt '/' (text ++ '/' :: name.toList)).map String.ofList =
        (Text.splitAt '/' text).map String.ofList ++ (Path.mk name).pieces := by
    rw [splitAt_append_mark, List.map_append]
    rfl
  rw [join, if_neg relative]
  split
  · next ended =>
    have slash : directory.text.toList.getLast? = some '/' := by simpa [spelled] using ended
    obtain ⟨text, whole⟩ := List.getLast?_eq_some_iff.mp slash
    refine ⟨(Text.splitAt '/' text).map String.ofList, ?_, ?_, started name⟩
    · rw [pieces, ← behind]
      simp [whole]
    · rw [pieces, whole, splitAt_append_mark, List.map_append, List.filter_append]
      simp [Text.splitAt, leadsOn]
  · refine ⟨directory.pieces, ?_, rfl, ?_⟩
    · rw [pieces, pieces, ← behind]
      simp
    · rw [String.append_assoc]
      exact started ("/" ++ name)

def separator (directory : Path) : String :=
  if directory.text = "" || directory.text.toList.getLast? = some '/' then "" else "/"

theorem join_of_relative {name : String} (relative : ¬(Path.mk name).isAbsolute = true)
    (directory : Path) :
    directory.join name = ⟨directory.text ++ directory.separator ++ name⟩ := by
  rw [join, if_neg relative, separator]
  split <;> simp

theorem separator_append (front : String) {name : String} (spelled : name ≠ "") :
    separator ⟨front ++ name⟩ = separator ⟨name⟩ := by
  have letters : name.toList ≠ [] := String.toList_eq_nil_iff.not.mpr spelled
  have last : (front ++ name).toList.getLast? = name.toList.getLast? := by
    rw [String.toList_append, List.getLast?_append_of_ne_nil _ letters]
  have nonempty : front ++ name ≠ "" := by simp [spelled]
  simp only [separator, last, spelled, nonempty]

theorem separator_join (directory : Path) (name : String) :
    separator ⟨directory.text ++ directory.separator ++ name⟩ = separator ⟨name⟩ := by
  by_cases empty : name = ""
  · subst empty
    unfold separator
    split
    · next ended =>
      rw [if_pos (by simpa using ended)]
      rfl
    · simp
  · exact separator_append _ empty

/-- Names are joined to a directory one by one or all at once. -/
theorem join_join (directory : Path) (name : String) {inner : String}
    (relative : ¬(Path.mk inner).isAbsolute = true) :
    (directory.join name).join inner = directory.join ((Path.mk name).join inner).text := by
  by_cases absolute : (Path.mk name).isAbsolute = true
  · have spelled : (Path.mk name).text ≠ "" := by
      rintro rfl
      exact absurd absolute (by decide)
    obtain ⟨_, _, _, started⟩ := pieces_join_of_relative relative spelled
    have outer : (Path.mk ((Path.mk name).join inner).text).isAbsolute = true :=
      started.trans absolute
    rw [join.eq_def directory, join.eq_def directory, if_pos absolute, if_pos outer]
  · have outer : ¬(Path.mk ((Path.mk name).join inner).text).isAbsolute = true := by
      by_cases empty : name = ""
      · subst empty
        rw [join_of_relative relative]
        simpa [separator] using relative
      · have spelled : (Path.mk name).text ≠ "" := empty
        obtain ⟨_, _, _, started⟩ := pieces_join_of_relative relative spelled
        rw [started]
        exact absolute
    rw [join_of_relative outer, join_of_relative absolute, join_of_relative relative,
      join_of_relative relative, separator_join]
    simp only [String.append_assoc]

end Path

namespace Files

variable {files : Files} {place : Place} {path other directory : Path} {piece : String}

theorem step_outside (outside : files.at? place ≠ some .directory) :
    ∃ error, ∀ piece, files.step place piece = .error error := by
  cases found : files.at? place with
  | none => exact ⟨.notFound, fun piece => by rw [step, found]⟩
  | some entry =>
    cases entry with
    | file => exact ⟨.notDirectory, fun piece => by rw [step, found]⟩
    | directory => exact absurd found outside

/-- A piece that leads nowhere fails only where the next one fails too. -/
theorem steps_idle (idle : Path.leadsOn piece = false) (place : Place) (next : String)
    (rest : List String) :
    (piece :: next :: rest).foldlM files.step place = (next :: rest).foldlM files.step place := by
  by_cases inside : files.at? place = some .directory
  · have stays : (piece = "" || piece = ".") = true := by
      by_contra other
      simp_all [Path.leadsOn]
    have stayed : files.step place piece = .ok place := by rw [step, inside, if_pos stays]
    rw [List.foldlM_cons, stayed]
    rfl
  · obtain ⟨error, fails⟩ := step_outside inside
    rw [List.foldlM_cons, List.foldlM_cons, fails, fails]
    rfl

/-- Only the pieces that lead on count on the way to another piece. -/
theorem steps_filter (front : List String) (last : String) (rest : List String) (place : Place) :
    (front ++ last :: rest).foldlM files.step place =
      (front.filter Path.leadsOn ++ last :: rest).foldlM files.step place := by
  induction front generalizing place with
  | nil => rfl
  | cons piece front ih =>
    cases leads : Path.leadsOn piece with
    | true =>
      rw [List.filter_cons_of_pos leads, List.cons_append, List.cons_append, List.foldlM_cons,
        List.foldlM_cons]
      congr 1
      funext next
      exact ih next
    | false =>
      rw [List.filter_cons_of_neg (by simp [leads]), ← ih, List.cons_append]
      cases front with
      | nil => exact steps_idle leads place last rest
      | cons next front => exact steps_idle leads place next (front ++ last :: rest)

/-- Spellings of one directory see the same entries. -/
theorem locate_join_of_sameWay (files : Files) (same : Path.SameWay directory other)
    (name : String) :
    files.locate (directory.join name) = files.locate (other.join name) := by
  by_cases absolute : (Path.mk name).isAbsolute = true
  · rw [Path.join, Path.join, if_pos absolute, if_pos absolute]
  by_cases spelled : directory.text = ""
  · obtain rfl : directory = other := by
      have spelled' := same.empty.mp spelled
      cases directory
      cases other
      simp_all
    rfl
  · have spelled' : other.text ≠ "" := same.empty.not.mp spelled
    obtain ⟨front, pieces, way, start⟩ := Path.pieces_join_of_relative absolute spelled
    obtain ⟨front', pieces', way', start'⟩ := Path.pieces_join_of_relative absolute spelled'
    have origin : files.origin (directory.join name) = files.origin (other.join name) := by
      rw [Files.origin, Files.origin, start, start', same.absolute]
    have walk :
        (directory.join name).pieces.foldlM files.step (files.origin (directory.join name)) =
        (other.join name).pieces.foldlM files.step (files.origin (other.join name)) := by
      rw [pieces, pieces', origin]
      cases split : (Path.mk name).pieces with
      | nil => exact absurd split (by simp [Path.pieces, splitAt_ne_nil])
      | cons last rest => rw [steps_filter, steps_filter front', way, way', same.pieces]
    have nul : (directory.join name).text.contains (Char.ofNat 0) =
        (other.join name).text.contains (Char.ofNat 0) := by
      have inside (path : Path) : Char.ofNat 0 ∉ path.separator.toList := by
        unfold Path.separator
        split <;> decide
      rw [String.contains_char_eq, String.contains_char_eq, Path.join_of_relative absolute,
        Path.join_of_relative absolute]
      simp [inside, same.mem_iff (c := Char.ofNat 0) (by decide) (by decide)]
    have nonempty (path : Path) (spelled : path.text ≠ "") : (path.join name).text ≠ "" := by
      rw [Path.join_of_relative absolute]
      simp [spelled]
    rw [locate, locate, nul, walk, if_neg (nonempty directory spelled),
      if_neg (nonempty other spelled')]

def leadsToFile (files : Files) : Except OsError Place → Bool
  | .ok place =>
    match files.at? place with
    | some (.file _ _) => true
    | _ => false
  | .error _ => false

theorem isFile_eq (files : Files) (path : Path) :
    files.isFile path = files.leadsToFile (files.locate path) := by
  rw [isFile, entry]
  cases files.locate path with
  | error error => rfl
  | ok place =>
    simp only [bind, Except.bind, leadsToFile]
    cases files.at? place with
    | none => rfl
    | some entry => cases entry <;> rfl

theorem canonical_of_isFile (stands : files.isFile path = true) :
    ∃ full, files.canonical path = .ok full := by
  cases located : files.locate path with
  | error error => simp [isFile, entry, located, bind, Except.bind] at stands
  | ok place =>
    rw [canonical, located]
    exact ⟨pathOf place, rfl⟩

end Files

namespace Search

variable {search : Search} {files : Files} {roots : List Path} {importer sibling file : Path}
  {name : String}

/-- The files that an import can mean, the nearest first. -/
def meantFiles (roots : List Path) (importer : Path) (name : String) : List Path :=
  let directory := importer.parent?.getD ⟨""⟩
  directory.join (name ++ ".qd") :: (directory.join name).join "module.qd" ::
    roots.map fun root => (root.join name).join "module.qd"

/-- An import means the first of some files that is there, by its canonical path, or none. -/
def Means (files : Files) (name : String) (meant : List Path) :
    Except ModuleNotFound Path → Prop
  | .ok file => ∃ front candidate back, meant = front ++ candidate :: back ∧
      (∀ other ∈ front, files.isFile other = false) ∧ files.isFile candidate = true ∧
      files.canonical candidate = .ok file
  | .error failure => failure = ⟨name, meant⟩ ∧ ∀ candidate ∈ meant, files.isFile candidate = false

theorem fresh_resolve (files : Files) (roots : List Path) (importer : Path) (name : String) :
    ((fresh roots).resolve files importer name).1 =
      match (meantFiles roots importer name).find? files.isFile with
      | none => .error ⟨name, meantFiles roots importer name⟩
      | some candidate => .ok ((files.canonical candidate).toOption.getD candidate) := by
  have forgotten : (fresh roots).remembered? (directoryOf importer) name = none := rfl
  have listed : (fresh roots).candidates (directoryOf importer) name =
      meantFiles roots importer name := rfl
  simp only [Search.resolve, forgotten, listed]
  cases (meantFiles roots importer name).find? files.isFile with
  | none => rfl
  | some candidate =>
    dsimp only
    cases files.canonical candidate <;> rfl

/-- What a fresh search answers. -/
theorem means_fresh (files : Files) (roots : List Path) (importer : Path) (name : String) :
    Means files name (meantFiles roots importer name)
      ((fresh roots).resolve files importer name).1 := by
  rw [fresh_resolve]
  cases found : (meantFiles roots importer name).find? files.isFile with
  | none =>
    refine ⟨rfl, ?_⟩
    intro candidate member
    simpa using List.find?_eq_none.mp found candidate member
  | some candidate =>
    obtain ⟨stands, front, back, split, absent⟩ := List.find?_eq_some_iff_append.mp found
    obtain ⟨full, made⟩ := Files.canonical_of_isFile stands
    refine ⟨front, candidate, back, split, ?_, stands, ?_⟩
    · intro other member
      simpa using absent other member
    · rw [made]
      rfl

theorem locate_meantFiles (same : (directoryOf importer).same (directoryOf sibling) = true) :
    (meantFiles roots importer name).map files.locate =
      (meantFiles roots sibling name).map files.locate := by
  have way := Path.sameWay_of_same same
  have relative : ¬(Path.mk "module.qd").isAbsolute = true := by decide
  have inner (directory : Path) : (directory.join name).join "module.qd" =
      directory.join ((Path.mk name).join "module.qd").text :=
    Path.join_join directory name relative
  have nearest := files.locate_join_of_sameWay way (name ++ ".qd")
  have entry := files.locate_join_of_sameWay way ((Path.mk name).join "module.qd").text
  rw [directoryOf, directoryOf] at nearest entry
  simp only [meantFiles, List.map_cons, inner, nearest, entry]

theorem fresh_resolve_ok_iff :
    ((fresh roots).resolve files importer name).1 = .ok file ↔
      (((meantFiles roots importer name).map files.locate).find? files.leadsToFile).map
        (Except.map Files.pathOf) = some (.ok file) := by
  have stands : files.isFile = files.leadsToFile ∘ files.locate := by
    funext path
    exact files.isFile_eq path
  rw [fresh_resolve, List.find?_map, ← stands]
  cases found : (meantFiles roots importer name).find? files.isFile with
  | none => simp
  | some candidate =>
    obtain ⟨full, made⟩ := Files.canonical_of_isFile (List.find?_some found)
    have located : (files.locate candidate).map Files.pathOf = .ok full := made
    simp [made, located, Except.toOption]

/-- One directory has one answer, however it is spelled. -/
theorem resolve_of_same (same : (directoryOf importer).same (directoryOf sibling) = true)
    (answered : ((fresh roots).resolve files importer name).1 = .ok file) :
    ((fresh roots).resolve files sibling name).1 = .ok file := by
  rw [fresh_resolve_ok_iff, ← locate_meantFiles same]
  exact fresh_resolve_ok_iff.mp answered

/-- What a search remembers is what a fresh one finds from every spelling of the directory. -/
structure Truthful (search : Search) (files : Files) (roots : List Path) : Prop where
  sameRoots : search.roots = roots
  found : ∀ finding ∈ search.known, ∀ importer,
    finding.directory.same (directoryOf importer) = true →
      ((fresh roots).resolve files importer finding.name).1 = .ok finding.file

theorem truthful_fresh (files : Files) (roots : List Path) : (fresh roots).Truthful files roots :=
  ⟨rfl, by simp [fresh]⟩

/-- A search answers as a fresh one does, and what it learns is true. -/
theorem Truthful.resolve (truthful : search.Truthful files roots) (importer : Path)
    (name : String) :
    (search.resolve files importer name).1 = ((fresh roots).resolve files importer name).1 ∧
      (search.resolve files importer name).2.Truthful files roots := by
  cases recalled : search.remembered? (directoryOf importer) name with
  | some file =>
    obtain ⟨finding, chosen, rfl⟩ := Option.map_eq_some_iff.mp recalled
    have member := List.mem_of_find?_eq_some chosen
    have fits := List.find?_some chosen
    rw [Bool.and_eq_true, beq_iff_eq] at fits
    obtain ⟨same, rfl⟩ := fits
    rw [truthful.found finding member importer same]
    simp only [Search.resolve, recalled]
    exact ⟨trivial, truthful⟩
  | none =>
    obtain rfl := truthful.sameRoots
    rw [search.resolve_of_forgotten recalled]
    refine ⟨rfl, ?_⟩
    cases answered : ((fresh search.roots).resolve files importer name).1 with
    | error failure => exact truthful
    | ok file =>
      refine ⟨rfl, List.forall_mem_append.mpr ⟨truthful.found, ?_⟩⟩
      intro finding last sibling same
      rw [List.mem_singleton] at last
      subst last
      exact resolve_of_same same answered

def resolveAll (files : Files) : Search → List (Path × String) → List (Except ModuleNotFound Path)
  | _, [] => []
  | search, (importer, name) :: calls =>
    let (answer, later) := search.resolve files importer name
    answer :: resolveAll files later calls

theorem Truthful.resolveAll_eq (truthful : search.Truthful files roots)
    (calls : List (Path × String)) :
    resolveAll files search calls =
      calls.map fun call => ((fresh roots).resolve files call.1 call.2).1 := by
  induction calls generalizing search with
  | nil => rfl
  | cons call calls ih =>
    obtain ⟨answer, learned⟩ := truthful.resolve call.1 call.2
    rw [resolveAll, List.map_cons, ← answer, ← ih learned]

/-- Whatever was looked up before, and from whatever spelling of a directory, an import means the
first file that its name can stand for. -/
theorem searches_answer_as_if_they_were_fresh (files : Files) (roots : List Path)
    (calls : List (Path × String)) :
    List.Forall₂
      (fun call answer => answer = ((fresh roots).resolve files call.1 call.2).1 ∧
        Means files call.2 (meantFiles roots call.1 call.2) answer)
      calls (resolveAll files (fresh roots) calls) := by
  rw [(truthful_fresh files roots).resolveAll_eq calls, List.forall₂_map_right_iff,
    List.forall₂_same]
  intro call _
  exact ⟨rfl, means_fresh files roots call.1 call.2⟩

end Search

end StackLang
