import Mathlib.Data.List.DropRight
import StackLang.Proofs.FileNames
import StackLang.Proofs.Outcome

/-! Places and the paths that lead to them. Whatever path leads to a place, the path of the place
itself leads there too, so a path that was made canonical stays as it is. -/
namespace StackLang

open StackLang.Outcome

/-- The pieces of a text have all its characters but the mark. -/
theorem exists_mem_splitAt_iff {mark c : Char} {text : List Char} :
    (∃ piece ∈ Text.splitAt mark text, c ∈ piece) ↔ c ∈ text ∧ c ≠ mark := by
  induction text with
  | nil => simp [Text.splitAt]
  | cons first rest ih =>
    rw [Text.splitAt]
    split
    · next marked =>
      simp only [List.mem_cons, exists_eq_or_imp, List.not_mem_nil, false_or, ih]
      grind
    · cases pieces : Text.splitAt mark rest with
      | nil => exact absurd pieces (splitAt_ne_nil mark rest)
      | cons start others =>
        simp only [pieces, List.mem_cons, exists_eq_or_imp] at ih
        simp only [List.mem_cons, exists_eq_or_imp, or_assoc, ih]
        grind

theorem splitAt_intercalate {mark : Char} {first : List Char} {pieces : List (List Char)}
    (unmarked : ∀ piece ∈ first :: pieces, mark ∉ piece) :
    Text.splitAt mark ([mark].intercalate (first :: pieces)) = first :: pieces := by
  induction pieces generalizing first with
  | nil =>
    rw [List.intercalate_singleton]
    exact splitAt_of_not_mem (unmarked first List.mem_cons_self)
  | cons second pieces ih =>
    obtain ⟨here, later⟩ := List.forall_mem_cons.mp unmarked
    rw [List.intercalate_cons_cons, List.append_assoc, List.singleton_append,
      splitAt_append_mark, splitAt_of_not_mem here, ih later]
    rfl

theorem mem_pieces_iff {path : Path} {c : Char} :
    (∃ piece ∈ path.pieces, c ∈ piece.toList) ↔ c ∈ path.text.toList ∧ c ≠ '/' := by
  rw [← exists_mem_splitAt_iff, Path.pieces]
  simp

structure EntryName (name : String) : Prop where
  slashless : '/' ∉ name.toList
  nulless : Char.ofNat 0 ∉ name.toList
  notEmpty : name ≠ ""
  notHere : name ≠ "."
  notUp : name ≠ ".."
  short : name.utf8ByteSize ≤ Files.longestName

theorem EntryName.component?_eq {name : String} (proper : EntryName name) :
    Path.component? name = some (.name name) := by
  unfold Path.component?
  split
  · exact absurd rfl proper.notEmpty
  · exact absurd rfl proper.notHere
  · exact absurd rfl proper.notUp
  · rfl

namespace Files

variable {files : Files} {place next : Place} {path : Path} {name piece : String}

inductive Walkable (files : Files) : Place → Prop
  | root : Walkable files []
  | enter {place : Place} {name : String} (above : Walkable files place)
      (inside : files.at? place = some .directory) (proper : EntryName name)
      (known : (files.at? (place ++ [name])).isSome) : Walkable files (place ++ [name])

namespace Walkable

theorem dropLast (walkable : files.Walkable place) : files.Walkable place.dropLast := by
  cases walkable with
  | root => exact .root
  | enter above => rwa [List.dropLast_concat]

theorem proper (walkable : files.Walkable place) : ∀ name ∈ place, EntryName name := by
  induction walkable with
  | root => simp
  | enter _ _ proper _ ih => exact List.forall_mem_append.mpr ⟨ih, by simpa using proper⟩

theorem step (walkable : files.Walkable place) (slashless : '/' ∉ piece.toList)
    (nulless : Char.ofNat 0 ∉ piece.toList) (stepped : files.step place piece = .ok next) :
    files.Walkable next := by
  unfold Files.step at stepped
  split at stepped
  · cases stepped
  · cases stepped
  · next inside =>
    split_ifs at stepped with stays up long known
    · cases stepped; exact walkable
    · cases stepped; exact walkable.dropLast
    · cases stepped
      simp only [Bool.or_eq_true, decide_eq_true_eq, not_or] at stays
      exact .enter walkable inside
        ⟨slashless, nulless, stays.1, stays.2, up, Nat.le_of_not_lt long⟩ known

/-- The names of a place lead to it from the root. -/
theorem walked (walkable : files.Walkable place) : place.foldlM files.step [] = .ok place := by
  induction walkable with
  | root => rfl
  | enter above inside proper known ih =>
    rw [List.foldlM_append, ih]
    change [_].foldlM files.step _ = _
    have short := Nat.not_lt.mpr proper.short
    simp [Files.step, inside, proper.notEmpty, proper.notHere, proper.notUp, short, known]

end Walkable

theorem isAbsolute_pathOf (place : Place) : (pathOf place).isAbsolute = true := by
  simp [Path.isAbsolute, pathOf]

/-- Behind the root a path has the names of its place, and an empty piece if there are none. -/
theorem pieces_pathOf (proper : ∀ name ∈ place, EntryName name) :
    (pathOf place).pieces = "" :: if place = [] then [""] else place := by
  have split : Text.splitAt '/' (pathOf place).text.toList =
      [] :: Text.splitAt '/' (['/'].intercalate (place.map String.toList)) := by
    simp [pathOf, Path.slashed, Text.splitAt]
  rw [Path.pieces, split]
  cases place with
  | nil => rfl
  | cons first names =>
    have unmarked : ∀ piece ∈ first.toList :: names.map String.toList, '/' ∉ piece := by
      rw [← List.map_cons]
      intro piece member
      obtain ⟨name, among, rfl⟩ := List.mem_map.mp member
      exact (proper name among).slashless
    have parted := splitAt_intercalate unmarked
    rw [← List.map_cons] at parted
    rw [parted]
    simp [Function.comp_def]

/-- A path with the names of a place leads from the root along them. -/
theorem locate_pathOf_eq (proper : ∀ name ∈ place, EntryName name) :
    files.locate (pathOf place) = place.foldlM files.step [] := by
  have nulless : ¬(pathOf place).text.contains (Char.ofNat 0) = true := by
    rw [String.contains_char_eq, decide_eq_true_eq]
    intro member
    obtain ⟨name, among, inside⟩ := mem_pieces_iff.mpr ⟨member, by decide⟩
    rw [pieces_pathOf proper] at among
    split_ifs at among with empty
    · simp_all
    · rcases List.mem_cons.mp among with rfl | among
      · cases inside
      · exact (proper name among).nulless inside
  have origin : files.origin (pathOf place) = [] := by
    rw [origin, if_pos (isAbsolute_pathOf place)]
  have root : files.step [] "" = .ok [] := by simp [step, at?]
  rw [locate, if_neg nulless, if_neg (by simp [pathOf]), origin, pieces_pathOf proper,
    List.foldlM_cons, root]
  change (if place = [] then [""] else place).foldlM files.step [] = _
  split
  · next empty =>
    rw [empty, List.foldlM_cons, root]
    rfl
  · rfl

theorem locate_pathOf (walkable : files.Walkable place) :
    files.locate (pathOf place) = .ok place := by
  rw [locate_pathOf_eq walkable.proper]
  exact walkable.walked

theorem step_of_proper (proper : EntryName name) (stepped : files.step place name = .ok next) :
    next = place ++ [name] := by
  unfold step at stepped
  split at stepped
  · cases stepped
  · cases stepped
  · have short := Nat.not_lt.mpr proper.short
    simp only [proper.notEmpty, proper.notHere, proper.notUp, short, decide_false, Bool.or_self,
      Bool.false_eq_true, if_false] at stepped
    split at stepped <;> cases stepped
    rfl

theorem eq_of_steps {start : Place} (proper : ∀ name ∈ place, EntryName name)
    (walked : place.foldlM files.step start = .ok next) : next = start ++ place := by
  induction place generalizing start with
  | nil =>
    cases walked
    exact (List.append_nil _).symm
  | cons name names ih =>
    obtain ⟨inner, stepped, walked⟩ := bind_ok walked
    obtain ⟨first, others⟩ := List.forall_mem_cons.mp proper
    rw [ih others walked, step_of_proper first stepped, List.append_assoc, List.singleton_append]

/-- A path with the names of a place leads nowhere else. -/
theorem eq_of_locate_pathOf (proper : ∀ name ∈ place, EntryName name)
    (located : files.locate (pathOf place) = .ok next) : next = place := by
  rw [locate_pathOf_eq proper] at located
  exact eq_of_steps proper located

theorem inside_of_step (stepped : files.step place piece = .ok next) :
    files.at? place = some .directory := by
  unfold step at stepped
  split at stepped
  · cases stepped
  · cases stepped
  · next inside => exact inside

theorem walkable_of_steps {start : Place} (begun : files.Walkable start)
    (nulless : Char.ofNat 0 ∉ path.text.toList)
    (walked : path.pieces.foldlM files.step start = .ok place) : files.Walkable place := by
  refine foldlM_keeps ?_ begun walked
  intro piece member before after walkable stepped
  refine walkable.step ?_ ?_ stepped
  · intro slash
    exact (mem_pieces_iff.mp ⟨piece, member, slash⟩).2 rfl
  · intro nul
    exact nulless (mem_pieces_iff.mp ⟨piece, member, nul⟩).1

/-- The working directory, if there is one, is where its path leads. -/
def Rooted (files : Files) : Prop :=
  files.at? files.working = some .directory →
    files.locate (pathOf files.working) = .ok files.working

theorem Rooted.walkable (rooted : files.Rooted) (located : files.locate path = .ok place) :
    files.Walkable place := by
  have walkable {path : Path} {place : Place} (located : files.locate path = .ok place)
      (begun : files.Walkable (files.origin path)) : files.Walkable place := by
    unfold locate at located
    split_ifs at located with nul
    rw [String.contains_char_eq, decide_eq_true_eq] at nul
    exact walkable_of_steps begun nul located
  refine walkable located ?_
  unfold origin
  split
  · exact .root
  · next relative =>
    -- The first step needs a directory to stand in.
    have inside : files.at? files.working = some .directory := by
      unfold locate origin at located
      split_ifs at located
      cases pieces : path.pieces with
      | nil => exact absurd pieces (by simp [Path.pieces, splitAt_ne_nil])
      | cons piece others =>
        rw [pieces] at located
        obtain ⟨next, stepped, _⟩ := bind_ok located
        exact inside_of_step stepped
    refine walkable (rooted inside) ?_
    rw [origin, if_pos (isAbsolute_pathOf _)]
    exact .root

theorem canonical_ok {full : Path} (made : files.canonical path = .ok full) :
    ∃ place, files.locate path = .ok place ∧ full = pathOf place := by
  unfold canonical at made
  cases located : files.locate path with
  | error error => rw [located] at made; cases made
  | ok place =>
    rw [located] at made
    cases made
    exact ⟨place, rfl, rfl⟩

theorem Rooted.canonical_canonical (rooted : files.Rooted) {full : Path}
    (made : files.canonical path = .ok full) : files.canonical full = .ok full := by
  obtain ⟨place, located, rfl⟩ := canonical_ok made
  rw [canonical, locate_pathOf (rooted.walkable located)]
  rfl

theorem components_pathOf (proper : ∀ name ∈ place, EntryName name) :
    (pathOf place).components = .root :: place.map .name := by
  have named : place.filterMap Path.component? = place.map .name := by
    rw [← List.filterMap_eq_map]
    refine List.filterMap_congr ?_
    intro name member
    exact (proper name member).component?_eq
  rw [Path.components, pieces_pathOf proper]
  simp only [isAbsolute_pathOf, if_true]
  split
  · next empty => simp [empty, Path.component?]
  · rw [named]
    rfl

theorem eq_of_same {other : Place} (proper : ∀ name ∈ place, EntryName name)
    (proper' : ∀ name ∈ other, EntryName name)
    (same : (pathOf place).same (pathOf other) = true) : place = other := by
  rw [Path.same, components_pathOf proper, components_pathOf proper', beq_iff_eq] at same
  have names := List.tail_eq_of_cons_eq same
  refine List.map_injective_iff.mpr ?_ names
  intro name name' equal
  injection equal

theorem trimmed_of_proper {names : List String} (proper : ∀ name ∈ names, EntryName name) :
    Path.trimmed names = names := by
  refine List.rdropWhile_eq_self_iff.mpr ?_
  intro some meaningless
  have last := proper _ (List.getLast_mem some)
  rcases (Bool.or_eq_true _ _).mp meaningless with empty | here
  · exact last.notEmpty (beq_iff_eq.mp empty)
  · exact last.notHere (beq_iff_eq.mp here)

/-- The imports of a file are seen from the directory that holds it. -/
theorem directoryOf_pathOf (proper : ∀ name ∈ place, EntryName name) (notRoot : place ≠ []) :
    Search.directoryOf (pathOf place) = pathOf place.dropLast := by
  have front : ∀ name ∈ place.dropLast, EntryName name :=
    fun name member => proper name (List.dropLast_subset place member)
  have parent : (pathOf place).parent? = some (pathOf place.dropLast) := by
    rw [Path.parent?, pieces_pathOf proper]
    simp only [isAbsolute_pathOf, if_true, if_neg notRoot, trimmed_of_proper proper]
    rw [trimmed_of_proper front]
    rfl
  rw [Search.directoryOf, parent]
  rfl

end Files

end StackLang
