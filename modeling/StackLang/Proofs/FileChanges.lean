import StackLang.Proofs.CanonicalPaths
import StackLang.Proofs.Writing

/-! Changes of single files. A file that is made, changed or removed leaves all directories as they
are, so every path goes on leading to the same place; that carries what one change does over to a
row of changes. -/
namespace StackLang

open StackLang.Outcome

namespace Files

variable {files before after last : Files} {path : Path} {place target : Place} {name : String}
  {content : List UInt8} {program : Option Program}

/-! ### The same directories -/

/-- A tree that has all directories of another one, and the same one to start from. -/
structure KeepsDirectories (before after : Files) : Prop where
  working : after.working = before.working
  kept : ∀ place, before.at? place = some .directory → after.at? place = some .directory

namespace KeepsDirectories

theorem refl (files : Files) : KeepsDirectories files files :=
  ⟨rfl, fun _ found => found⟩

theorem trans (keeps : KeepsDirectories before after) (keeps' : KeepsDirectories after last) :
    KeepsDirectories before last :=
  ⟨keeps'.working.trans keeps.working, fun place found =>
    keeps'.kept place (keeps.kept place found)⟩

theorem origin (keeps : KeepsDirectories before after) (path : Path) :
    after.origin path = before.origin path := by
  rw [Files.origin, Files.origin, keeps.working]

theorem step (keeps : KeepsDirectories before after) {piece : String}
    (stepped : before.step place piece = .ok target)
    (inside : before.at? target = some .directory) : after.step place piece = .ok target := by
  have here := inside_of_step stepped
  unfold Files.step at stepped ⊢
  rw [here] at stepped
  rw [keeps.kept place here]
  dsimp only at stepped ⊢
  split_ifs at stepped ⊢ with stays up long known known'
  · exact stepped
  · exact stepped
  · exact stepped
  · cases stepped
    exact known (by rw [keeps.kept _ inside]; rfl)

/-- The way to a directory is the same. -/
theorem steps (keeps : KeepsDirectories before after) {pieces : List String}
    (walked : pieces.foldlM before.step place = .ok target)
    (inside : before.at? target = some .directory) :
    pieces.foldlM after.step place = .ok target := by
  induction pieces generalizing place with
  | nil => exact walked
  | cons piece pieces ih =>
    obtain ⟨next, stepped, others⟩ := bind_ok walked
    have between : before.at? next = some .directory := by
      cases pieces with
      | nil =>
        cases others
        exact inside
      | cons piece pieces =>
        obtain ⟨_, stepped, _⟩ := bind_ok others
        exact inside_of_step stepped
    rw [List.foldlM_cons, keeps.step stepped between]
    exact ih others

theorem leads (keeps : KeepsDirectories before after) (leads : Leads before path place name) :
    Leads after path place name where
  spelled := leads.spelled
  walked := by
    obtain ⟨front, pieces, walked⟩ := leads.walked
    refine ⟨front, pieces, ?_⟩
    rw [keeps.origin]
    exact keeps.steps walked leads.inside
  inside := keeps.kept place leads.inside
  proper := leads.proper
  short := leads.short

end KeepsDirectories

structure SameDirectories (before after : Files) : Prop extends KeepsDirectories before after where
  known : ∀ place, after.at? place = some .directory → before.at? place = some .directory

namespace SameDirectories

theorem refl (files : Files) : SameDirectories files files :=
  ⟨.refl files, fun _ found => found⟩

theorem symm (same : SameDirectories before after) : SameDirectories after before :=
  ⟨⟨same.working.symm, same.known⟩, same.kept⟩

theorem trans (same : SameDirectories before after) (same' : SameDirectories after last) :
    SameDirectories before last :=
  ⟨same.toKeepsDirectories.trans same'.toKeepsDirectories, fun place found =>
    same.known place (same'.known place found)⟩

end SameDirectories

/-- A step along a name enters what has the name. -/
theorem entered_of_step (proper : ¬(name = "" || name = "." || name = "..") = true)
    (stepped : files.step place name = .ok target) :
    ¬longestName < name.utf8ByteSize ∧ target = place ++ [name] ∧
      (files.at? target).isSome = true := by
  have inside := inside_of_step stepped
  simp only [Bool.or_eq_true, decide_eq_true_eq, not_or] at proper
  simp only [step, inside, proper.1.1, proper.1.2, proper.2, decide_false, Bool.or_self,
    Bool.false_eq_true, if_false] at stepped
  split_ifs at stepped with long known
  cases stepped
  exact ⟨long, rfl, known⟩

/-- The place of a file that a path names, whether the file is there or not. -/
def Names (files : Files) (path : Path) (place : Place) : Prop :=
  ∃ holder name, Leads files path holder name ∧ place = holder ++ [name]

theorem Names.unique (named : files.Names path place) (named' : files.Names path target) :
    place = target := by
  obtain ⟨holder, name, leads, rfl⟩ := named
  obtain ⟨holder', name', leads', rfl⟩ := named'
  obtain ⟨front, pieces, walked⟩ := leads.walked
  obtain ⟨front', pieces', walked'⟩ := leads'.walked
  obtain ⟨rfl, same⟩ := List.append_inj' (pieces.symm.trans pieces') rfl
  rw [walked] at walked'
  cases walked'
  rw [same]

theorem Names.getLast?_eq (named : files.Names path place) :
    place.getLast? = path.pieces.getLast? := by
  obtain ⟨holder, name, leads, rfl⟩ := named
  obtain ⟨front, pieces, _⟩ := leads.walked
  rw [pieces, List.getLast?_concat, List.getLast?_concat]

theorem SameDirectories.names_iff (same : SameDirectories before after) :
    after.Names path place ↔ before.Names path place := by
  constructor
  · rintro ⟨holder, name, leads, rfl⟩
    exact ⟨holder, name, same.symm.toKeepsDirectories.leads leads, rfl⟩
  · rintro ⟨holder, name, leads, rfl⟩
    exact ⟨holder, name, same.toKeepsDirectories.leads leads, rfl⟩

/-! ### One file -/

/-- Two trees that differ in one file at most, which is made, changed or removed. -/
structure SameBut (place : Place) (before after : Files) : Prop where
  working : after.working = before.working
  elsewhere : ∀ other ≠ place, after.at? other = before.at? other
  noDirectory : before.at? place ≠ some .directory
  noDirectory' : after.at? place ≠ some .directory

theorem SameBut.sameDirectories (same : SameBut place before after) :
    SameDirectories before after where
  working := same.working
  kept := by
    intro other found
    have elsewhere : other ≠ place := fun here => same.noDirectory (here ▸ found)
    rw [same.elsewhere other elsewhere, found]
  known := by
    intro other found
    have elsewhere : other ≠ place := fun here => same.noDirectory' (here ▸ found)
    rw [← same.elsewhere other elsewhere, found]

theorem at?_erase_self (notRoot : target ≠ []) : (files.erase target).at? target = none := by
  simp [at?, if_neg notRoot, erase, List.find?_eq_none]

theorem at?_erase_of_ne (other : place ≠ target) :
    (files.erase target).at? place = files.at? place := by
  have kept : (files.entries.filter fun pair => pair.1 ≠ target).find?
      (fun pair => pair.1 = place) = files.entries.find? fun pair => pair.1 = place := by
    rw [List.find?_filter]
    congr 1
    funext pair
    by_cases here : pair.1 = place <;> simp [here, other]
  simp only [at?, erase, kept]

theorem sameBut_put (notRoot : target ≠ []) (free : files.at? target ≠ some .directory) :
    SameBut target files (files.put target (.file content program)) where
  working := rfl
  elsewhere := fun _ different => at?_put_of_ne different _
  noDirectory := free
  noDirectory' := by
    rw [at?_put_self notRoot]
    simp

theorem sameBut_erase (notRoot : target ≠ []) (free : files.at? target ≠ some .directory) :
    SameBut target files (files.erase target) where
  working := rfl
  elsewhere := fun _ different => at?_erase_of_ne different
  noDirectory := free
  noDirectory' := by
    rw [at?_erase_self notRoot]
    simp

/-- What was done where a file could be written, seen from the outside. -/
theorem sameBut_of_write (written : files.write path content = .ok after) :
    ∃ place, files.Names path place ∧ SameBut place files after := by
  obtain ⟨holder, name, leads, free, rfl⟩ := write_ok written
  exact ⟨holder ++ [name], ⟨holder, name, leads, rfl⟩, sameBut_put (by simp) free⟩

theorem holder_of_leads (leads : Leads files path place name) :
    files.holder path path.pieces = .ok (place, name) := by
  obtain ⟨front, pieces, walked⟩ := leads.walked
  rw [holder, if_neg leads.spelled.1, if_neg leads.spelled.2, pieces]
  simp [walked, leads.inside, bind, Except.bind, pure, Except.pure]

/-- A file can be written where a path leads, unless a directory is there. -/
theorem write_of_leads (leads : Leads files path place name)
    (free : files.at? (place ++ [name]) ≠ some .directory) (content : List UInt8) :
    files.write path content = .ok (files.put (place ++ [name]) (.file content none)) := by
  rw [write, holder_of_leads leads]
  dsimp only [bind, Except.bind]
  rw [if_neg leads.proper, if_neg leads.short]
  cases found : files.at? (place ++ [name]) with
  | none => rfl
  | some entry =>
    cases entry with
    | file => rfl
    | directory => exact absurd found free

theorem withoutTrailingSlashes_of_concat {front : List String}
    (pieces : path.pieces = front ++ [name]) (spelled : name ≠ "") : withoutTrailingSlashes path = path.pieces := by
  rw [withoutTrailingSlashes, pieces]
  simp [spelled]

/-- The pieces of a path are those without slashes at the end, and empty ones. -/
theorem pieces_withoutTrailingSlashes (path : Path) :
    ∃ count, path.pieces = withoutTrailingSlashes path ++ List.replicate count "" := by
  have whole : withoutTrailingSlashes path ++ path.pieces.rtakeWhile (· == "") = path.pieces :=
    List.rdropWhile_append_rtakeWhile
  refine ⟨(path.pieces.rtakeWhile (· == "")).length, ?_⟩
  rw [List.eq_replicate_of_mem (a := "") (l := path.pieces.rtakeWhile (· == ""))] at whole
  · exact whole.symm
  · intro piece member
    simpa using List.mem_rtakeWhile_imp member

/-- What comes of removing a file where a path leads to it. -/
theorem removeFile_of_leads (leads : Leads files path place name) :
    files.removeFile path =
      match files.at? (place ++ [name]) with
      | none => .error .notFound
      | some .directory => .error .isDirectory
      | some (.file _ _) => .ok (files.erase (place ++ [name])) := by
  have proper := leads.proper
  simp only [Bool.or_eq_true, decide_eq_true_eq, not_or] at proper
  obtain ⟨front, pieces, _⟩ := leads.walked
  have whole := withoutTrailingSlashes_of_concat pieces proper.1.1
  have held := holder_of_leads leads
  unfold removeFile
  split
  · next none =>
    rw [whole, pieces] at none
    simp at none
  · rw [whole, held]
    have middle : ¬((name = "." || name = "..") = true) := by simp [proper]
    simp only [bind, Except.bind, if_neg middle, if_neg leads.short, if_true]
    rfl

theorem last_withoutTrailingSlashes (some : withoutTrailingSlashes path ≠ []) :
    (withoutTrailingSlashes path).getLast some ≠ "" := by
  intro empty
  exact List.rdropWhile_last_not (· == "") path.pieces some (beq_iff_eq.mpr empty)

/-- The holder of the last name of a path, and the way to it. -/
theorem holder_withoutTrailingSlashes (some : withoutTrailingSlashes path ≠ [])
    (held : files.holder path (withoutTrailingSlashes path) = .ok (place, name)) :
    name ≠ "" ∧ ∃ front count, withoutTrailingSlashes path = front ++ [name] ∧
      path.pieces = front ++ name :: List.replicate count "" ∧
      front.foldlM files.step (files.origin path) = .ok place := by
  obtain ⟨_, last, walked, _⟩ := holder_ok held
  obtain ⟨count, whole⟩ := pieces_withoutTrailingSlashes path
  have ended : name = (withoutTrailingSlashes path).getLast some := by
    rw [last, List.getLast?_eq_some_getLast some, Option.getD_some]
  have split : withoutTrailingSlashes path = (withoutTrailingSlashes path).dropLast ++ [name] := by
    rw [ended, List.dropLast_concat_getLast]
  refine ⟨ended ▸ last_withoutTrailingSlashes some, _, count, split, ?_, walked⟩
  rw [whole]
  nth_rewrite 1 [split]
  rw [List.append_assoc, List.singleton_append]

theorem removeFile_ok (removed : files.removeFile path = .ok after) :
    ∃ place name, Leads files path place name ∧
      files.at? (place ++ [name]) ≠ some .directory ∧ after = files.erase (place ++ [name]) := by
  unfold removeFile at removed
  split at removed
  · split at removed <;> cases removed
  · next some =>
    obtain ⟨⟨place, name⟩, held, removed⟩ := bind_ok removed
    obtain ⟨spelled, _, _, inside⟩ := holder_ok held
    obtain ⟨notEmpty, front, count, trimmed, whole, walked⟩ :=
      holder_withoutTrailingSlashes some held
    dsimp only at removed
    by_cases dotted : (name = "." || name = "..") = true
    · rw [if_pos dotted] at removed
      cases removed
    by_cases long : longestName < name.utf8ByteSize
    · rw [if_neg dotted, if_pos long] at removed
      cases removed
    rw [if_neg dotted, if_neg long] at removed
    split at removed
    · cases removed
    · cases removed
    · next found =>
      split at removed
      · next full =>
        cases removed
        obtain rfl : count = 0 := by
          rw [trimmed, whole] at full
          simp only [List.length_append, List.length_cons, List.length_nil,
            List.length_replicate] at full
          omega
        refine ⟨place, name, ⟨spelled, ⟨front, whole, walked⟩, inside, ?_, long⟩, ?_, rfl⟩
        · simp only [Bool.or_eq_true, decide_eq_true_eq, not_or] at dotted ⊢
          exact ⟨⟨notEmpty, dotted.1⟩, dotted.2⟩
        · rw [found]
          simp
      · cases removed

theorem sameBut_of_removeFile (removed : files.removeFile path = .ok after) :
    ∃ place, files.Names path place ∧ SameBut place files after ∧ after.at? place = none := by
  obtain ⟨holder, name, leads, free, rfl⟩ := removeFile_ok removed
  exact ⟨holder ++ [name], ⟨holder, name, leads, rfl⟩, sameBut_erase (by simp) free,
    at?_erase_self (by simp)⟩

/-- A path to a file that is gone leads nowhere. -/
theorem Names.not_exists (named : files.Names path place) (gone : files.at? place = none) :
    files.exists? path = false := by
  obtain ⟨holder, name, leads, rfl⟩ := named
  obtain ⟨front, pieces, walked⟩ := leads.walked
  have proper := leads.proper
  simp only [Bool.or_eq_true, decide_eq_true_eq, not_or] at proper
  have last : files.step holder name = .error .notFound := by
    simp [step, leads.inside, proper, leads.short, gone]
  have located : files.locate path = .error .notFound := by
    rw [Files.locate, if_neg leads.spelled.1, if_neg leads.spelled.2, pieces, List.foldlM_append,
      walked]
    change [name].foldlM files.step holder = _
    rw [List.foldlM_cons, last]
    rfl
  rw [exists?, entry, located]
  rfl

end Files

/-! ### A row of files -/

section Rows

variable {directory : Path} {files after : Files}

/-- Files that are written one after the other change nothing beside them. -/
theorem writeFiles_keeps (directory : Path) (outputs : List (String × String)) (files : Files) :
    files.SameDirectories (writeFiles directory outputs files).2 ∧
      ∀ place, (∀ output ∈ outputs, ¬files.Names (directory.join output.1) place) →
        (writeFiles directory outputs files).2.at? place = files.at? place := by
  induction outputs generalizing files with
  | nil => exact ⟨.refl files, fun _ _ => rfl⟩
  | cons output outputs ih =>
    rw [writeFiles]
    split
    · exact ⟨.refl files, fun _ _ => rfl⟩
    · next between written =>
      obtain ⟨target, named, same⟩ := Files.sameBut_of_write written
      obtain ⟨others, kept⟩ := ih between
      refine ⟨same.sameDirectories.trans others, ?_⟩
      intro place unnamed
      obtain ⟨first, later⟩ := List.forall_mem_cons.mp unnamed
      have elsewhere : place ≠ target := by
        rintro rfl
        exact first named
      rw [kept, same.elsewhere place elsewhere]
      intro output member named
      exact later output member (same.sameDirectories.names_iff.mp named)

/-- Files can be written where no directory stands in for one of them. -/
theorem writeFiles_of_named {outputs : List (String × String)}
    (free : ∀ output ∈ outputs, ∃ place, files.Names (directory.join output.1) place ∧
      files.at? place ≠ some .directory) :
    ∃ after, writeFiles directory outputs files = (.ok (), after) := by
  induction outputs generalizing files with
  | nil => exact ⟨files, rfl⟩
  | cons output outputs ih =>
    obtain ⟨⟨_, ⟨holder, name, leads, rfl⟩, free⟩, others⟩ := List.forall_mem_cons.mp free
    have written := Files.write_of_leads leads free (Text.Utf8.encode output.2.toList)
    obtain ⟨_, _, changed⟩ := Files.sameBut_of_write written
    have same := changed.sameDirectories
    rw [writeFiles, written]
    apply ih
    intro output member
    obtain ⟨place, named, free⟩ := others output member
    exact ⟨place, same.names_iff.mpr named, fun found => free (same.known place found)⟩

/-- Where all files could be written, none of them stands in for a directory. -/
theorem named_of_writeFiles {outputs : List (String × String)}
    (done : writeFiles directory outputs files = (.ok (), after)) :
    ∀ output ∈ outputs, ∃ place, files.Names (directory.join output.1) place ∧
      files.at? place ≠ some .directory := by
  induction outputs generalizing files with
  | nil => simp
  | cons output outputs ih =>
    obtain ⟨between, written, others⟩ := writeFiles_cons done
    obtain ⟨target, named, same⟩ := Files.sameBut_of_write written
    refine List.forall_mem_cons.mpr ⟨⟨target, named, same.noDirectory⟩, ?_⟩
    intro output member
    obtain ⟨place, named, free⟩ := ih others output member
    exact ⟨place, same.sameDirectories.names_iff.mp named, fun found =>
      free (same.sameDirectories.kept place found)⟩

/-- A removal ends the row, or goes on with the file gone or with what was there. -/
theorem removeFiles_cons (directory : Path) (name : String) (names : List String)
    (files : Files) :
    (removeFiles directory (name :: names) files).2 = files ∨
      ∃ between, (removeFiles directory (name :: names) files).2 =
          (removeFiles directory names between).2 ∧
        (between = files ∨ files.removeFile (directory.join name) = .ok between) := by
  rw [removeFiles]
  split
  · next between removed => exact .inr ⟨between, rfl, .inr removed⟩
  · exact .inr ⟨files, rfl, .inl rfl⟩
  · exact .inl rfl

/-- Files that are removed one after the other change nothing beside them, and none of them comes
back. -/
theorem removeFiles_keeps (directory : Path) (names : List String) (files : Files) :
    files.SameDirectories (removeFiles directory names files).2 ∧
      (∀ place, (∀ name ∈ names, ¬files.Names (directory.join name) place) →
        (removeFiles directory names files).2.at? place = files.at? place) ∧
      ∀ place, files.at? place = none → (removeFiles directory names files).2.at? place = none := by
  induction names generalizing files with
  | nil => exact ⟨.refl files, fun _ _ => rfl, fun _ gone => gone⟩
  | cons name names ih =>
    rcases removeFiles_cons directory name names files with ends | ⟨between, goesOn, rfl | removed⟩
    · rw [ends]
      exact ⟨.refl files, fun _ _ => rfl, fun _ gone => gone⟩
    · rw [goesOn]
      obtain ⟨others, kept, stays⟩ := ih between
      exact ⟨others, fun place unnamed => kept place (List.forall_mem_cons.mp unnamed).2, stays⟩
    · rw [goesOn]
      obtain ⟨others, kept, stays⟩ := ih between
      obtain ⟨target, named, same, gone⟩ := Files.sameBut_of_removeFile removed
      refine ⟨same.sameDirectories.trans others, ?_, ?_⟩
      · intro place unnamed
        obtain ⟨first, later⟩ := List.forall_mem_cons.mp unnamed
        have elsewhere : place ≠ target := by
          rintro rfl
          exact first named
        rw [kept, same.elsewhere place elsewhere]
        intro name member named
        exact later name member (same.sameDirectories.names_iff.mp named)
      · intro place absent
        apply stays
        by_cases here : place = target
        · rw [here, gone]
        · rw [same.elsewhere place here, absent]

/-- Of the files that are removed, all are gone in front of the first that stands in for a
directory. -/
theorem removeFiles_removes {front : List String} (back : List String)
    (free : ∀ name ∈ front, ∃ place, files.Names (directory.join name) place ∧
      files.at? place ≠ some .directory) :
    ∀ name ∈ front, ∀ place, files.Names (directory.join name) place →
      (removeFiles directory (front ++ back) files).2.at? place = none := by
  induction front generalizing files with
  | nil => simp
  | cons name front ih =>
    obtain ⟨⟨target, named, noDirectory⟩, others⟩ := List.forall_mem_cons.mp free
    obtain ⟨between, goesOn, same, gone⟩ : ∃ between,
        (removeFiles directory (name :: (front ++ back)) files).2 =
          (removeFiles directory (front ++ back) between).2 ∧
        files.SameDirectories between ∧ between.at? target = none := by
      obtain ⟨holder, last, leads, rfl⟩ := named
      have answer := Files.removeFile_of_leads leads
      rw [removeFiles]
      cases found : files.at? (holder ++ [last]) with
      | none =>
        rw [found] at answer
        rw [answer]
        exact ⟨files, rfl, .refl files, found⟩
      | some entry =>
        cases entry with
        | directory => exact absurd found noDirectory
        | file content program =>
          rw [found] at answer
          rw [answer]
          exact ⟨_, rfl, (Files.sameBut_erase (by simp) noDirectory).sameDirectories,
            Files.at?_erase_self (by simp)⟩
    have free' : ∀ name ∈ front, ∃ place, between.Names (directory.join name) place ∧
        between.at? place ≠ some .directory := by
      intro name member
      obtain ⟨place, named, noDirectory⟩ := others name member
      exact ⟨place, same.names_iff.mpr named, fun found =>
        noDirectory (same.known place found)⟩
    rw [List.cons_append, goesOn]
    refine List.forall_mem_cons.mpr ⟨?_, ?_⟩
    · intro place named'
      rw [named'.unique named]
      exact (removeFiles_keeps directory (front ++ back) between).2.2 target gone
    · intro name member place named
      exact ih free' name member place (same.names_iff.mpr named)

end Rows

end StackLang
