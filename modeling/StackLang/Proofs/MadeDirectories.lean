import StackLang.Proofs.KeptDirectories
import StackLang.Proofs.Spellings

/-! Builds into a directory that is missing. It is made and removed again, as a whole, by its path.
An empty path is never there, so what is written for it stays. If the path goes up again from a
directory that was missing too, the one it leads to then may have been there all along. -/
namespace StackLang

open StackLang.Outcome

namespace Files

variable {files before after made : Files} {path directory : Path} {place top target : Place}
  {name : String}

/-- The regular file at a place: its content, and what running it does. -/
def file? (files : Files) (place : Place) : Option (List UInt8 × Option Program) :=
  match files.at? place with
  | some (.file content program) => some (content, program)
  | _ => none

theorem file?_congr (same : after.at? place = before.at? place) :
    after.file? place = before.file? place := by
  rw [file?, file?, same]

theorem file?_of_directory (inside : files.at? place = some .directory) :
    files.file? place = none := by
  rw [file?, inside]

/-! ### Directories that are made -/

theorem locate_of_empty (files : Files) (empty : path.text = "") :
    ∃ error, files.locate path = .error error := by
  rw [locate, if_pos empty]
  split <;> exact ⟨_, rfl⟩

theorem isDirectory_iff :
    files.isDirectory path = true ↔
      ∃ place, files.locate path = .ok place ∧ files.at? place = some .directory := by
  rw [isDirectory, entry]
  cases files.locate path with
  | error error => simp [bind, Except.bind]
  | ok place =>
    simp only [bind, Except.bind, Except.ok.injEq, exists_eq_left']
    cases files.at? place with
    | none => simp [throw, throwThe, MonadExceptOf.throw]
    | some entry => cases entry <;> simp [pure, Except.pure]

theorem ne_root_of_free (free : files.at? place = none) : place ≠ [] := by
  rintro rfl
  simp [at?] at free

theorem keepsDirectories_put (free : files.at? target = none) :
    KeepsDirectories files (files.put target .directory) where
  working := rfl
  kept := by
    intro place found
    have elsewhere : place ≠ target := by
      rintro rfl
      rw [free] at found
      cases found
    rw [at?_put_of_ne elsewhere, found]

theorem file?_put_directory (free : files.at? target = none) (place : Place) :
    (files.put target .directory).file? place = files.file? place := by
  by_cases here : place = target
  · subst here
    rw [file?_of_directory (at?_put_self (ne_root_of_free free) _), file?, free]
  · exact file?_congr (at?_put_of_ne here _)

/-- Empty pieces behind a directory lead to the directory. -/
theorem steps_replicate (inside : files.at? place = some .directory) (count : Nat) :
    (List.replicate count "").foldlM files.step place = .ok place := by
  induction count with
  | zero => rfl
  | succ count ih =>
    have stays : files.step place "" = .ok place := by simp [step, inside]
    rw [List.replicate_succ, List.foldlM_cons, stays]
    exact ih

/-- What was done where a directory could be made, and that its path leads to it. -/
theorem makeDirectory_ok (done : files.makeDirectory path = .ok made) :
    ∃ target, files.at? target = none ∧ made = files.put target .directory ∧
      made.locate path = .ok target := by
  unfold makeDirectory at done
  split at done
  · split at done <;> cases done
  · next nonempty =>
    obtain ⟨⟨holder, name⟩, held, done⟩ := bind_ok done
    obtain ⟨spelled, _, _, inside⟩ := holder_ok held
    obtain ⟨notEmpty, front, count, _, whole, walked⟩ :=
      holder_withoutTrailingSlashes nonempty held
    dsimp only at done
    by_cases dotted : (name = "." || name = "..") = true
    · rw [if_pos dotted] at done
      cases done
    by_cases long : longestName < name.utf8ByteSize
    · rw [if_neg dotted, if_pos long] at done
      cases done
    rw [if_neg dotted, if_neg long] at done
    split at done
    · cases done
    · next free =>
      cases done
      refine ⟨holder ++ [name], free, rfl, ?_⟩
      have keeps := keepsDirectories_put free
      have found : (files.put (holder ++ [name]) .directory).at? (holder ++ [name]) =
          some .directory := at?_put_self (by simp) _
      have entered : (files.put (holder ++ [name]) .directory).step holder name =
          .ok (holder ++ [name]) := by
        simp only [Bool.or_eq_true, decide_eq_true_eq, not_or] at dotted
        simp [step, keeps.kept holder inside, found, notEmpty, dotted, long]
      rw [locate, if_neg spelled.1, if_neg spelled.2, whole, List.foldlM_append, keeps.origin,
        keeps.steps walked inside]
      change (name :: _).foldlM (Files.step _) holder = _
      rw [List.foldlM_cons, entered]
      exact steps_replicate found count

/-- A path is made in a tree, the given one or that with the path above it made; or that tree is
left as it is. -/
theorem makeDirectoriesWithin_cases {depth : Nat} {result : Except OsError Unit}
    (spelled : path.text ≠ "")
    (done : makeDirectoriesWithin (depth + 1) files path = (result, made)) :
    ∃ tree, (tree = files ∨ ∃ parent, tree = (makeDirectoriesWithin depth files parent).2) ∧
      (tree.makeDirectory path = .ok made ∨
        made = tree ∧ (result = .ok () → tree.isDirectory path = true)) := by
  have settled (tree : Files) (failure : OsError) (done : (if tree.isDirectory path then
      (Except.ok (), tree) else (.error failure, tree)) = (result, made)) :
      made = tree ∧ (result = .ok () → tree.isDirectory path = true) := by
    split at done <;> cases done
    · next inside => exact ⟨rfl, fun _ => inside⟩
    · exact ⟨rfl, by simp⟩
  rw [makeDirectoriesWithin, if_neg spelled] at done
  dsimp only at done
  split at done
  · next made' =>
    cases done
    exact ⟨files, .inl rfl, .inl made'⟩
  · split at done
    · cases done
      exact ⟨files, .inl rfl, .inr ⟨rfl, by simp⟩⟩
    · next parent _ =>
      split at done
      · next above =>
        cases done
        exact ⟨made, .inr ⟨parent, by rw [above]⟩, .inr ⟨rfl, by simp⟩⟩
      · next tree above =>
        refine ⟨tree, .inr ⟨parent, by rw [above]⟩, ?_⟩
        split at done
        · next made' =>
          cases done
          exact .inl made'
        · exact .inr (settled tree _ done)
  · exact ⟨files, .inl rfl, .inr (settled files _ done)⟩

theorem makeDirectoriesWithin_keeps (depth : Nat) (files : Files) (path : Path) :
    KeepsDirectories files (makeDirectoriesWithin depth files path).2 ∧
      ∀ place, (makeDirectoriesWithin depth files path).2.file? place = files.file? place := by
  induction depth generalizing path with
  | zero => exact ⟨.refl files, fun _ => rfl⟩
  | succ depth ih =>
    by_cases spelled : path.text = ""
    · rw [makeDirectoriesWithin, if_pos spelled]
      exact ⟨.refl files, fun _ => rfl⟩
    rcases done : makeDirectoriesWithin (depth + 1) files path with ⟨result, made⟩
    obtain ⟨tree, grown, last⟩ := makeDirectoriesWithin_cases spelled done
    have before : KeepsDirectories files tree ∧ ∀ place, tree.file? place = files.file? place := by
      rcases grown with rfl | ⟨parent, rfl⟩
      · exact ⟨.refl tree, fun _ => rfl⟩
      · exact ih parent
    rcases last with last | ⟨rfl, _⟩
    · obtain ⟨target, free, rfl, _⟩ := makeDirectory_ok last
      exact ⟨before.1.trans (keepsDirectories_put free), fun place =>
        (file?_put_directory free place).trans (before.2 place)⟩
    · exact before

theorem makeDirectories_keeps (files : Files) (path : Path) :
    KeepsDirectories files (files.makeDirectories path).2 ∧
      ∀ place, (files.makeDirectories path).2.file? place = files.file? place :=
  makeDirectoriesWithin_keeps (path.pieces.length + 1) files path

/-- Where directories could be made, their path leads to the last of them. -/
theorem locate_of_makeDirectories (spelled : path.text ≠ "")
    (done : files.makeDirectories path = (.ok (), made)) :
    ∃ top, made.locate path = .ok top ∧ made.at? top = some .directory := by
  obtain ⟨tree, _, last | ⟨rfl, inside⟩⟩ := makeDirectoriesWithin_cases spelled done
  · obtain ⟨target, free, rfl, located⟩ := makeDirectory_ok last
    exact ⟨target, located, at?_put_self (ne_root_of_free free) _⟩
  · exact isDirectory_iff.mp (inside rfl)

/-! ### What stands in a directory -/

/-- A place in the directory that a path leads to, at any depth, or that directory itself. -/
def Encloses (files : Files) (directory : Path) (place : Place) : Prop :=
  ∃ top, files.locate directory = .ok top ∧ files.at? top = some .directory ∧ top <+: place

theorem KeepsDirectories.encloses (keeps : KeepsDirectories before after)
    (encloses : before.Encloses directory place) : after.Encloses directory place := by
  obtain ⟨top, located, inside, below⟩ := encloses
  refine ⟨top, ?_, keeps.kept top inside, below⟩
  unfold locate at located ⊢
  split_ifs at located ⊢
  rw [keeps.origin]
  exact keeps.steps located inside

theorem SameDirectories.encloses_iff (same : SameDirectories before after) :
    after.Encloses directory place ↔ before.Encloses directory place :=
  ⟨same.symm.toKeepsDirectories.encloses, same.toKeepsDirectories.encloses⟩

/-- The files of a directory stand in it. -/
theorem encloses_of_names (slashless : '/' ∉ name.toList) (spelled : directory.text ≠ "")
    (located : files.locate directory = .ok top) (inside : files.at? top = some .directory)
    (named : files.Names (directory.join name) place) : files.Encloses directory place := by
  obtain ⟨holder, last, leads, rfl⟩ := named
  suffices same : holder = top from
    ⟨top, located, inside, same ▸ List.prefix_append holder [last]⟩
  have single : (Path.mk name).pieces = [name] := by
    simp [Path.pieces, splitAt_of_not_mem slashless]
  obtain ⟨front, pieces, way, start⟩ :=
    Path.pieces_join_of_relative (Path.not_isAbsolute_of_slashless slashless) spelled
  obtain ⟨front', pieces', walked⟩ := leads.walked
  rw [pieces, single] at pieces'
  obtain ⟨rfl, _⟩ := List.append_inj' pieces' rfl
  have origin : files.origin (directory.join name) = files.origin directory := by
    rw [Files.origin, Files.origin, start]
  rw [origin] at walked
  unfold locate at located
  split_ifs at located
  -- A dot behind either way changes nothing, and up to the dot only the pieces that lead on count.
  have dotted {pieces : List String} {place : Place} (inside : files.at? place = some .directory)
      (walked : pieces.foldlM files.step (files.origin directory) = .ok place) :
      (pieces ++ ["."]).foldlM files.step (files.origin directory) = .ok place := by
    rw [List.foldlM_append, walked]
    change [ "."].foldlM files.step place = _
    simp [step, inside]
  have first := dotted leads.inside walked
  have second := dotted inside located
  rw [steps_filter, way, ← steps_filter, second] at first
  exact (Except.ok.inj first).symm

/-! ### Directories that are removed -/

theorem at?_eraseBelow_of_below (below : top <+: place) (other : place ≠ top) :
    (files.eraseBelow top).at? place = none := by
  have notRoot : place ≠ [] := by
    rintro rfl
    exact other (List.prefix_nil.mp below).symm
  rw [at?, if_neg notRoot, Option.map_eq_none_iff, List.find?_eq_none]
  intro pair member here
  obtain ⟨_, kept⟩ := List.mem_filter.mp member
  rw [of_decide_eq_true here, List.isPrefixOf_iff_prefix.mpr below] at kept
  simp [other] at kept

theorem at?_eraseBelow_of_not_below (apart : top <+: place → place = top) :
    (files.eraseBelow top).at? place = files.at? place := by
  have kept : (files.eraseBelow top).entries.find? (fun pair => pair.1 = place) =
      files.entries.find? fun pair => pair.1 = place := by
    rw [eraseBelow, List.find?_filter]
    congr 1
    funext pair
    by_cases here : pair.1 = place
    · by_cases below : top <+: place
      · simp [here, apart below]
      · simp [here, Bool.eq_false_iff.mpr (List.isPrefixOf_iff_prefix.not.mpr below)]
    · simp [here]
  simp only [at?, kept]

theorem removeDirectory_ok (removed : files.removeDirectory path = .ok after) :
    ∃ target, target ≠ [] ∧ files.at? target = some .directory ∧ after = files.erase target := by
  unfold removeDirectory at removed
  split at removed
  · split at removed <;> cases removed
  · obtain ⟨⟨holder, name⟩, _, removed⟩ := bind_ok removed
    dsimp only at removed
    split at removed
    · cases removed
    split at removed
    · cases removed
    split at removed
    · cases removed
    · cases removed
    · next found =>
      split at removed <;> cases removed
      exact ⟨holder ++ [name], by simp, found, rfl⟩

theorem file?_of_removeDirectory (removed : files.removeDirectory path = .ok after)
    (place : Place) : after.file? place = files.file? place := by
  obtain ⟨target, notRoot, found, rfl⟩ := removeDirectory_ok removed
  by_cases here : place = target
  · subst here
    rw [file?_of_directory found, file?, at?_erase_self notRoot]
  · exact file?_congr (at?_erase_of_ne here)

theorem removeTree_of_outside
    (outside : ∀ top, files.locate path = .ok top → files.at? top ≠ some .directory) :
    (files.removeTree path).2 = files := by
  unfold removeTree
  split
  · rfl
  · next top located =>
    split
    · next found => exact absurd found (outside top located)
    · rfl

/-- Of the directory itself nothing is left or it is empty, which is the same for files. -/
theorem file?_removeTree_of_inside (located : files.locate path = .ok top)
    (inside : files.at? top = some .directory) (place : Place) :
    (files.removeTree path).2.file? place = (files.eraseBelow top).file? place := by
  rw [removeTree, located]
  dsimp only
  rw [inside]
  dsimp only
  split
  · next removed => exact file?_of_removeDirectory removed place
  · rfl
  · rfl

/-- The files that removing a directory leaves: those that stand in it are gone. -/
theorem file?_removeTree (files : Files) (path : Path) (place : Place) :
    (files.Encloses path place → (files.removeTree path).2.file? place = none) ∧
      (¬files.Encloses path place → (files.removeTree path).2.file? place = files.file? place) := by
  constructor
  · rintro ⟨top, located, inside, below⟩
    rw [file?_removeTree_of_inside located inside]
    by_cases here : place = top
    · rw [file?_of_directory]
      rw [at?_eraseBelow_of_not_below fun _ => here, here, inside]
    · rw [file?, at?_eraseBelow_of_below below here]
  · intro apart
    by_cases standing : ∃ top, files.locate path = .ok top ∧ files.at? top = some .directory
    · obtain ⟨top, located, inside⟩ := standing
      rw [file?_removeTree_of_inside located inside]
      exact file?_congr (at?_eraseBelow_of_not_below fun below =>
        absurd ⟨top, located, inside, below⟩ apart)
    · rw [removeTree_of_outside fun top located inside => standing ⟨top, located, inside⟩]

/-! ### Directories that were missing -/

/-- What is in a tree stands in a directory. -/
def Closed (files : Files) : Prop :=
  ∀ place name, (files.at? (place ++ [name])).isSome → files.at? place = some .directory

theorem Closed.above (closed : files.Closed) (below : top <+: place) (other : place ≠ top)
    (found : (files.at? place).isSome) : files.at? top = some .directory := by
  obtain ⟨rest, rfl⟩ := below
  induction rest using List.reverseRecOn with
  | nil => simp at other
  | append_singleton rest name ih =>
    rw [← List.append_assoc] at found
    have inside := closed _ name found
    by_cases here : rest = []
    · rw [here, List.append_nil] at inside
      exact inside
    · exact ih (by simpa using here) (by rw [inside]; rfl)

/-- A walk that never goes up passes places above its end only. -/
theorem prefix_of_steps {pieces : List String} (forward : ".." ∉ pieces)
    (walked : pieces.foldlM files.step place = .ok target) : place <+: target := by
  induction pieces generalizing place with
  | nil =>
    cases walked
    exact List.prefix_rfl
  | cons piece pieces ih =>
    obtain ⟨next, stepped, others⟩ := bind_ok walked
    have notUp : piece ≠ ".." := fun up => forward (up ▸ List.mem_cons_self)
    have on : place <+: next := by
      have inside := inside_of_step stepped
      simp only [step, inside, notUp, if_false] at stepped
      split_ifs at stepped <;> cases stepped
      · exact List.prefix_rfl
      · exact List.prefix_append ..
    exact on.trans (ih (fun member => forward (List.mem_cons_of_mem _ member)) others)

/-- Such a walk is possible in any tree that has the directories above its end. -/
theorem steps_of_above {pieces : List String} (forward : ".." ∉ pieces)
    (above : ∀ between, between <+: target → before.at? between = some .directory)
    (walked : pieces.foldlM after.step place = .ok target) :
    pieces.foldlM before.step place = .ok target := by
  induction pieces generalizing place with
  | nil => exact walked
  | cons piece pieces ih =>
    have here := above place (prefix_of_steps forward walked)
    obtain ⟨next, stepped, others⟩ := bind_ok walked
    have forward' : ".." ∉ pieces := fun member => forward (List.mem_cons_of_mem _ member)
    have notUp : piece ≠ ".." := fun up => forward (up ▸ List.mem_cons_self)
    have there := above next (prefix_of_steps forward' others)
    have stepped' : before.step place piece = .ok next := by
      have inside := inside_of_step stepped
      simp only [step, inside, here, notUp, if_false] at stepped ⊢
      split_ifs at stepped ⊢ with stays long known
      · exact stepped
      · exact stepped
      · cases stepped
        simp [there] at known
    rw [List.foldlM_cons, stepped']
    exact ih forward' others

/-- In a directory that was missing there was no file, unless its path goes up again. -/
theorem Closed.no_file_of_missing (closed : before.Closed)
    (missing : before.exists? directory = false) (forward : ".." ∉ directory.pieces)
    (keeps : KeepsDirectories before after)
    (files : ∀ place, after.file? place = before.file? place)
    (encloses : after.Encloses directory place) : before.file? place = none := by
  obtain ⟨top, located, inside, below⟩ := encloses
  by_contra stood
  have found : (before.at? place).isSome := by
    cases found : before.at? place with
    | none => simp [file?, found] at stood
    | some entry => rfl
  have other : place ≠ top := by
    rintro rfl
    rw [← files, file?_of_directory inside] at stood
    exact stood rfl
  have standing : before.at? top = some .directory := closed.above below other found
  have above (between : Place) (up : between <+: top) : before.at? between = some .directory := by
    by_cases here : top = between
    · rw [← here, standing]
    · exact closed.above up here (by rw [standing]; rfl)
  have there : before.locate directory = .ok top := by
    unfold locate at located ⊢
    split_ifs at located ⊢
    rw [keeps.origin] at located
    exact steps_of_above forward above located
  rw [exists?, entry, there] at missing
  simp [bind, Except.bind, standing, pure, Except.pure] at missing

end Files

variable {shell : Shell} {settings : Settings} {files : Files} {generated : List GeneratedUnit}
  {search : Search} {seeds : List Path}

/-- Starting a program changes nothing, or it ends well and the file that a path names is there. -/
def Shell.MakesOnly (shell : Shell) (path : Path) : Prop :=
  ∀ files invocation, (shell files invocation).2 = files ∨
    ∃ program place, (shell files invocation).1 = .ok program ∧ program.exitCode = 0 ∧
      files.Names path place ∧ Files.SameBut place files (shell files invocation).2 ∧
      ((shell files invocation).2.file? place).isSome

theorem Shell.MakesOnly.changesOnly {path : Path} (makes : shell.MakesOnly path) :
    shell.ChangesOnly path := by
  intro files invocation
  rcases makes files invocation with unchanged | ⟨_, place, _, _, named, changed, _⟩
  · exact .inl unchanged
  · exact .inr ⟨place, named, changed⟩

/-- Beside its own files a build makes its program at most, and then it has not failed. -/
theorem emit_makes (makes : shell.MakesOnly settings.compiler.output)
    (generated : List GeneratedUnit) (files : Files) :
    let directory := settings.compiler.outputDirectory
    let made := (files.makeDirectories directory).2
    let emitted := (emit shell settings generated files).2.2
    ∀ place, (∀ output ∈ outputFiles generated, ¬made.Names (directory.join output.1) place) →
      emitted.file? place = made.file? place ∨
        made.Names settings.compiler.output place ∧
          (emit shell settings generated files).1 = .ok settings.compiler.output ∧
          (emitted.file? place).isSome := by
  intro directory made emitted place unnamed
  obtain ⟨same, kept⟩ := writeFiles_keeps directory (outputFiles generated) made
  have written := Files.file?_congr (kept place unnamed)
  rcases emit_files shell settings generated files with
    ⟨_, unfilled⟩ | ⟨_, filled | ⟨invocation, linked, result⟩⟩
  · exact .inl (by rw [show emitted = made from unfilled])
  · exact .inl (by rw [show emitted = _ from filled, written])
  · rw [show emitted = _ from linked]
    rcases makes (writeFiles directory (outputFiles generated) made).2 invocation with
      unchanged | ⟨program, target, started, done, named, changed, stands⟩
    · rw [unchanged]
      exact .inl written
    by_cases here : place = target
    · subst here
      exact .inr ⟨same.names_iff.mp named, result program started done, stands⟩
    · exact .inl ((Files.file?_congr (changed.elsewhere place here)).trans written)

theorem slashless_of_prepare {later : Search}
    (prepared : prepare settings files search seeds = (.ok generated, later)) :
    ∀ output ∈ outputFiles generated, '/' ∉ output.1.toList := by
  unfold prepare at prepared
  split at prepared
  · cases prepared
  · next units _ compiled =>
    split at prepared
    · cases prepared
    · exact slashless_outputFiles (compile_named compiled) (Prod.mk.inj prepared).1

/-- A build that keeps nothing removes its directory where that was missing. -/
theorem build_of_missing {later : Search} (unsaved : settings.compiler.saveTemps = false)
    (missing : files.exists? settings.compiler.outputDirectory = false)
    (prepared : prepare settings files search seeds = (.ok generated, later)) :
    (build shell settings files search seeds).result = (emit shell settings generated files).1 ∧
      (build shell settings files search seeds).files =
        ((emit shell settings generated files).2.2.removeTree
          settings.compiler.outputDirectory).2 := by
  simp only [build, prepared, unsaved, missing, cleanUp, Bool.not_false, Bool.false_eq_true,
    if_false, if_true]
  refine ⟨trivial, ?_⟩
  split <;> rfl

/-- Where no directory is given, the files of a build are written and stay. -/
theorem emit_of_empty (empty : settings.compiler.outputDirectory.text = "") :
    (emit shell settings generated files).2.2 =
      (writeFiles settings.compiler.outputDirectory (outputFiles generated) files).2 := by
  have opened : files.makeDirectories settings.compiler.outputDirectory = (.ok (), files) := by
    rw [Files.makeDirectories, Files.makeDirectoriesWithin, if_pos empty]
  rw [emit, opened]
  dsimp only
  split
  · next written => rw [written]
  · next filled written =>
    obtain ⟨error, lost⟩ := filled.locate_of_empty empty
    rw [staleSources, lost, written]

/-- A build into a directory that is missing. With an empty path the files that it writes stay.
Otherwise nothing is left below the directory that the path leads to once it is made, where no file
was before if the path does not go up again; everywhere else is what was there before, or the program
if the build succeeds. -/
theorem build_into_a_missing_directory_removes_all_below_it
    (unsaved : settings.compiler.saveTemps = false)
    (missing : files.exists? settings.compiler.outputDirectory = false)
    (makes : shell.MakesOnly settings.compiler.output) :
    let directory := settings.compiler.outputDirectory
    let made := (files.makeDirectories directory).2
    let outcome := build shell settings files search seeds
    (∀ error, (prepare settings files search seeds).1 = .error error → outcome.files = files) ∧
      ∀ generated, (prepare settings files search seeds).1 = .ok generated →
        let emitted := (emit shell settings generated files).2.2
        (directory.text = "" →
          outcome.files = (writeFiles directory (outputFiles generated) files).2) ∧
        (directory.text ≠ "" → ∀ place,
          (made.Encloses directory place → outcome.files.file? place = none ∧
            (files.Closed → ".." ∉ directory.pieces → files.file? place = none)) ∧
          (¬made.Encloses directory place → outcome.files.file? place = emitted.file? place ∧
            (emitted.file? place = files.file? place ∨
              made.Names settings.compiler.output place ∧
                outcome.result = .ok settings.compiler.output ∧
                (emitted.file? place).isSome))) := by
  intro directory made outcome
  constructor
  · intro error failed
    exact build_of_prepare_error (Prod.ext failed rfl)
  intro generated done emitted
  have prepared : prepare settings files search seeds = (.ok generated, _) := Prod.ext done rfl
  obtain ⟨(result : outcome.result = _), (removed : outcome.files = _)⟩ :=
    build_of_missing unsaved missing prepared
  rw [removed]
  constructor
  · intro empty
    obtain ⟨error, lost⟩ := emitted.locate_of_empty empty
    rw [Files.removeTree_of_outside fun _ located => by rw [lost] at located; cases located]
    exact emit_of_empty empty
  intro spelled place
  have encloses_iff : emitted.Encloses directory place ↔ made.Encloses directory place :=
    (emit_keeps makes.changesOnly generated files).1.encloses_iff
  obtain ⟨gone, stays⟩ := emitted.file?_removeTree directory place
  obtain ⟨keeps, sameFiles⟩ := files.makeDirectories_keeps directory
  constructor
  · intro encloses
    exact ⟨gone (encloses_iff.mpr encloses), fun closed forward =>
      closed.no_file_of_missing missing forward keeps sameFiles encloses⟩
  · intro apart
    refine ⟨stays (encloses_iff.not.mpr apart), ?_⟩
    rw [result, ← sameFiles]
    rcases emit_files shell settings generated files with ⟨_, unfilled⟩ | ⟨opened, _⟩
    · exact .inl (by rw [show emitted = made from unfilled])
    · obtain ⟨top, located, inside⟩ := Files.locate_of_makeDirectories spelled (Prod.ext opened rfl)
      apply emit_makes makes
      intro output member named
      exact apart (Files.encloses_of_names (slashless_of_prepare prepared output member) spelled
        located inside named)

theorem Shell.makesOnly_writing (output : Path) : (Shell.writing output).MakesOnly output := by
  intro files invocation
  unfold Shell.writing
  split
  · next after written =>
    obtain ⟨holder, name, leads, free, rfl⟩ := Files.write_ok written
    refine .inr ⟨{}, holder ++ [name], rfl, rfl, ⟨holder, name, leads, rfl⟩,
      Files.sameBut_put (by simp) free, ?_⟩
    rw [Files.file?, Files.at?_put_self (by simp)]
    rfl
  · exact .inl rfl

/-- The directory is there, but the way to it is not; making the way is making it. -/
theorem makeDirectories_workshop :
    (workshop false).makeDirectories ⟨"build/../gen"⟩ =
      (.ok (), (workshop false).put ["build"] .directory) := by
  have pieces : (Path.mk "build/../gen").pieces.length = 3 := by decide
  have above : (Path.mk "build/../gen").parent? = some ⟨"build/.."⟩ ∧
      (Path.mk "build/..").parent? = some ⟨"build"⟩ := by decide
  have before : (workshop false).makeDirectory ⟨"build/../gen"⟩ = .error .notFound ∧
      (workshop false).makeDirectory ⟨"build/.."⟩ = .error .notFound ∧
      (workshop false).makeDirectory ⟨"build"⟩ =
        .ok ((workshop false).put ["build"] .directory) := by
    simp only [Files.makeDirectory, Files.holder, String.contains_char_eq]
    exact ⟨rfl, rfl, rfl⟩
  have after (path : Path) (among : path = ⟨"build/.."⟩ ∨ path = ⟨"build/../gen"⟩) :
      ((workshop false).put ["build"] .directory).makeDirectory path = .error .occupied ∧
        ((workshop false).put ["build"] .directory).isDirectory path = true := by
    simp only [Files.makeDirectory, Files.holder, Files.isDirectory, Files.entry, Files.locate,
      String.contains_char_eq]
    rcases among with rfl | rfl <;> exact ⟨rfl, rfl⟩
  rw [Files.makeDirectories, pieces]
  simp [Files.makeDirectoriesWithin, above, before, after]

theorem read_workshop {outputs : List (String × String)}
    (names : outputs.map Prod.fst = ["qd_base.h", "qd_base.c", "main_main.h", "main_main.c"]) :
    ∃ content, (writeFiles ⟨""⟩ outputs (workshop false)).2.read ⟨"main_main.c"⟩ =
      .ok content := by
  have listed (output : String × String) (member : output ∈ outputs) :
      output.1 ∈ ["qd_base.h", "qd_base.c", "main_main.h", "main_main.c"] :=
    names ▸ List.mem_map_of_mem member
  have slashless : ∀ output ∈ outputs, '/' ∉ output.1.toList := by
    have plain : ∀ name ∈ ["qd_base.h", "qd_base.c", "main_main.h", "main_main.c"],
        '/' ∉ name.toList := by decide
    exact fun output member => plain _ (listed output member)
  obtain ⟨after, done⟩ := writeFiles_workshop (.tail _ (.head _)) fun output member =>
    ⟨listed output member, by simp⟩
  obtain rfl | ⟨front, ⟨name, content⟩, rfl⟩ := outputs.eq_nil_or_concat'
  · cases names
  have last : name = "main_main.c" := by
    have ends := congrArg List.getLast? names
    simpa using ends
  subst last
  have read := read_writeFiles slashless (by simp) done
  rw [show (Path.mk "").join "main_main.c" = ⟨"main_main.c"⟩ by rfl] at read
  rw [done]
  exact ⟨_, read⟩

/-- A source that stays because no directory is given, and a note that is lost because the way to
its directory is made for the build. -/
theorem source_stays_and_note_is_lost :
    let beside := (build (.writing ⟨"a.out"⟩) (settingsFor "") (workshop false) ⟨[], []⟩
      [⟨"main.qd"⟩]).files
    let after := (build (.writing ⟨"a.out"⟩) (settingsFor "build/../gen") (workshop false) ⟨[], []⟩
      [⟨"main.qd"⟩]).files
    ((workshop false).exists? ⟨""⟩ = false ∧
      (workshop false).read ⟨"main_main.c"⟩ = .error .notFound ∧
      ∃ content, beside.read ⟨"main_main.c"⟩ = .ok content) ∧
    (workshop false).exists? ⟨"build/../gen"⟩ = false ∧
      (workshop false).file? ["gen", "notes.txt"] = some ([109], none) ∧
      after.file? ["gen", "notes.txt"] = none ∧
      after.file? ["main.qd"] = some (soleProgram, none) := by
  intro beside after
  constructor
  · have missing : (workshop false).exists? ⟨""⟩ = false := by
      simp only [Files.exists?, Files.entry, Files.locate, String.contains_char_eq]
      rfl
    have absent : (workshop false).read ⟨"main_main.c"⟩ = .error .notFound := by
      simp only [Files.read, Files.entry, Files.locate, String.contains_char_eq]
      rfl
    have unsaved : (settingsFor "").compiler.saveTemps = false := rfl
    obtain ⟨generated, prepared, names⟩ := prepare_workshop false (settingsFor "") rfl
    have written : beside = (writeFiles ⟨""⟩ (outputFiles generated) (workshop false)).2 :=
      ((build_into_a_missing_directory_removes_all_below_it unsaved missing
        (Shell.makesOnly_writing ⟨"a.out"⟩)).2 generated prepared).1 rfl
    rw [written]
    exact ⟨missing, absent, read_workshop names⟩
  have missing : (workshop false).exists? ⟨"build/../gen"⟩ = false := by
    simp only [Files.exists?, Files.entry, Files.locate, String.contains_char_eq]
    rfl
  have located : ((workshop false).put ["build"] .directory).locate ⟨"build/../gen"⟩ =
      .ok ["gen"] := by
    simp only [Files.locate, String.contains_char_eq]
    rfl
  have unsaved : (settingsFor "build/../gen").compiler.saveTemps = false := rfl
  obtain ⟨generated, prepared, _⟩ := prepare_workshop false (settingsFor "build/../gen") rfl
  have places := ((build_into_a_missing_directory_removes_all_below_it unsaved missing
    (Shell.makesOnly_writing ⟨"a.out"⟩)).2 generated prepared).2 (by decide)
  rw [show (settingsFor "build/../gen").compiler.outputDirectory = ⟨"build/../gen"⟩ from rfl,
    makeDirectories_workshop] at places
  refine ⟨missing, rfl, ?_, ?_⟩
  · exact ((places ["gen", "notes.txt"]).1 ⟨["gen"], located, rfl, by decide⟩).1
  · have outside : ¬((workshop false).put ["build"] .directory).Encloses ⟨"build/../gen"⟩
        ["main.qd"] := by
      rintro ⟨top, located', _, below⟩
      rw [located] at located'
      cases located'
      revert below
      decide
    obtain ⟨kept, unchanged | ⟨named, _⟩⟩ := (places ["main.qd"]).2 outside
    · rw [kept, unchanged]
      rfl
    · have last := named.getLast?_eq
      revert last
      decide

end StackLang
