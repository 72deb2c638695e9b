import StackLang.Proofs.FileChanges
import StackLang.Proofs.ImportClosure
import StackLang.Proofs.Outputs

/-! Builds into a directory that is there. Files are removed in the order in which they are
written, so wherever writing ends, removing comes at least as far; nothing else is touched. -/
namespace StackLang

open StackLang.Outcome

/-- Starting a program changes no file but the one that a path names, which it may make, change or
remove. -/
def Shell.ChangesOnly (shell : Shell) (path : Path) : Prop :=
  ∀ files invocation, (shell files invocation).2 = files ∨
    ∃ place, files.Names path place ∧ Files.SameBut place files (shell files invocation).2

namespace Files

variable {files : Files} {path : Path} {place : Place}

/-- Where a path leads, there is no room for a new directory. -/
theorem makeDirectory_of_locate (located : files.locate path = .ok place) :
    files.makeDirectory path = .error .occupied := by
  unfold locate at located
  split_ifs at located with nul empty
  obtain ⟨count, whole⟩ := pieces_withoutTrailingSlashes path
  unfold makeDirectory
  split
  · rw [if_neg empty]
    rfl
  · next pieces some =>
    rw [whole, List.foldlM_append] at located
    obtain ⟨reached, walked, _⟩ := bind_ok located
    rw [← List.dropLast_concat_getLast some, List.foldlM_append] at walked
    obtain ⟨holder, before, last⟩ := bind_ok walked
    obtain ⟨_, stepped, ended⟩ := bind_ok last
    cases ended
    have inside := inside_of_step stepped
    have held : files.holder path (withoutTrailingSlashes path) =
        .ok (holder, (withoutTrailingSlashes path).getLast some) := by
      rw [Files.holder, if_neg nul, if_neg empty]
      simp [before, inside, bind, Except.bind, pure, Except.pure,
        List.getLast?_eq_some_getLast some]
    have spelled := last_withoutTrailingSlashes some
    rw [held]
    generalize (withoutTrailingSlashes path).getLast some = name at *
    dsimp only [bind, Except.bind]
    by_cases dotted : (name = "." || name = "..") = true
    · rw [if_pos dotted]
      rfl
    · have proper : ¬(name = "" || name = "." || name = "..") = true := by
        simpa [spelled] using dotted
      obtain ⟨short, rfl, known⟩ := entered_of_step proper stepped
      obtain ⟨entry, found⟩ := Option.isSome_iff_exists.mp known
      rw [if_neg dotted, if_neg short, found]
      rfl

/-- Where a path leads, making directories changes nothing. -/
theorem makeDirectories_of_locate (located : files.locate path = .ok place) :
    (files.makeDirectories path).2 = files := by
  have spelled : path.text ≠ "" := by
    intro empty
    rw [locate, empty] at located
    split at located <;> cases located
  rw [makeDirectories, makeDirectoriesWithin, if_neg spelled, makeDirectory_of_locate located]
  dsimp only
  split <;> rfl

theorem locate_of_exists (there : files.exists? path = true) :
    ∃ place, files.locate path = .ok place := by
  cases located : files.locate path with
  | error error => simp [exists?, entry, located, bind, Except.bind] at there
  | ok place => exact ⟨place, rfl⟩

end Files

variable {shell : Shell} {settings : Settings} {files : Files} {generated : List GeneratedUnit}

theorem link_files (shell : Shell) (settings : Settings) (files : Files) (directory : Path)
    (sources : List Path) (output : Path) :
    (link shell settings files directory sources output).2 =
      (shell files (settings.invocation directory sources output)).2 := by
  unfold link
  split
  · next started => rw [started]
  · next started =>
    rw [started]
    split <;> rfl

theorem link_ok {directory output : Path} {sources : List Path} {program : Program}
    (started : (shell files (settings.invocation directory sources output)).1 = .ok program)
    (done : program.exitCode = 0) :
    (link shell settings files directory sources output).1 = .ok () := by
  rw [link, show shell files _ = (.ok program, _) from Prod.ext started rfl]
  dsimp only
  rw [if_pos done]

/-- The files that a build leaves before it removes any: those with the directory made, with its
own files written as far as that goes, or as the C compiler leaves them. -/
theorem emit_files (shell : Shell) (settings : Settings) (generated : List GeneratedUnit)
    (files : Files) :
    let directory := settings.compiler.outputDirectory
    let made := (files.makeDirectories directory).2
    let written := (writeFiles directory (outputFiles generated) made).2
    let emitted := (emit shell settings generated files).2.2
    (∃ error, (files.makeDirectories directory).1 = .error error) ∧ emitted = made ∨
      (files.makeDirectories directory).1 = .ok () ∧
        (emitted = written ∨ ∃ invocation, emitted = (shell written invocation).2 ∧
          ∀ program, (shell written invocation).1 = .ok program → program.exitCode = 0 →
            (emit shell settings generated files).1 = .ok settings.compiler.output) := by
  unfold emit
  dsimp only
  rcases files.makeDirectories settings.compiler.outputDirectory with ⟨made | made, tree⟩
  · exact .inl ⟨⟨made, rfl⟩, rfl⟩
  · refine .inr ⟨rfl, ?_⟩
    dsimp only
    rcases writeFiles settings.compiler.outputDirectory (outputFiles generated) tree with
      ⟨filled | filled, written⟩
    · exact .inl rfl
    · dsimp only
      split
      · exact .inl rfl
      · refine .inr ⟨_, link_files .., ?_⟩
        intro program started done
        dsimp only
        rw [link_ok started done]
        rfl

/-- Up to the end of the C compiler a build changes its own files only, from the directory that is
made for them on. -/
theorem emit_keeps (confined : shell.ChangesOnly settings.compiler.output)
    (generated : List GeneratedUnit) (files : Files) :
    let directory := settings.compiler.outputDirectory
    let made := (files.makeDirectories directory).2
    let emitted := (emit shell settings generated files).2.2
    made.SameDirectories emitted ∧
      ∀ place, (∀ output ∈ outputFiles generated, ¬made.Names (directory.join output.1) place) →
        ¬made.Names settings.compiler.output place → emitted.at? place = made.at? place := by
  intro directory made emitted
  obtain ⟨same, kept⟩ := writeFiles_keeps directory (outputFiles generated) made
  rcases emit_files shell settings generated files with
    ⟨_, unfilled⟩ | ⟨_, filled | ⟨invocation, linked, _⟩⟩
  · rw [show emitted = made from unfilled]
    exact ⟨.refl made, fun _ _ _ => rfl⟩
  · rw [show emitted = _ from filled]
    exact ⟨same, fun place unnamed _ => kept place unnamed⟩
  · rw [show emitted = _ from linked]
    rcases confined (writeFiles directory (outputFiles generated) made).2 invocation with
      unchanged | ⟨target, named, changed⟩
    · rw [unchanged]
      exact ⟨same, fun place unnamed _ => kept place unnamed⟩
    · refine ⟨same.trans changed.sameDirectories, ?_⟩
      intro place unnamed other
      have elsewhere : place ≠ target := by
        rintro rfl
        exact other (same.names_iff.mp named)
      rw [changed.elsewhere place elsewhere, kept place unnamed]

theorem build_of_prepare_error {search later : Search} {seeds : List Path} {error : BuildError}
    (prepared : prepare settings files search seeds = (.error error, later)) :
    (build shell settings files search seeds).files = files := by
  rw [build, prepared]

/-- A build that keeps nothing removes the files by their names where their directory was there. -/
theorem build_files_of_exists {search later : Search} {seeds : List Path}
    (unsaved : settings.compiler.saveTemps = false)
    (there : files.exists? settings.compiler.outputDirectory = true)
    (prepared : prepare settings files search seeds = (.ok generated, later)) :
    (build shell settings files search seeds).files =
      (removeFiles settings.compiler.outputDirectory ((outputFiles generated).map Prod.fst)
        (emit shell settings generated files).2.2).2 := by
  simp only [build, prepared, unsaved, there, cleanUp, Bool.not_true, Bool.false_eq_true, if_false]
  split <;> rfl

def soleProgram : List UInt8 := "fn main() \x7b\n\x7d\n".toUTF8.toList

/-- A program beside a directory with a note in it, and maybe with a directory that is named like
one of the program's sources. -/
def workshop (blocked : Bool) : Files where
  entries := [(["main.qd"], .file soleProgram none), (["gen"], .directory),
    (["gen", "notes.txt"], .file [109] none)] ++
      if blocked then [(["gen", "main_main.c"], .directory)] else []
  working := []

theorem compile_workshop {blocked : Bool} {main : SourceUnit} {imports : List Path}
    {later : Search}
    (read : SourceUnit.compile ⟨⟨"/main.qd"⟩, none, [], none⟩ (workshop blocked) ⟨[], []⟩
      soleProgram = (.ok (main, imports), later))
    (alone : main.requests = []) :
    compile (workshop blocked) ⟨[], []⟩ [⟨"main.qd"⟩] = (.ok [main], later) := by
  have seeds : ∀ blocked, canonicalSeeds (workshop blocked) [⟨"main.qd"⟩] = .ok [⟨"/main.qd"⟩] := by
    simp only [canonicalSeeds, Files.canonical, Files.locate, String.contains_char_eq]
    decide
  have place : ∀ blocked, (workshop blocked).locate ⟨"/main.qd"⟩ = .ok ["main.qd"] := by
    simp only [Files.locate, String.contains_char_eq]
    decide
  rw [compile, seeds blocked]
  exact compileQueue_alone (place blocked) (by simp) rfl read alone (compileQueue_nil _ _ _)

/-- What is generated of the program, whatever stands beside it. -/
theorem prepare_workshop (blocked : Bool) (settings : Settings) (plain : settings.runtime = {}) :
    ∃ generated, (prepare settings (workshop blocked) ⟨[], []⟩ [⟨"main.qd"⟩]).1 = .ok generated ∧
      (outputFiles generated).map Prod.fst =
        ["qd_base.h", "qd_base.c", "main_main.h", "main_main.c"] := by
  have built : ∀ blocked : Bool, (do
      let one := SourceUnit.compile ⟨⟨"/main.qd"⟩, none, [], none⟩ (workshop blocked) ⟨[], []⟩
        soleProgram
      let main ← one.1.toOption
      let table ← (analyze [main.1]).toOption
      let made ← (generateAll {} [main.1] table).toOption
      return (main.1.requests, (outputFiles made).map Prod.fst)) =
      some ([], ["qd_base.h", "qd_base.c", "main_main.h", "main_main.c"]) := by decide +kernel
  obtain ⟨⟨main, imports⟩, read, built⟩ := Option.bind_eq_some_iff.mp (built blocked)
  obtain ⟨table, analyzed, built⟩ := Option.bind_eq_some_iff.mp built
  obtain ⟨made, generated, built⟩ := Option.bind_eq_some_iff.mp built
  simp only [Option.pure_def, Option.some.injEq, Prod.mk.injEq] at built
  obtain ⟨alone, names⟩ := built
  have compiled := compile_workshop (Prod.ext (eq_ok_of_toOption read) rfl) alone
  have analyzed : analyze [main] = .ok table := eq_ok_of_toOption analyzed
  refine ⟨made, ?_, names⟩
  rw [prepare, compiled]
  dsimp only
  rw [analyzed, plain]
  exact eq_ok_of_toOption generated

/-- A C compiler that writes an empty program. -/
def Shell.writing (output : Path) : Shell := fun files _ =>
  match files.write output [] with
  | .ok after => (.ok {}, after)
  | .error error => (.error error, files)

theorem Shell.changesOnly_writing (output : Path) : (Shell.writing output).ChangesOnly output := by
  intro files invocation
  unfold Shell.writing
  split
  · next after written => exact .inr (Files.sameBut_of_write written)
  · exact .inl rfl

def settingsFor (directory : String) : Settings :=
  { compiler := { cc := "true", outputDirectory := ⟨directory⟩ } }

/-- The files of the program can be written beside it, and into the directory unless the way is
blocked. -/
theorem writeFiles_workshop {blocked : Bool} {directory : String} {place : Place}
    (among : (blocked, directory, place) ∈ [(true, "gen", ["gen"]), (false, "", [])])
    {outputs : List (String × String)}
    (listed : ∀ output ∈ outputs,
      output.1 ∈ ["qd_base.h", "qd_base.c", "main_main.h", "main_main.c"] ∧
        (blocked = true → output.1 ≠ "main_main.c")) :
    ∃ after, writeFiles ⟨directory⟩ outputs (workshop blocked) = (.ok (), after) := by
  have spelled : ∀ target ∈ [(true, "gen", ["gen"]), (false, "", [])],
      ∀ name ∈ ["qd_base.h", "qd_base.c", "main_main.h", "main_main.c"],
      (target.1 = true → name ≠ "main_main.c") →
      ((Path.mk target.2.1).join name).pieces = target.2.2 ++ [name] ∧
        (Char.ofNat 0 ∉ ((Path.mk target.2.1).join name).text.toList ∧
          ((Path.mk target.2.1).join name).text ≠ "") ∧
        target.2.2.foldlM (workshop target.1).step
          ((workshop target.1).origin ((Path.mk target.2.1).join name)) = .ok target.2.2 ∧
        (workshop target.1).at? target.2.2 = some .directory ∧
        ¬(name = "" || name = "." || name = "..") = true ∧
        ¬Files.longestName < name.utf8ByteSize ∧
        (workshop target.1).at? (target.2.2 ++ [name]) ≠ some .directory := by decide
  apply writeFiles_of_named
  intro output member
  obtain ⟨known, spared⟩ := listed output member
  obtain ⟨pieces, ⟨nulless, some⟩, walked, inside, proper, short, free⟩ :=
    spelled _ among output.1 known spared
  have plain : ¬((Path.mk directory).join output.1).text.contains (Char.ofNat 0) = true := by
    rw [String.contains_char_eq, decide_eq_true_eq]
    exact nulless
  exact ⟨_, ⟨_, _, ⟨⟨plain, some⟩, ⟨_, pieces, walked⟩, inside, proper, short⟩, rfl⟩, free⟩

end StackLang
