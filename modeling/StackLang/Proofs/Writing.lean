import StackLang.Build.Run
import StackLang.Proofs.FileNames
import StackLang.Proofs.Outcome

/-! Files that are written into a directory and read again. A file stays as it was written while
files of other names are written beside it. -/
namespace StackLang

open StackLang.Outcome

namespace Path

variable {name : String}

theorem not_isAbsolute_of_slashless (slashless : '/' ∉ name.toList) :
    ¬(Path.mk name).isAbsolute = true := by
  intro absolute
  have first : name.toList.head? = some '/' := by simpa [isAbsolute] using absolute
  exact slashless (List.mem_of_head? first)

theorem join_of_slashless (slashless : '/' ∉ name.toList) (directory : Path) :
    directory.join name =
      if directory.text = "" || directory.text.toList.getLast? = some '/' then
        ⟨directory.text ++ name⟩
      else ⟨directory.text ++ "/" ++ name⟩ := by
  rw [join, if_neg (not_isAbsolute_of_slashless slashless)]

theorem join_inj {directory : Path} {other : String} (slashless : '/' ∉ name.toList)
    (slashless' : '/' ∉ other.toList) (same : directory.join name = directory.join other) :
    name = other := by
  rw [join_of_slashless slashless, join_of_slashless slashless'] at same
  have texts := congrArg (String.toList ∘ Path.text) same
  split at texts <;> simpa [String.toList_inj] using texts

/-- The name of a file is the last piece of its path. -/
theorem pieces_join (slashless : '/' ∉ name.toList) (directory : Path) :
    ∃ front, (directory.join name).pieces = front ++ [name] := by
  have behind (text : List Char) :
      (Text.splitAt '/' (text ++ '/' :: name.toList)).map String.ofList =
        (Text.splitAt '/' text).map String.ofList ++ [name] := by
    rw [splitAt_append_mark, splitAt_of_not_mem slashless, List.map_append]
    simp
  rw [join_of_slashless slashless]
  split
  · next ended =>
    rcases (Bool.or_eq_true _ _).mp ended with empty | slash
    · refine ⟨[], ?_⟩
      rw [pieces, of_decide_eq_true empty]
      simp [splitAt_of_not_mem slashless]
    · obtain ⟨text, whole⟩ := List.getLast?_eq_some_iff.mp (of_decide_eq_true slash)
      refine ⟨(Text.splitAt '/' text).map String.ofList, ?_⟩
      rw [pieces, ← behind]
      simp [whole]
  · refine ⟨(Text.splitAt '/' directory.text.toList).map String.ofList, ?_⟩
    rw [pieces, ← behind]
    simp

end Path

namespace Files

variable {files after : Files} {path : Path} {place target : Place} {name : String}
  {content : List UInt8} {program : Option Program}

theorem at?_put_self (notRoot : target ≠ []) (entry : Entry) :
    (files.put target entry).at? target = some entry := by
  have gone : (files.entries.filter fun pair => pair.1 ≠ target).find?
      (fun pair => pair.1 = target) = none := by
    simp [List.find?_eq_none]
  simp only [at?, if_neg notRoot, put, List.find?_append, gone]
  simp

theorem at?_put_of_ne (other : place ≠ target) (entry : Entry) :
    (files.put target entry).at? place = files.at? place := by
  have kept : (files.entries.filter fun pair => pair.1 ≠ target).find?
      (fun pair => pair.1 = place) = files.entries.find? fun pair => pair.1 = place := by
    rw [List.find?_filter]
    congr 1
    funext pair
    by_cases here : pair.1 = place <;> simp [here, other]
  simp only [at?, put, List.find?_append, kept]
  simp [other.symm]

/-- A file that takes the place of another, or of nothing, closes no way: steps lead through
directories only. -/
theorem step_put {start : Place} {piece : String} (notRoot : target ≠ [])
    (free : files.at? target ≠ some .directory) (stepped : files.step start piece = .ok place) :
    (files.put target (.file content program)).step start piece = .ok place := by
  unfold step at stepped ⊢
  split at stepped
  · cases stepped
  · cases stepped
  · next inside =>
    have other : start ≠ target := fun same => free (same ▸ inside)
    have still : (files.at? (start ++ [piece])).isSome →
        ((files.put target (.file content program)).at? (start ++ [piece])).isSome := by
      intro known
      by_cases here : start ++ [piece] = target
      · rw [here, at?_put_self notRoot]
        rfl
      · rwa [at?_put_of_ne here]
    rw [at?_put_of_ne other, inside]
    grind

theorem steps_put {start : Place} {pieces : List String} (notRoot : target ≠ [])
    (free : files.at? target ≠ some .directory)
    (walked : pieces.foldlM files.step start = .ok place) :
    pieces.foldlM (files.put target (.file content program)).step start = .ok place := by
  induction pieces generalizing start with
  | nil => exact walked
  | cons piece pieces ih =>
    obtain ⟨next, stepped, others⟩ := bind_ok walked
    rw [List.foldlM_cons, step_put notRoot free stepped]
    exact ih others

/-- A path leads to a name in the directory at a place, where a file of that name can stand. -/
structure Leads (files : Files) (path : Path) (place : Place) (name : String) : Prop where
  spelled : ¬path.text.contains (Char.ofNat 0) = true ∧ path.text ≠ ""
  walked : ∃ front, path.pieces = front ++ [name] ∧
    front.foldlM files.step (files.origin path) = .ok place
  inside : files.at? place = some .directory
  proper : ¬(name = "" || name = "." || name = "..") = true
  short : ¬longestName < name.utf8ByteSize

namespace Leads

theorem name_eq {directory : Path} {last : String} (slashless : '/' ∉ name.toList)
    (leads : Leads files (directory.join name) place last) : last = name := by
  obtain ⟨front, pieces, _⟩ := leads.walked
  obtain ⟨front', pieces'⟩ := Path.pieces_join slashless directory
  rw [pieces] at pieces'
  exact (List.cons.inj (List.append_inj_right' pieces' rfl)).1

theorem put (leads : Leads files path place name) (notRoot : target ≠ [])
    (free : files.at? target ≠ some .directory) :
    Leads (files.put target (.file content program)) path place name where
  spelled := leads.spelled
  walked := by
    obtain ⟨front, pieces, walked⟩ := leads.walked
    exact ⟨front, pieces, steps_put notRoot free walked⟩
  inside := by
    have other : place ≠ target := fun same => free (same ▸ leads.inside)
    rw [at?_put_of_ne other, leads.inside]
  proper := leads.proper
  short := leads.short

theorem locate (leads : Leads files path place name)
    (known : (files.at? (place ++ [name])).isSome = true) :
    files.locate path = .ok (place ++ [name]) := by
  obtain ⟨front, pieces, walked⟩ := leads.walked
  have last : files.step place name = .ok (place ++ [name]) := by
    have proper := leads.proper
    simp only [Bool.or_eq_true, decide_eq_true_eq, not_or] at proper
    simp only [step, leads.inside]
    rw [if_neg (by simp [proper]), if_neg proper.2, if_neg leads.short, if_pos known]
  rw [Files.locate, if_neg leads.spelled.1, if_neg leads.spelled.2, pieces, List.foldlM_append,
    walked]
  change [name].foldlM files.step place = _
  rw [List.foldlM_cons, last]
  rfl

theorem read (leads : Leads files path place name)
    (found : files.at? (place ++ [name]) = some (.file content program)) :
    files.read path = .ok content := by
  have entry : files.entry path = .ok (.file content program) := by
    rw [entry, leads.locate (by rw [found]; rfl)]
    simp [bind, Except.bind, found, pure, Except.pure]
  rw [Files.read, entry]
  rfl

end Leads

theorem holder_ok {pieces : List String} {last : String}
    (held : files.holder path pieces = .ok (place, last)) :
    (¬path.text.contains (Char.ofNat 0) = true ∧ path.text ≠ "") ∧
      last = pieces.getLast?.getD "" ∧
      pieces.dropLast.foldlM files.step (files.origin path) = .ok place ∧
      files.at? place = some .directory := by
  unfold holder at held
  by_cases nul : path.text.contains (Char.ofNat 0) = true
  · rw [if_pos nul] at held
    cases held
  by_cases empty : path.text = ""
  · rw [if_neg nul, if_pos empty] at held
    cases held
  rw [if_neg nul, if_neg empty] at held
  obtain ⟨found, walked, held⟩ := bind_ok held
  split at held
  · next inside =>
    cases held
    exact ⟨⟨nul, empty⟩, rfl, walked, inside⟩
  · cases held
  · cases held

theorem write_ok (written : files.write path content = .ok after) :
    ∃ place name, Leads files path place name ∧
      files.at? (place ++ [name]) ≠ some .directory ∧
      after = files.put (place ++ [name]) (.file content none) := by
  unfold write at written
  obtain ⟨⟨place, name⟩, held, written⟩ := bind_ok written
  obtain ⟨spelled, last, walked, inside⟩ := holder_ok held
  have ended : path.pieces = path.pieces.dropLast ++ [name] := by
    have nonempty : path.pieces ≠ [] := by simp [Path.pieces, splitAt_ne_nil]
    rw [last, List.getLast?_eq_some_getLast nonempty, Option.getD_some,
      List.dropLast_concat_getLast]
  dsimp only at written
  by_cases proper : (name = "" || name = "." || name = "..") = true
  · rw [if_pos proper] at written
    cases written
  by_cases long : longestName < name.utf8ByteSize
  · rw [if_neg proper, if_pos long] at written
    cases written
  rw [if_neg proper, if_neg long] at written
  have leads : Leads files path place name :=
    ⟨spelled, ⟨_, ended, walked⟩, inside, proper, long⟩
  split at written
  · cases written
  · next free =>
    cases written
    exact ⟨place, name, leads, free, rfl⟩

def Stores (files : Files) (path : Path) (name : String) (content : List UInt8) : Prop :=
  ∃ place, Leads files path place name ∧
    files.at? (place ++ [name]) = some (.file content none)

theorem Stores.read (stores : files.Stores path name content) : files.read path = .ok content := by
  obtain ⟨place, leads, found⟩ := stores
  exact leads.read found

theorem stores_of_write {directory : Path} (slashless : '/' ∉ name.toList)
    (written : files.write (directory.join name) content = .ok after) :
    after.Stores (directory.join name) name content := by
  obtain ⟨place, last, leads, free, rfl⟩ := write_ok written
  obtain rfl := leads.name_eq slashless
  exact ⟨place, leads.put (by simp) free, at?_put_self (by simp) _⟩

/-- A file stays as it is while one of another name is written into any directory. -/
theorem Stores.write {directory : Path} {other : String} {more : List UInt8}
    (stores : files.Stores path name content) (different : other ≠ name)
    (slashless : '/' ∉ other.toList)
    (written : files.write (directory.join other) more = .ok after) :
    after.Stores path name content := by
  obtain ⟨place, leads, found⟩ := stores
  obtain ⟨target, last, towards, free, rfl⟩ := write_ok written
  obtain rfl := towards.name_eq slashless
  have apart : place ++ [name] ≠ target ++ [last] := by
    intro same
    exact different (List.cons.inj (List.append_inj_right' same rfl)).1.symm
  exact ⟨place, leads.put (by simp) free, by rw [at?_put_of_ne apart, found]⟩

end Files

variable {directory path : Path} {outputs : List (String × String)} {files after : Files}

theorem writeFiles_cons {name content : String}
    (done : writeFiles directory ((name, content) :: outputs) files = (.ok (), after)) :
    ∃ between, files.write (directory.join name) (Text.Utf8.encode content.toList) = .ok between ∧
      writeFiles directory outputs between = (.ok (), after) := by
  rw [writeFiles] at done
  split at done
  · cases done
  · next between written => exact ⟨between, written, done⟩

theorem Files.Stores.writeFiles {name : String} {content : List UInt8}
    (stores : files.Stores path name content)
    (slashless : ∀ output ∈ outputs, '/' ∉ output.1.toList)
    (absent : name ∉ outputs.map Prod.fst)
    (done : StackLang.writeFiles directory outputs files = (.ok (), after)) :
    after.Stores path name content := by
  induction outputs generalizing files with
  | nil => cases done; exact stores
  | cons output outputs ih =>
    obtain ⟨between, written, others⟩ := writeFiles_cons done
    obtain ⟨slashless, slashless'⟩ := List.forall_mem_cons.mp slashless
    simp only [List.map_cons, List.mem_cons, not_or] at absent
    exact ih (stores.write (Ne.symm absent.1) slashless written) slashless' absent.2 others

/-- Of the files that are written, every one whose name is not used again can be read. -/
theorem read_writeFiles {front back : List (String × String)} {name content : String}
    (slashless : ∀ output ∈ front ++ (name, content) :: back, '/' ∉ output.1.toList)
    (absent : name ∉ back.map Prod.fst)
    (done : writeFiles directory (front ++ (name, content) :: back) files = (.ok (), after)) :
    after.read (directory.join name) = .ok (Text.Utf8.encode content.toList) := by
  induction front generalizing files with
  | nil =>
    obtain ⟨between, written, others⟩ := writeFiles_cons done
    obtain ⟨slashless, slashless'⟩ := List.forall_mem_cons.mp slashless
    have stores := Files.stores_of_write slashless written
    exact (stores.writeFiles slashless' absent others).read
  | cons output front ih =>
    obtain ⟨between, _, others⟩ := writeFiles_cons done
    exact ih (List.forall_mem_cons.mp slashless).2 others

end StackLang
