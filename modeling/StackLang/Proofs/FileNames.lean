import Mathlib.Data.List.TakeDrop
import StackLang.Module
import StackLang.Output.CName

/-! The names of what is made from a file. They are built from the name of its module and its
stem with an underscore between them, and both may have underscores of their own; here it is said
exactly which files share their names with which. -/
namespace StackLang

/-- What the names of the header and the source of a file start with. -/
def outputStem (path : Path) : String := CName.fileStem (moduleName path) path

def Path.stemText (path : Path) : String := path.stem?.getD ""

/-- The entry file of a directory is named as if the directory were a file beside another one,
whose stem ends like the entry file's. -/
def Shadows (entry other : Path) : Prop :=
  entry.fileName? = some moduleEntry ∧
    ∃ text, other.stemText = text ++ "_module" ∧
      moduleName entry = moduleName other ++ "_" ++ text

def SharesNames (first second : Path) : Prop :=
  moduleName first = moduleName second ∧ first.stemText = second.stemText ∨
    Shadows first second ∨ Shadows second first

theorem outputStem_toList (path : Path) :
    (outputStem path).toList = (moduleName path).toList ++ '_' :: path.stemText.toList := by
  simp [outputStem, CName.fileStem, Path.stemText]

theorem moduleName_main {path : Path} (nameless : path.stem? = none) :
    moduleName path = "main" ∧ path.stemText = "" := by
  have unnamed : path.fileName? = none := by simpa [Path.stem?] using nameless
  refine ⟨?_, by rw [Path.stemText, nameless]; rfl⟩
  simp only [moduleName, unnamed, nameless]
  rw [if_neg (by simp)]
  decide +kernel

/-- A module is named like a file, character by character, unless the file is the entry of a
directory. -/
theorem moduleName_cases (path : Path) :
    path.fileName? = some moduleEntry ∧ path.stemText = "module" ∨
      (moduleName path).length = path.stemText.length ∨
      moduleName path = "main" ∧ path.stemText = "" := by
  by_cases entry : path.fileName? = some moduleEntry
  · refine .inl ⟨entry, ?_⟩
    rw [Path.stemText, Path.stem?, entry]
    decide
  · cases stem : path.stem? with
    | none => exact .inr (.inr (moduleName_main stem))
    | some text =>
      refine .inr (.inl ?_)
      simp only [moduleName, if_neg entry, Path.stemText, stem, Option.getD_some,
        String.length_map]

/-- A text with an underscore can be cut at the same one or at two different ones. -/
theorem underscore_cases {left right left' right' : List Char}
    (same : left ++ '_' :: right = left' ++ '_' :: right') :
    left = left' ∧ right = right' ∨
      (∃ text, left = left' ++ '_' :: text ∧ right' = text ++ '_' :: right) ∨
      ∃ text, left' = left ++ '_' :: text ∧ right = text ++ '_' :: right' := by
  rcases List.append_eq_append_iff.mp same with ⟨between, longer, rest⟩ | ⟨between, longer, rest⟩
  · cases between with
    | nil => exact .inl ⟨by simpa using longer.symm, by simpa using rest⟩
    | cons c text =>
      obtain ⟨rfl, behind⟩ := List.cons.inj rest
      exact .inr (.inr ⟨text, longer, behind⟩)
  · cases between with
    | nil => exact .inl ⟨by simpa using longer, by simpa using rest.symm⟩
    | cons c text =>
      obtain ⟨rfl, behind⟩ := List.cons.inj rest
      exact .inr (.inl ⟨text, longer, behind⟩)

theorem shadows_of_longer {first second : Path} {text : List Char}
    (longer : (moduleName first).toList = (moduleName second).toList ++ '_' :: text)
    (stems : second.stemText.toList = text ++ '_' :: first.stemText.toList) :
    Shadows first second := by
  have lengths := congrArg List.length longer
  have others := congrArg List.length stems
  simp only [List.length_append, List.length_cons, String.length_toList] at lengths others
  have marked : '_' ∈ second.stemText.toList := by simp [stems]
  have named : '_' ∈ (moduleName first).toList := by simp [longer]
  have plain : (moduleName second).length = second.stemText.length := by
    rcases moduleName_cases second with ⟨_, ends⟩ | same | ⟨_, ends⟩
    · rw [ends] at marked
      exact absurd marked (by decide)
    · exact same
    · rw [ends] at marked
      exact absurd marked (by decide)
  rcases moduleName_cases first with ⟨entry, ends⟩ | same | ⟨main, _⟩
  · refine ⟨entry, String.ofList text, ?_, ?_⟩
    · apply String.ext
      rw [stems, ends]
      simp
    · apply String.ext
      rw [longer]
      simp
  · omega
  · rw [main] at named
    exact absurd named (by decide)

theorem outputStem_of_shadows {first second : Path} (shadows : Shadows first second) :
    outputStem first = outputStem second := by
  obtain ⟨entry, text, stem, module⟩ := shadows
  have ends : first.stemText = "module" := by
    rw [Path.stemText, Path.stem?, entry]
    decide
  apply String.ext
  rw [outputStem_toList, outputStem_toList, module, stem, ends]
  simp

theorem outputStem_eq_iff (first second : Path) :
    outputStem first = outputStem second ↔ SharesNames first second := by
  constructor
  · intro same
    have lists := congrArg String.toList same
    rw [outputStem_toList, outputStem_toList] at lists
    rcases underscore_cases lists with ⟨modules, stems⟩ | ⟨text, longer, stems⟩ |
      ⟨text, longer, stems⟩
    · exact .inl ⟨String.ext modules, String.ext stems⟩
    · exact .inr (.inl (shadows_of_longer longer stems))
    · exact .inr (.inr (shadows_of_longer longer stems))
  · rintro (⟨modules, stems⟩ | shadows | shadows)
    · apply String.ext
      rw [outputStem_toList, outputStem_toList, modules, stems]
    · exact outputStem_of_shadows shadows
    · exact (outputStem_of_shadows shadows).symm

/-- No file is named like the files that every program has. -/
theorem outputStem_ne_support (path : Path) : outputStem path ≠ "qd_base" := by
  intro same
  have lists := congrArg String.toList same
  rw [outputStem_toList] at lists
  have cut : (moduleName path).toList ++ '_' :: path.stemText.toList =
      "qd".toList ++ '_' :: "base".toList := lists
  have single : ∀ text : List Char, '_' ∉ text → ∀ front back, text ≠ front ++ '_' :: back := by
    rintro _ unmarked front back rfl
    exact unmarked (by simp)
  rcases underscore_cases cut with ⟨module, stem⟩ | ⟨text, _, stem⟩ | ⟨text, module, _⟩
  · have named : moduleName path = "qd" := String.ext module
    have ends : path.stemText = "base" := String.ext stem
    rcases moduleName_cases path with ⟨_, entry⟩ | lengths | ⟨main, _⟩
    · rw [entry] at ends
      exact absurd ends (by decide)
    · rw [named, ends] at lengths
      exact absurd lengths (by decide)
    · rw [main] at named
      exact absurd named (by decide)
  · exact single "base".toList (by decide) _ _ stem
  · exact single "qd".toList (by decide) _ _ module

/-! ### No slashes -/

theorem splitAt_ne_nil (mark : Char) (text : List Char) : Text.splitAt mark text ≠ [] := by
  fun_induction Text.splitAt mark text <;> simp

theorem splitAt_append_mark (mark : Char) (left right : List Char) :
    Text.splitAt mark (left ++ mark :: right) =
      Text.splitAt mark left ++ Text.splitAt mark right := by
  induction left with
  | nil => simp [Text.splitAt]
  | cons c rest ih =>
    rw [List.cons_append, Text.splitAt, Text.splitAt, ih]
    split
    · rfl
    · cases pieces : Text.splitAt mark rest with
      | nil => exact absurd pieces (splitAt_ne_nil mark rest)
      | cons piece others => rfl

theorem splitAt_of_not_mem {mark : Char} {text : List Char} (absent : mark ∉ text) :
    Text.splitAt mark text = [text] := by
  induction text with
  | nil => rfl
  | cons c rest ih =>
    simp only [List.mem_cons, not_or] at absent
    rw [Text.splitAt, if_neg (Ne.symm absent.1), ih absent.2]

theorem not_mem_of_splitAt {mark : Char} {text piece : List Char}
    (member : piece ∈ Text.splitAt mark text) : mark ∉ piece := by
  induction text generalizing piece with
  | nil =>
    rw [Text.splitAt, List.mem_singleton] at member
    simp [member]
  | cons c rest ih =>
    rw [Text.splitAt] at member
    split at member
    · rcases List.mem_cons.mp member with rfl | later
      · simp
      · exact ih later
    · next other =>
      cases pieces : Text.splitAt mark rest with
      | nil => exact absurd pieces (splitAt_ne_nil mark rest)
      | cons first others =>
        rw [pieces] at member
        rcases List.mem_cons.mp member with rfl | later
        · have inside : mark ∉ first := ih (by rw [pieces]; exact List.mem_cons_self)
          simp [inside, Ne.symm other]
        · exact ih (by rw [pieces]; exact List.mem_cons_of_mem _ later)

theorem component?_eq_name {piece text : String}
    (read : Path.component? piece = some (.name text)) : text = piece := by
  unfold Path.component? at read
  split at read <;> cases read
  rfl

theorem mem_pieces_of_components {path : Path} {text : String}
    (member : .name text ∈ path.components) : text ∈ path.pieces := by
  unfold Path.components at member
  split at member
  · cases member
  · next first more pieces =>
    rw [pieces]
    rcases List.mem_append.mp member with front | later
    · split at front
      · simp at front
      · split at front
        · simp at front
        · have read : Path.component? first = some (.name text) := by simpa using front
          rw [component?_eq_name read]
          exact List.mem_cons_self
    · obtain ⟨piece, among, read⟩ := List.mem_filterMap.mp later
      rw [component?_eq_name read]
      exact List.mem_cons_of_mem _ among

theorem not_mem_of_fileName? {path : Path} {name : String} (found : path.fileName? = some name) :
    '/' ∉ name.toList := by
  have last : path.components.getLast? = some (.name name) := by
    unfold Path.fileName? at found
    split at found
    · next text read => rw [read, Option.some.inj found]
    · cases found
  have member := mem_pieces_of_components (List.mem_of_getLast? last)
  obtain ⟨piece, among, rfl⟩ := List.mem_map.mp member
  rw [String.toList_ofList]
  exact not_mem_of_splitAt among

theorem mem_of_cutName {name : String} {c : Char} (member : c ∈ (Path.cutName name).1.toList) :
    c ∈ name.toList := by
  unfold Path.cutName at member
  rw [List.span_eq_takeWhile_dropWhile] at member
  dsimp only at member
  split at member
  · exact member
  · exact member
  · next front _ behind =>
    have inside : c ∈ front := by simpa using member
    have later : c ∈ name.toList.reverse.dropWhile (· ≠ '.') := by
      rw [behind]
      exact List.mem_cons_of_mem _ inside
    simpa using (List.dropWhile_sublist _).subset later

theorem not_mem_moduleName (path : Path) : '/' ∉ (moduleName path).toList := by
  unfold moduleName
  rw [String.toList_map]
  intro member
  obtain ⟨c, _, slash⟩ := List.mem_map.mp member
  split at slash
  · next plain =>
    rw [slash] at plain
    exact absurd plain (by decide)
  · exact absurd slash (by decide)

theorem not_mem_outputStem (path : Path) : '/' ∉ (outputStem path).toList := by
  rw [outputStem_toList]
  have stem : '/' ∉ path.stemText.toList := by
    unfold Path.stemText Path.stem?
    cases found : path.fileName? with
    | none => simp
    | some name => exact fun member => not_mem_of_fileName? found (mem_of_cutName member)
  simp [not_mem_moduleName, stem]

end StackLang
