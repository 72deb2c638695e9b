import StackLang.Proofs.GeneratedCode
import StackLang.Proofs.ImportClosure
import StackLang.Proofs.Outputs
import StackLang.Proofs.Preprocessing

/-! Guards of headers. A header is left out where its guard is defined already, so two headers stand
in each other's way if they share a guard. The guard is the path of the file without the case of its
letters and with one sign for all that is neither letter nor digit: two paths that differ in nothing
else share it. -/
namespace StackLang

open Text (isAlphanumeric)

/-! ### Letters -/

namespace Text

theorem toNat_toLower (c : Char) :
    c.toLower.toNat = if 65 ≤ c.toNat ∧ c.toNat ≤ 90 then c.toNat + 32 else c.toNat := by
  delta Char.toLower
  simp only [ge_iff_le, UInt32.le_iff_toNat_le, Char.reduceVal, UInt32.reduceToNat, Char.toNat_val]
  split
  · grind [UInt32.toNat_add, Char.toNat_val, Char.toNat]
  · rfl

theorem toNat_toUpper (c : Char) :
    c.toUpper.toNat = if 97 ≤ c.toNat ∧ c.toNat ≤ 122 then c.toNat - 32 else c.toNat := by
  delta Char.toUpper
  simp only [UInt32.le_iff_toNat_le, Char.reduceVal, UInt32.reduceToNat, Char.toNat_val]
  split
  · grind [UInt32.toNat_add, Char.toNat_val, Char.toNat]
  · rfl

theorem toUpper_eq_iff {c d : Char} : c.toUpper = d.toUpper ↔ c.toLower = d.toLower := by
  rw [← Char.toNat_inj, ← Char.toNat_inj, toNat_toUpper, toNat_toUpper, toNat_toLower,
    toNat_toLower]
  grind

theorem isAlphanumeric_of_letter {c : Char}
    (letter : 65 ≤ c.toNat ∧ c.toNat ≤ 90 ∨ 97 ≤ c.toNat ∧ c.toNat ≤ 122) :
    isAlphanumeric c = true := by
  rw [isAlphanumeric, Bool.or_eq_true]
  refine .inl (List.any_eq_true.mpr ?_)
  rcases letter with upper | lower
  · refine ⟨(65, 90), ?_, by simpa using upper⟩
    unfold alphabetic
    exact List.mem_cons_self
  · refine ⟨(97, 122), ?_, by simpa using lower⟩
    unfold alphabetic
    exact List.mem_cons_of_mem _ List.mem_cons_self

theorem isAlphanumeric_toLower (c : Char) : isAlphanumeric c.toLower = isAlphanumeric c := by
  have lowered := toNat_toLower c
  by_cases upper : 65 ≤ c.toNat ∧ c.toNat ≤ 90
  · rw [if_pos upper] at lowered
    rw [isAlphanumeric_of_letter (.inl upper), isAlphanumeric_of_letter (.inr (by omega))]
  · rw [if_neg upper, Char.toNat_inj] at lowered
    rw [lowered]

theorem isAlphanumeric_toUpper (c : Char) : isAlphanumeric c.toUpper = isAlphanumeric c := by
  have raised := toNat_toUpper c
  by_cases lower : 97 ≤ c.toNat ∧ c.toNat ≤ 122
  · rw [if_pos lower] at raised
    rw [isAlphanumeric_of_letter (.inr lower), isAlphanumeric_of_letter (.inl (by omega))]
  · rw [if_neg lower, Char.toNat_inj] at raised
    rw [raised]

theorem isAlphanumeric_underscore : isAlphanumeric '_' = false := by decide +kernel

theorem isAlphanumeric_blank : isAlphanumeric ' ' = false := by decide +kernel

end Text

/-! ### Guards -/

open Text (isAlphanumeric_toLower isAlphanumeric_toUpper)

namespace CName

/-- Characters that a guard does not tell apart: a Latin letter in both cases, and all that are
neither letters nor digits. -/
def Alike (c d : Char) : Prop :=
  c.toLower = d.toLower ∨ isAlphanumeric c = false ∧ isAlphanumeric d = false

def guardCharacter (c : Char) : Char := if isAlphanumeric c then c.toUpper else '_'

theorem guard_eq (path : Path) : guard path = "QD" ++ path.text.map guardCharacter ++ "_H" := rfl

theorem guardCharacter_eq_iff {c d : Char} : guardCharacter c = guardCharacter d ↔ Alike c d := by
  have letter {c : Char} (known : isAlphanumeric c = true) : c.toUpper ≠ '_' := by
    intro mark
    rw [← isAlphanumeric_toUpper, mark, Text.isAlphanumeric_underscore] at known
    cases known
  have fold : c.toLower = d.toLower → isAlphanumeric c = isAlphanumeric d := by
    intro same
    rw [← isAlphanumeric_toLower, same, isAlphanumeric_toLower]
  unfold guardCharacter Alike
  cases first : isAlphanumeric c <;> cases second : isAlphanumeric d
  · simp
  · simpa [first, second, (letter second).symm] using fold
  · simpa [first, second, letter first] using fold
  · simp [Text.toUpper_eq_iff]

end CName

/-- Paths that agree character by character, as far as a guard tells characters apart. -/
def Path.ReadsLike (first second : Path) : Prop :=
  List.Forall₂ CName.Alike first.text.toList second.text.toList

namespace CName

/-- Two files share their guard exactly if their paths read alike. -/
theorem guard_eq_iff {first second : Path} :
    guard first = guard second ↔ first.ReadsLike second := by
  rw [guard_eq, guard_eq, String.append_left_inj, String.append_right_inj, ← String.toList_inj,
    String.toList_map, String.toList_map, ← List.forall₂_eq_eq_eq, List.forall₂_map_left_iff,
    List.forall₂_map_right_iff, Path.ReadsLike]
  simp only [guardCharacter_eq_iff]

theorem blank_not_mem_guard (path : Path) : ' ' ∉ (guard path).toList := by
  rw [guard_eq, String.toList_append, String.toList_append, String.toList_map, List.mem_append,
    List.mem_append, not_or, not_or]
  refine ⟨⟨by decide, ?_⟩, by decide⟩
  intro member
  obtain ⟨c, _, blank⟩ := List.mem_map.mp member
  rw [guardCharacter] at blank
  split at blank
  · next known =>
    rw [← isAlphanumeric_toUpper, blank, Text.isAlphanumeric_blank] at known
    cases known
  · cases blank

/-- No macro of the settings is named like a guard. -/
theorem guard_not_mem_defines (path : Path) (settings : RuntimeSettings) :
    guard path ∉ settings.defines.map Prod.fst := by
  have ending : (guard path).toList.reverse.take 2 = ['H', '_'] := by
    rw [guard_eq, String.toList_append, List.reverse_append]
    rfl
  intro member
  have named : guard path ∈
      ["QD_STACK_DEPTH", "QD_MARK_STACK_DEPTH", "__qd_real_t", "QD_STRING_LENGTH"] := member
  have none : ∀ name ∈ ["QD_STACK_DEPTH", "QD_MARK_STACK_DEPTH", "__qd_real_t",
      "QD_STRING_LENGTH"], name.toList.reverse.take 2 ≠ ['H', '_'] := by decide
  exact none _ named ending

end CName

/-! ### Headers behind one another -/

namespace UnitCode

variable {defined : List String}

/-- What a header holds inside of its guard, behind the macros of the settings. -/
def content (code : UnitCode) : List Row :=
  .blank :: includeRow supportHeaderName :: code.includes.map includeRow ++ [.blank] ++
    spaced (code.declarations.map .line)

theorem headerRows_eq (code : UnitCode) (settings : RuntimeSettings) :
    code.headerRows settings =
      .line ("#ifndef " ++ CName.guard code.path) :: .line ("#define " ++ CName.guard code.path) ::
        .blank :: (settings.defines.flatMap (fun pair => defineRows pair.1 pair.2) ++
          (code.content ++ [.line ("#endif /* " ++ CName.guard code.path ++ " */")])) := by
  simp [headerRows, content]

theorem directive_content (code : UnitCode) : ∀ row ∈ code.content, row.directive = .text := by
  have declared : ∀ row ∈ spaced (code.declarations.map .line), row.directive = .text := by
    intro row member
    unfold spaced declarations at member
    split at member
    · cases member
    · rcases List.mem_append.mp member with inside | last
      · simp only [List.mem_map] at inside
        obtain ⟨_, ⟨global, _, rfl⟩, rfl⟩ := inside
        exact Row.directive_declaration global
      · rw [List.mem_singleton.mp last]
        rfl
  intro row member
  simp only [content, List.cons_append, List.mem_cons, List.mem_append, List.mem_map,
    List.not_mem_nil, or_false] at member
  rcases member with rfl | rfl | (⟨name, _, rfl⟩ | rfl) | inside
  · rfl
  · exact Row.directive_include _
  · exact Row.directive_include name
  · rfl
  · exact declared row inside

theorem whole_defines (settings : RuntimeSettings) :
    ∀ pair ∈ settings.defines, ' ' ∉ pair.1.toList := by
  simp only [RuntimeSettings.defines, List.forall_mem_cons]
  decide

/-- A header whose guard is defined is left out as a whole. -/
theorem preprocess_guarded {code : UnitCode} (known : CName.guard code.path ∈ defined)
    (settings : RuntimeSettings) :
    preprocess defined 0 (code.headerRows settings) = ([], defined) := by
  have whole := CName.blank_not_mem_guard code.path
  rw [headerRows_eq]
  simp only [preprocess, Row.directive_ifndef whole, known, if_true, Row.directive_define whole,
    Row.directive_blank, skip_defines (whole_defines settings), skip_text code.directive_content,
    Row.directive_endif_comment]

/-- Any other header is kept, and defines its guard and the macros of the settings. -/
theorem preprocess_unguarded {code : UnitCode} (unknown : CName.guard code.path ∉ defined)
    (settings : RuntimeSettings) :
    ∃ known, (∀ name, name ∈ known ↔
        name ∈ defined ∨ name = CName.guard code.path ∨ name ∈ settings.defines.map Prod.fst) ∧
      preprocess defined 0 (code.headerRows settings) = (.blank :: code.content, known) := by
  have whole := CName.blank_not_mem_guard code.path
  obtain ⟨known, members, defines⟩ := preprocess_defines (whole_defines settings)
    (CName.guard code.path :: defined)
    (code.content ++ [.line ("#endif /* " ++ CName.guard code.path ++ " */")])
  refine ⟨known, fun name => ?_, ?_⟩
  · rw [members, List.mem_cons, or_assoc, or_left_comm]
  · rw [headerRows_eq]
    simp only [preprocess, Row.directive_ifndef whole, unknown, if_false,
      Row.directive_define whole, Row.directive_blank, defines,
      preprocess_text code.directive_content, Row.directive_endif_comment, List.append_nil]

/-- One header stands in the way of another exactly if they share their guard. -/
theorem suppresses_iff (code other : UnitCode) (settings : RuntimeSettings) :
    Suppresses (code.headerRows settings) (other.headerRows settings) ↔
      CName.guard code.path = CName.guard other.path := by
  constructor
  · rintro ⟨defined, kept, lost⟩
    have unknown : CName.guard other.path ∉ defined := by
      intro known
      rw [preprocess_guarded known] at kept
      exact kept rfl
    by_cases first : CName.guard code.path ∈ defined
    · rw [preprocess_guarded first] at lost
      exact absurd lost kept
    · obtain ⟨known, members, passed⟩ := preprocess_unguarded first settings
      rw [passed] at lost
      have defines : CName.guard other.path ∈ known := by
        by_contra free
        obtain ⟨_, _, seen⟩ := preprocess_unguarded free settings
        rw [seen] at lost
        cases lost
      rw [members] at defines
      rcases defines with before | same | setting
      · exact absurd before unknown
      · exact same.symm
      · exact absurd setting (CName.guard_not_mem_defines _ settings)
  · intro same
    have free (path : Path) : CName.guard path ∉ ([] : List String) := List.not_mem_nil
    obtain ⟨_, _, seen⟩ := preprocess_unguarded (free other.path) settings
    obtain ⟨known, members, passed⟩ := preprocess_unguarded (free code.path) settings
    refine ⟨[], by rw [seen]; simp, ?_⟩
    rw [passed, preprocess_guarded ((members _).mpr (.inr (.inl same.symm)))]

end UnitCode

/-! ### The headers of a program -/

/-- What holds between two turns: the places of all units are marked, and no two units have one
path. -/
structure Worklist.Apart (files : Files) (worklist : Worklist) : Prop where
  done : ∀ unit ∈ worklist.units, ∃ place ∈ worklist.done, files.locate unit.path = .ok place
  paths : worklist.units.Pairwise fun first second => first.path ≠ second.path

theorem Worklist.Apart.turn {files : Files} {worklist next : Worklist}
    (apart : worklist.Apart files) (turn : Turn files worklist next) : next.Apart files := by
  cases turn with
  | pass => exact ⟨apart.done, apart.paths⟩
  | @compile search later done request queue units place content program unit imports located
      unknown found compiled =>
    have asked : files.locate unit.path = .ok place := by
      obtain ⟨_, _, _, _, rfl⟩ := SourceUnit.compile_ok compiled
      exact located
    constructor
    · refine List.forall_mem_append.mpr ⟨?_, List.forall_mem_singleton.mpr ?_⟩
      · intro other member
        obtain ⟨marked, among, known⟩ := apart.done other member
        exact ⟨marked, List.mem_cons_of_mem _ among, known⟩
      · exact ⟨place, List.mem_cons_self, asked⟩
    · refine List.pairwise_append.mpr ⟨apart.paths, List.pairwise_singleton _ _, ?_⟩
      intro other member last among same
      rw [List.mem_singleton.mp among] at same
      obtain ⟨marked, inside, known⟩ := apart.done other member
      rw [same, asked] at known
      exact unknown (Except.ok.inj known ▸ inside)

/-- Every file is compiled once, under one path. -/
theorem compile_distinct {files : Files} {search later : Search} {seeds : List Path}
    {units : List SourceUnit} (compiled : compile files search seeds = (.ok units, later)) :
    units.Pairwise fun first second => first.path ≠ second.path := by
  obtain ⟨last, apart, _, rfl⟩ := compile_keeps (Worklist.Apart files)
    (fun _ _ => ⟨by simp, .nil⟩) (fun _ _ turn apart => apart.turn turn) compiled
  exact apart.paths

/-- A file in a directory, and one beside the directory with an underscore for the slash. -/
def lookalikes : Files where
  entries := [(["a"], .directory), (["a", "b.qd"], .file "fn main() \x7b\x7d".toUTF8.toList none),
    (["a_b.qd"], .file "fn helper() \x7b\x7d".toUTF8.toList none)]
  working := []

theorem compile_lookalikes {first second : SourceUnit} {imports imports' : List Path}
    {later last : Search}
    (read : SourceUnit.compile ⟨⟨"/a/b.qd"⟩, none, [], none⟩ lookalikes ⟨[], []⟩
      "fn main() \x7b\x7d".toUTF8.toList = (.ok (first, imports), later))
    (read' : SourceUnit.compile ⟨⟨"/a_b.qd"⟩, none, [], none⟩ lookalikes later
      "fn helper() \x7b\x7d".toUTF8.toList = (.ok (second, imports'), last))
    (alone : first.requests = []) (alone' : second.requests = []) :
    compile lookalikes ⟨[], []⟩ [⟨"a/b.qd"⟩, ⟨"a_b.qd"⟩] = (.ok [first, second], last) := by
  have seeds : canonicalSeeds lookalikes [⟨"a/b.qd"⟩, ⟨"a_b.qd"⟩] =
      .ok [⟨"/a/b.qd"⟩, ⟨"/a_b.qd"⟩] := by
    simp only [canonicalSeeds, Files.canonical, Files.locate, String.contains_char_eq]
    rfl
  have place : lookalikes.locate ⟨"/a/b.qd"⟩ = .ok ["a", "b.qd"] := by
    simp only [Files.locate, String.contains_char_eq]
    rfl
  have place' : lookalikes.locate ⟨"/a_b.qd"⟩ = .ok ["a_b.qd"] := by
    simp only [Files.locate, String.contains_char_eq]
    rfl
  rw [compile, seeds]
  apply compileQueue_alone place (by simp) rfl read alone
  exact compileQueue_alone place' (by decide) rfl read' alone' (compileQueue_nil _ _ _)

end StackLang
