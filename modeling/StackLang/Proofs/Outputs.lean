import Mathlib.Data.List.Nodup
import StackLang.Proofs.Discovery
import StackLang.Proofs.Writing

/-! The files of a build. Their names are distinct exactly if no two units share theirs, and then
the C compiler is started on files that hold what was generated, each listed once. Units are told
apart by their places and files by their names only, so two units can share a name. -/
namespace StackLang

open StackLang.Outcome

def filesOf (stem : String) : List String := [stem ++ ".h", stem ++ ".c"]

theorem header_ne_source (first second : String) : first ++ ".h" ≠ second ++ ".c" := by
  intro same
  have ends := congrArg (fun name => name.toList.getLast?) same
  simp at ends

theorem disjoint_filesOf {first second : String} :
    (filesOf first).Disjoint (filesOf second) ↔ first ≠ second := by
  constructor
  · rintro apart rfl
    exact apart List.mem_cons_self List.mem_cons_self
  · intro different
    simp [filesOf, header_ne_source, (header_ne_source _ _).symm, different.symm]

theorem nodup_filesOf {stems : List String} : (stems.flatMap filesOf).Nodup ↔ stems.Nodup := by
  rw [List.nodup_flatMap]
  constructor
  · rintro ⟨_, apart⟩
    exact apart.imp disjoint_filesOf.mp
  · intro apart
    refine ⟨fun stem _ => ?_, apart.imp disjoint_filesOf.mpr⟩
    simp [filesOf]

variable {settings : RuntimeSettings} {table : SymbolTable} {units : List SourceUnit}
  {made : List GeneratedUnit}

theorem generate_names {unit : SourceUnit} {files : GeneratedUnit}
    (generated : generate settings unit table = .ok files) :
    files.headerName = CName.header unit.name unit.path ∧
      files.sourceName = CName.source unit.name unit.path := by
  obtain ⟨code, lowered, made⟩ := bind_ok generated
  cases made
  unfold UnitCode.ofUnit at lowered
  split at lowered
  · cases lowered
  · obtain ⟨definitions, _, built⟩ := bind_ok lowered
    cases built
    exact ⟨rfl, rfl⟩

/-- What is generated is named after the files it is generated from. -/
theorem generateAll_names (named : ∀ unit ∈ units, unit.name = moduleName unit.path)
    (generated : generateAll settings units table = .ok made) :
    made.map (fun files => (files.headerName, files.sourceName)) =
      units.map fun unit => (outputStem unit.path ++ ".h", outputStem unit.path ++ ".c") := by
  unfold generateAll at generated
  induction units generalizing made with
  | nil => cases generated; rfl
  | cons unit units ih =>
    rw [List.mapM_cons] at generated
    obtain ⟨files, first, generated⟩ := bind_ok generated
    obtain ⟨others, rest, generated⟩ := bind_ok generated
    cases generated
    obtain ⟨unitNamed, othersNamed⟩ := List.forall_mem_cons.mp named
    have produced : generate settings unit table = .ok files := by
      split at first <;> cases first
      assumption
    obtain ⟨header, source⟩ := generate_names produced
    rw [List.map_cons, List.map_cons, ih othersNamed rest, header, source, unitNamed]
    rfl

def stemsOf (units : List SourceUnit) : List String :=
  "qd_base" :: units.map fun unit => outputStem unit.path

theorem slashless_of_mem_stemsOf {stem : String} (member : stem ∈ stemsOf units) :
    '/' ∉ stem.toList := by
  rcases List.mem_cons.mp member with rfl | among
  · decide
  · obtain ⟨unit, _, rfl⟩ := List.mem_map.mp among
    exact not_mem_outputStem unit.path

theorem nodup_stemsOf :
    (stemsOf units).Nodup ↔
      units.Pairwise fun first second => ¬SharesNames first.path second.path := by
  have free : "qd_base" ∉ units.map fun unit => outputStem unit.path := by
    intro member
    obtain ⟨unit, _, same⟩ := List.mem_map.mp member
    exact outputStem_ne_support unit.path same
  rw [stemsOf, List.nodup_cons, List.Nodup, List.pairwise_map]
  simp only [free, not_false_eq_true, true_and, ne_eq, outputStem_eq_iff]

theorem outputFiles_names (named : ∀ unit ∈ units, unit.name = moduleName unit.path)
    (generated : generateAll settings units table = .ok made) :
    (outputFiles made).map Prod.fst = (stemsOf units).flatMap filesOf := by
  have names := congrArg (List.flatMap fun pair => [pair.1, pair.2])
    (generateAll_names named generated)
  rw [List.flatMap_map, List.flatMap_map] at names
  have support : filesOf "qd_base" = [supportHeaderName, supportSourceName] := by decide
  rw [outputFiles, List.map_append, List.map_flatMap, stemsOf, List.flatMap_cons, List.flatMap_map,
    support]
  exact congrArg ([supportHeaderName, supportSourceName] ++ ·) names

theorem sourcePaths_stems (named : ∀ unit ∈ units, unit.name = moduleName unit.path)
    (generated : generateAll settings units table = .ok made) (directory : Path) :
    sourcePaths directory (made.map (·.sourceName)) =
      (stemsOf units).map fun stem => directory.join (stem ++ ".c") := by
  have names := congrArg (List.map Prod.snd) (generateAll_names named generated)
  rw [List.map_map, List.map_map] at names
  have sources : made.map (·.sourceName) = units.map fun unit => outputStem unit.path ++ ".c" :=
    names
  rw [sourcePaths, sources, stemsOf, List.map_cons, List.map_cons, List.map_map, List.map_map]
  rfl

theorem nodup_sourcePaths (directory : Path) :
    ((stemsOf units).map fun stem => directory.join (stem ++ ".c")).Nodup ↔
      (stemsOf units).Nodup := by
  constructor
  · exact List.Nodup.of_map _
  · refine List.Nodup.map_on ?_
    intro first among second among' same
    have slashless := slashless_of_mem_stemsOf among
    have slashless' := slashless_of_mem_stemsOf among'
    have names := Path.join_inj (by simp [slashless]) (by simp [slashless']) same
    simpa using names

/-- A build starts the C compiler on these files with these sources, whatever it then does. -/
def Starts (settings : Settings) (made : List GeneratedUnit) (before written : Files)
    (sources : List Path) : Prop :=
  ∃ warnings, ∀ shell, emit shell settings made before =
    let output := settings.compiler.output
    let (linked, after) := link shell settings written settings.compiler.outputDirectory sources
      output
    (linked.map fun _ => output, warnings, after)

/-- A build that does not start the C compiler ends as it would with any other. -/
theorem emit_cases (settings : Settings) (made : List GeneratedUnit) (before : Files) :
    (∃ outcome, ∀ shell, emit shell settings made before = outcome) ∨
      ∃ ready written, writeFiles settings.compiler.outputDirectory (outputFiles made) ready =
          (.ok (), written) ∧
        Starts settings made before written
          (sourcePaths settings.compiler.outputDirectory (made.map (·.sourceName))) := by
  cases opened : before.makeDirectories settings.compiler.outputDirectory with
  | mk result ready =>
  cases result with
  | error error =>
    refine .inl ⟨(.error (.io settings.compiler.outputDirectory (.system error)), [], ready),
      fun shell => ?_⟩
    simp only [emit, opened]
  | ok =>
  cases filled : writeFiles settings.compiler.outputDirectory (outputFiles made) ready with
  | mk result written =>
  cases result with
  | error error =>
    refine .inl ⟨(.error error, [], written), fun shell => ?_⟩
    simp only [emit, opened, filled]
  | ok =>
  cases searched : staleSources written settings.compiler.outputDirectory
      (sourcePaths settings.compiler.outputDirectory (made.map (·.sourceName))) with
  | error error =>
    refine .inl ⟨(.error error, [], written), fun shell => ?_⟩
    simp only [emit, opened, filled, searched]
  | ok stale =>
    refine .inr ⟨ready, written, filled, stale.map .leftOver, fun shell => ?_⟩
    simp only [emit, opened, filled, searched]

theorem slashless_outputFiles (named : ∀ unit ∈ units, unit.name = moduleName unit.path)
    (generated : generateAll settings units table = .ok made) :
    ∀ output ∈ outputFiles made, '/' ∉ output.1.toList := by
  intro output member
  have among : output.1 ∈ (stemsOf units).flatMap filesOf := by
    rw [← outputFiles_names named generated]
    exact List.mem_map_of_mem member
  obtain ⟨stem, known, chosen⟩ := List.mem_flatMap.mp among
  have plain := slashless_of_mem_stemsOf known
  rcases List.mem_pair.mp chosen with same | same <;> simp [same, plain]

theorem mem_outputFiles {unit : GeneratedUnit} (member : unit ∈ made) :
    (unit.headerName, unit.header) ∈ outputFiles made ∧
      (unit.sourceName, unit.source) ∈ outputFiles made := by
  have own (output : String × String)
      (among : output ∈ [(unit.headerName, unit.header), (unit.sourceName, unit.source)]) :
      output ∈ outputFiles made :=
    List.mem_append_right _ (List.mem_flatMap.mpr ⟨unit, member, among⟩)
  exact ⟨own _ (by simp), own _ (by simp)⟩

/-- Files of distinct names can be read as they were generated. -/
theorem read_outputFiles {directory : Path} {ready written : Files}
    (slashless : ∀ output ∈ outputFiles made, '/' ∉ output.1.toList)
    (distinct : ((outputFiles made).map Prod.fst).Nodup)
    (filled : writeFiles directory (outputFiles made) ready = (.ok (), written))
    {name content : String} (member : (name, content) ∈ outputFiles made) :
    written.read (directory.join name) = .ok (Text.Utf8.encode content.toList) := by
  obtain ⟨front, back, whole⟩ := List.append_of_mem member
  rw [whole] at slashless filled distinct
  rw [List.map_append, List.map_cons] at distinct
  have absent := (List.nodup_cons.mp (List.nodup_append.mp distinct).2.1).1
  exact read_writeFiles slashless absent filled

def NamedApart (units : List SourceUnit) : Prop :=
  units.Pairwise fun first second => ¬SharesNames first.path second.path

/-- The generated files of a compiled program have different names, and no source is handed to the C
compiler twice, exactly if no two units share their names. Then every file has its own content when
the C compiler is started. -/
theorem outputs_are_distinct_iff_units_are_named_apart {settings : Settings} {files : Files}
    {search later : Search} {seeds : List Path}
    (compiled : compile files search seeds = (.ok units, later))
    (generated : generateAll settings.runtime units table = .ok made) :
    (((outputFiles made).map Prod.fst).Nodup ↔ NamedApart units) ∧
      ∀ before, (∃ outcome, ∀ shell, emit shell settings made before = outcome) ∨
        ∃ written sources, Starts settings made before written sources ∧
          (sources.Nodup ↔ NamedApart units) ∧
          (NamedApart units → ∀ unit ∈ made,
            written.read (settings.compiler.outputDirectory.join unit.headerName) =
                .ok (Text.Utf8.encode unit.header.toList) ∧
              written.read (settings.compiler.outputDirectory.join unit.sourceName) =
                .ok (Text.Utf8.encode unit.source.toList)) := by
  have named := compile_named compiled
  have distinct : ((outputFiles made).map Prod.fst).Nodup ↔ NamedApart units := by
    rw [outputFiles_names named generated, nodup_filesOf, nodup_stemsOf, NamedApart]
  refine ⟨distinct, fun before => ?_⟩
  rcases emit_cases settings made before with constant | ⟨ready, written, filled, starts⟩
  · exact .inl constant
  · refine .inr ⟨written, _, starts, ?_, ?_⟩
    · rw [sourcePaths_stems named generated, nodup_sourcePaths, nodup_stemsOf, NamedApart]
    · intro apart unit member
      have slashless := slashless_outputFiles named generated
      have read {name content : String} (among : (name, content) ∈ outputFiles made) :=
        read_outputFiles slashless (distinct.mpr apart) filled among
      obtain ⟨header, source⟩ := mem_outputFiles member
      exact ⟨read header, read source⟩

/-- Two files of one name in two directories. -/
def twins : Files where
  entries := [(["a"], .directory), (["a", "x.qd"], .file "fn main() \x7b\x7d".toUTF8.toList none),
    (["b"], .directory), (["b", "x.qd"], .file "fn helper() \x7b\x7d".toUTF8.toList none)]
  working := []

def twinUnit (path text : String) (search : Search) :
    Except SyntaxError (SourceUnit × List Path) × Search :=
  SourceUnit.compile ⟨⟨path⟩, none, [], none⟩ twins search text.toUTF8.toList

theorem compile_twins {first second : SourceUnit} {imports imports' : List Path}
    {later last : Search}
    (read : twinUnit "/a/x.qd" "fn main() \x7b\x7d" ⟨[], []⟩ = (.ok (first, imports), later))
    (read' : twinUnit "/b/x.qd" "fn helper() \x7b\x7d" later = (.ok (second, imports'), last))
    (alone : (first.tree.map SourceTree.imports).getD [] = [])
    (alone' : (second.tree.map SourceTree.imports).getD [] = []) :
    compile twins ⟨[], []⟩ [⟨"a/x.qd"⟩, ⟨"b/x.qd"⟩] = (.ok [first, second], last) := by
  have seeds : canonicalSeeds twins [⟨"a/x.qd"⟩, ⟨"b/x.qd"⟩] =
      .ok [⟨"/a/x.qd"⟩, ⟨"/b/x.qd"⟩] := by
    simp only [canonicalSeeds, Files.canonical, Files.locate, String.contains_char_eq]
    decide
  have place : twins.locate ⟨"/a/x.qd"⟩ = .ok ["a", "x.qd"] := by
    simp only [Files.locate, String.contains_char_eq]
    rfl
  have place' : twins.locate ⟨"/b/x.qd"⟩ = .ok ["b", "x.qd"] := by
    simp only [Files.locate, String.contains_char_eq]
    rfl
  unfold twinUnit at read read'
  rw [compile, seeds]
  apply compileQueue_alone place (by simp) rfl read (by simp [SourceUnit.requests, alone])
  exact compileQueue_alone place' (by decide) rfl read' (by simp [SourceUnit.requests, alone'])
    (compileQueue_nil _ _ _)

theorem files_of_one_name_share_their_outputs :
    ∃ units table made later,
      compile twins ⟨[], []⟩ [⟨"a/x.qd"⟩, ⟨"b/x.qd"⟩] = (.ok units, later) ∧
      analyze units = .ok table ∧
      generateAll ({} : Settings).runtime units table = .ok made ∧
      ¬((outputFiles made).map Prod.fst).Nodup ∧
      ∀ before, (∃ outcome, ∀ shell, emit shell {} made before = outcome) ∨
        ∃ written sources, Starts {} made before written sources ∧ ¬sources.Nodup := by
  have built : (do
      let one := twinUnit "/a/x.qd" "fn main() \x7b\x7d" ⟨[], []⟩
      let two := twinUnit "/b/x.qd" "fn helper() \x7b\x7d" one.2
      let first ← one.1.toOption
      let second ← two.1.toOption
      let table ← (analyze [first.1, second.1]).toOption
      let made ← (generateAll ({} : Settings).runtime [first.1, second.1] table).toOption
      return ([first.1, second.1].map fun unit =>
        (unit.path, (unit.tree.map SourceTree.imports).getD []))) =
      some [(⟨"/a/x.qd"⟩, []), (⟨"/b/x.qd"⟩, [])] := by decide +kernel
  obtain ⟨⟨first, imports⟩, read, built⟩ := Option.bind_eq_some_iff.mp built
  obtain ⟨⟨second, imports'⟩, read', built⟩ := Option.bind_eq_some_iff.mp built
  obtain ⟨table, analyzed, built⟩ := Option.bind_eq_some_iff.mp built
  obtain ⟨made, generated, built⟩ := Option.bind_eq_some_iff.mp built
  simp only [List.map_cons, List.map_nil, Option.pure_def, Option.some.injEq, List.cons.injEq,
    Prod.mk.injEq, and_true] at built
  obtain ⟨⟨path, alone⟩, path', alone'⟩ := built
  have compiled := compile_twins (Prod.ext (eq_ok_of_toOption read) rfl)
    (Prod.ext (eq_ok_of_toOption read') rfl) alone alone'
  obtain ⟨names, starts⟩ := outputs_are_distinct_iff_units_are_named_apart
    compiled (eq_ok_of_toOption generated)
  have shared : ¬NamedApart [first, second] := by
    have same : SharesNames first.path second.path := by
      rw [path, path']
      exact .inl (by decide +kernel)
    intro apart
    exact List.rel_of_pairwise_cons apart List.mem_cons_self same
  refine ⟨_, table, made, _, compiled, eq_ok_of_toOption analyzed, eq_ok_of_toOption generated,
    names.not.mpr shared, fun before => ?_⟩
  rcases starts before with constant | ⟨written, sources, started, once, _⟩
  · exact .inl constant
  · exact .inr ⟨written, sources, started, once.not.mpr shared⟩

end StackLang
