import StackLang.Proofs.DefinedNames

/-! What makes the globals known that the code of a unit uses. The header declares what the unit
exports, and the source declares what it uses of other units. Another unit is told by its name,
which two units may share: then what one of them uses of the other is declared nowhere. -/
namespace StackLang

open StackLang.Outcome

/-- The line that declares a global tells its kind, and its name once the unit is known. -/
theorem Global.declaration_inj {first second : Global} (owner : first.unit = second.unit)
    (same : first.declaration = second.declaration) : first = second := by
  have letter := congrArg (fun line => line.toList.head?) same
  unfold declaration at same letter
  cases first with
  | function unit name =>
    cases second with
    | constant => simp at letter
    | function =>
      cases owner
      rw [String.append_left_inj, String.append_right_inj, CName.symbol, CName.symbol,
        String.append_right_inj] at same
      rw [same]
  | constant unit name =>
    cases second with
    | function => simp at letter
    | constant =>
      cases owner
      rw [String.append_left_inj, String.append_right_inj, CName.symbol, CName.symbol,
        String.append_right_inj] at same
      rw [same]

namespace UnitCode

/-- The code calls a function or reads a constant: an identifier in its definitions stands for it. -/
def Uses (code : UnitCode) (global : Global) : Prop :=
  ∃ definition ∈ code.definitions, .global global ∈ definition.referents

def exports (code : UnitCode) : List Global := code.definitions.flatMap Definition.exported

def Declares (code : UnitCode) (global : Global) : Prop :=
  global.declaration ∈ code.declarations ∨ global.declaration ∈ code.foreign

variable {code : UnitCode} {global : Global} {line : String}

theorem mem_declarations : line ∈ code.declarations ↔
    ∃ other ∈ code.exports, other.declaration = line :=
  List.mem_map

theorem uses_iff : code.Uses global ↔ global ∈ code.definitions.flatMap Definition.globals := by
  rw [Uses, List.mem_flatMap]
  simp only [Definition.mem_globals]

theorem mem_foreign : line ∈ code.foreign ↔
    ∃ other, code.Uses other ∧ other.unit ≠ code.name ∧ other.declaration = line := by
  simp only [uses_iff]
  simp [foreign, and_assoc]

/-! ### Lines of the two files -/

theorem flat_spaced (lines : List String) : Flat (spaced (lines.map .line)) := by
  intro row member indent
  unfold spaced at member
  grind [Row.indent?]

theorem mem_spaced {lines : List String} (member : line ∈ lines) :
    .line line ∈ spaced (lines.map .line) := by
  unfold spaced
  split
  · next none => simp_all
  · exact List.mem_append_left _ (List.mem_map_of_mem member)

theorem flat_headerRows (settings : RuntimeSettings) : Flat (code.headerRows settings) := by
  have flat := flat_spaced code.declarations
  intro row member indent
  simp only [headerRows, includeRow, defineRows, List.mem_append, List.mem_cons, List.mem_map,
    List.mem_flatMap] at member
  grind [Row.indent?, Flat]

theorem hasLine_header (settings : RuntimeSettings)
    (member : .line line ∈ code.headerRows settings) :
    HasLine (code.files settings).header line := by
  have shown : HasLine (Layout.render (code.headerRows settings ++ [])) line :=
    Layout.hasLine_of_flat (flat_headerRows settings) member
  rwa [List.append_nil] at shown

theorem hasLine_declaration (settings : RuntimeSettings) (declared : line ∈ code.declarations) :
    HasLine (code.files settings).header line := by
  apply hasLine_header
  simp [headerRows, mem_spaced declared]

theorem hasLine_foreign (settings : RuntimeSettings) (declared : line ∈ code.foreign) :
    HasLine (code.files settings).source line := by
  have flat : Flat ([includeRow (CName.header code.name code.path), .blank] ++
      spaced (code.foreign.map .line)) := by
    have heading : Flat [includeRow (CName.header code.name code.path), .blank] := by
      simp [Flat, includeRow, Row.indent?]
    exact List.forall_mem_append.mpr ⟨heading, flat_spaced _⟩
  exact Layout.hasLine_of_flat flat (List.mem_append_right _ (mem_spaced declared))

end UnitCode

section Units

variable {units : List SourceUnit} {table : SymbolTable} {unit : SourceUnit} {code : UnitCode}

theorem unit_of_exports (compiled : unit.Compiled) (made : UnitCode.ofUnit unit table = .ok code)
    {global : Global} (exported : global ∈ code.exports) : global.unit = unit.name := by
  obtain ⟨definition, member, inside⟩ := List.mem_flatMap.mp exported
  have makes := compiled.makes made
  cases definition with
  | verbatim => cases inside
  | constant owner name literal =>
    obtain ⟨statement, _, found⟩ := makes.plain _ member rfl
    rw [List.mem_singleton.mp inside]
    cases action : statement.action <;> rw [action] at found <;> cases found
    rfl
  | function heading parameters steps =>
    have listed : .function heading parameters steps ∈
        code.definitions.filter Definition.isFunction := List.mem_filter.mpr ⟨member, rfl⟩
    obtain ⟨function, _, built⟩ := exists_of_forall₂ makes.functions listed
    obtain ⟨_, _, headed, _, same⟩ := UnitFrame.function_ok built
    cases same
    rw [UnitFrame.heading_ok headed] at inside
    split at inside
    · cases inside
    · rw [List.mem_singleton.mp inside]
      rfl

/-- What the header or the source declares under the C name of a global that the unit uses. -/
theorem declares_iff (compiled : unit.Compiled) (made : UnitCode.ofUnit unit table = .ok code)
    {global : Global} (used : code.Uses global) :
    code.Declares global ↔ global ∈ code.exports ∨ global.unit ≠ unit.name ∨
      ∃ other, code.Uses other ∧ other.unit ≠ unit.name ∧
        other.declaration = global.declaration := by
  obtain ⟨_, _, named, _⟩ := ofUnit_ok made
  unfold UnitCode.Declares
  rw [UnitCode.mem_declarations, UnitCode.mem_foreign, named]
  constructor
  · rintro (⟨other, exported, same⟩ | foreign)
    -- Two globals of one unit are declared alike only if they are the same.
    · by_cases own : global.unit = unit.name
      · have owner := unit_of_exports compiled made exported
        rw [← Global.declaration_inj (owner.trans own.symm) same]
        exact .inl exported
      · exact .inr (.inl own)
    · exact .inr (.inr foreign)
  · rintro (exported | distant | foreign)
    · exact .inl ⟨global, exported, rfl⟩
    · exact .inr ⟨global, used, distant, rfl⟩
    · exact .inr foreign

/-- What a unit uses is exported by the unit that declares it. -/
theorem exporter_of_uses (read : ∀ unit ∈ units, unit.Compiled)
    (analyzed : analyze units = .ok table)
    (codes : ∀ unit ∈ units, ∃ code, UnitCode.ofUnit unit table = .ok code)
    (member : unit ∈ units) (made : UnitCode.ofUnit unit table = .ok code) {global : Global}
    (used : code.Uses global) :
    ∃ owner ∈ units, ∃ ownerCode, UnitCode.ofUnit owner table = .ok ownerCode ∧
      global ∈ ownerCode.exports ∧ global.unit = owner.name := by
  obtain ⟨definition, defined, used⟩ := used
  obtain ⟨_, _, _, _, _, symbol, found, exported, rfl⟩ :=
    ((read unit member).makes made).refers defined used
  have listed := (SymbolTable.mem_of_resolve found).1
  obtain ⟨owner, among, declaration, declared, rfl⟩ := declaration_of_mem analyzed listed
  obtain ⟨ownerCode, ownerMade⟩ := codes owner among
  obtain ⟨definition, inside, exports⟩ :=
    exported_of_declaration (read owner among) ownerMade declared exported
  have shared : (owner.symbolOf declaration).global ∈ ownerCode.exports := by
    apply List.mem_flatMap.mpr
    refine ⟨definition, inside, ?_⟩
    rw [exports]
    exact List.mem_singleton_self _
  have named := unit_of_exports (read owner among) ownerMade shared
  exact ⟨owner, among, ownerCode, ownerMade, shared, named⟩

end Units

/-- The identifiers in the code of a unit are the C names of what it refers to. A function that it calls
or a constant that it reads is exported by a unit of the program, whose name it carries. It is
declared by the header or the source of the user if that unit has another name or is the user itself.
What a unit uses of another one that has its own name is not declared, unless it uses something else
under the very same line, or exports a global of that name itself. -/
theorem uses_are_declared_unless_a_namesake_exports_them {files : Files} {search later : Search}
    {seeds : List Path} {units : List SourceUnit}
    (compiled : compile files search seeds = (.ok units, later)) {table : SymbolTable}
    (analyzed : analyze units = .ok table) {settings : RuntimeSettings}
    (generates : ∀ unit ∈ units, ∃ made, generate settings unit table = .ok made) :
    ∀ unit ∈ units, ∃ code, UnitCode.ofUnit unit table = .ok code ∧
      generate settings unit table = .ok (code.files settings) ∧
      (∀ definition ∈ code.definitions,
        definition.rows.flatMap Row.identifiers = definition.referents.map Referent.identifier) ∧
      (∀ global, code.Uses global →
        (∃ owner ∈ units, ∃ ownerCode, UnitCode.ofUnit owner table = .ok ownerCode ∧
          global ∈ ownerCode.exports ∧ global.unit = owner.name) ∧
        (code.Declares global ↔ global ∈ code.exports ∨ global.unit ≠ unit.name ∨
          ∃ other, code.Uses other ∧ other.unit ≠ unit.name ∧
            other.declaration = global.declaration) ∧
        (code.Declares global → HasLine (code.files settings).header global.declaration ∨
          HasLine (code.files settings).source global.declaration)) ∧
      ((∀ other ∈ units, other.name = unit.name → other = unit) →
        ∀ global, code.Uses global → code.Declares global) := by
  have read := compile_compiled compiled
  have codes : ∀ unit ∈ units, ∃ code, UnitCode.ofUnit unit table = .ok code := by
    intro unit member
    obtain ⟨made, done⟩ := generates unit member
    obtain ⟨code, built, _⟩ := ofUnit_of_generate done
    exact ⟨code, built⟩
  intro unit member
  obtain ⟨code, made⟩ := codes unit member
  have exporter {global : Global} (used : code.Uses global) :=
    exporter_of_uses read analyzed codes member made used
  refine ⟨code, made, by rw [generate, made]; rfl, ?_, ?_, ?_⟩
  · intro definition defined
    exact (definitions_spelled read analyzed member made definition defined).identifiers_eq
      (isWordPart_of_compile compiled)
  · intro global used
    refine ⟨exporter used, declares_iff (read unit member) made used, ?_⟩
    rintro (declared | foreign)
    · exact .inl (UnitCode.hasLine_declaration settings declared)
    · exact .inr (UnitCode.hasLine_foreign settings foreign)
  · intro alone global used
    apply (declares_iff (read unit member) made used).mpr
    obtain ⟨owner, among, ownerCode, ownerMade, exported, named⟩ := exporter used
    by_cases same : owner.name = unit.name
    · have own := alone owner among same
      subst own
      rw [made] at ownerMade
      cases ownerMade
      exact .inl exported
    · rw [named]
      exact .inr (.inl same)

/-- A file that calls a function of a file in a directory of its name. -/
def callerText : List UInt8 := "fn main() \x7b\n\thelper\n\x7d\n".toUTF8.toList

def helperText : List UInt8 := "fn helper() \x7b\n\x7d\n".toUTF8.toList

def namesakes : Files where
  entries := [(["x.qd"], .file callerText none), (["x"], .directory),
    (["x", "module.qd"], .file helperText none)]
  working := []

theorem compile_namesakes {caller helper : SourceUnit} {imports imports' : List Path}
    {later last : Search}
    (read : SourceUnit.compile ⟨⟨"/x.qd"⟩, none, [], none⟩ namesakes ⟨[], []⟩ callerText =
      (.ok (caller, imports), later))
    (read' : SourceUnit.compile ⟨⟨"/x/module.qd"⟩, none, [], none⟩ namesakes later helperText =
      (.ok (helper, imports'), last))
    (alone : caller.requests = []) (alone' : helper.requests = []) :
    compile namesakes ⟨[], []⟩ [⟨"x.qd"⟩, ⟨"x/module.qd"⟩] = (.ok [caller, helper], last) := by
  have seeds : canonicalSeeds namesakes [⟨"x.qd"⟩, ⟨"x/module.qd"⟩] =
      .ok [⟨"/x.qd"⟩, ⟨"/x/module.qd"⟩] := by
    simp only [canonicalSeeds, Files.canonical, Files.locate, String.contains_char_eq]
    rfl
  have place : namesakes.locate ⟨"/x.qd"⟩ = .ok ["x.qd"] := by
    simp only [Files.locate, String.contains_char_eq]
    rfl
  have place' : namesakes.locate ⟨"/x/module.qd"⟩ = .ok ["x", "module.qd"] := by
    simp only [Files.locate, String.contains_char_eq]
    rfl
  simp only [compile, seeds, List.map_cons, List.map_nil]
  apply compileQueue_alone place (by simp) rfl read alone
  exact compileQueue_alone place' (by decide) rfl read' alone' (compileQueue_nil _ _ _)

theorem function_of_a_namesake_is_not_declared :
    ∃ units table later,
      compile namesakes ⟨[], []⟩ [⟨"x.qd"⟩, ⟨"x/module.qd"⟩] = (.ok units, later) ∧
      analyze units = .ok table ∧
      (∀ unit ∈ units, ∃ made, generate {} unit table = .ok made) ∧
      ∃ unit ∈ units, ∃ owner ∈ units, ∃ code ownerCode,
        UnitCode.ofUnit unit table = .ok code ∧ UnitCode.ofUnit owner table = .ok ownerCode ∧
        code.Uses (.function "x" "helper") ∧ .function "x" "helper" ∈ ownerCode.exports ∧
        ¬code.Declares (.function "x" "helper") := by
  have built : (do
      let one := SourceUnit.compile ⟨⟨"/x.qd"⟩, none, [], none⟩ namesakes ⟨[], []⟩ callerText
      let two := SourceUnit.compile ⟨⟨"/x/module.qd"⟩, none, [], none⟩ namesakes one.2 helperText
      let caller ← one.1.toOption
      let helper ← two.1.toOption
      let table ← (analyze [caller.1, helper.1]).toOption
      let code ← (UnitCode.ofUnit caller.1 table).toOption
      let code' ← (UnitCode.ofUnit helper.1 table).toOption
      return ((caller.1.requests, helper.1.requests, caller.1.name),
        code.definitions.flatMap Definition.globals, code.exports, code'.exports)) =
      some (([], [], "x"), [.function "x" "helper"], [], [.function "x" "helper"]) := by
    decide +kernel
  obtain ⟨⟨caller, imports⟩, read, built⟩ := Option.bind_eq_some_iff.mp built
  obtain ⟨⟨helper, imports'⟩, read', built⟩ := Option.bind_eq_some_iff.mp built
  obtain ⟨table, analyzed, built⟩ := Option.bind_eq_some_iff.mp built
  obtain ⟨code, made, built⟩ := Option.bind_eq_some_iff.mp built
  obtain ⟨code', made', built⟩ := Option.bind_eq_some_iff.mp built
  simp only [Option.pure_def, Option.some.injEq, Prod.mk.injEq] at built
  obtain ⟨⟨alone, alone', named⟩, uses, exports, exports'⟩ := built
  have analyzed := eq_ok_of_toOption analyzed
  have made := eq_ok_of_toOption made
  have made' := eq_ok_of_toOption made'
  have compiled := compile_namesakes (Prod.ext (eq_ok_of_toOption read) rfl)
    (Prod.ext (eq_ok_of_toOption read') rfl) alone alone'
  have generates : ∀ unit ∈ [caller, helper], ∃ made, generate {} unit table = .ok made := by
    simp only [List.forall_mem_cons, generate]
    rw [made, made']
    exact ⟨⟨_, rfl⟩, ⟨_, rfl⟩, by simp⟩
  obtain ⟨same, remade, _, _, declared, _⟩ := uses_are_declared_unless_a_namesake_exports_them compiled
    analyzed generates caller List.mem_cons_self
  rw [made] at remade
  cases remade
  have used : code.Uses (.function "x" "helper") := by
    rw [UnitCode.uses_iff, uses]
    exact List.mem_cons_self
  have undeclared := (declared _ used).2.1.not.mpr (by
    simp only [UnitCode.uses_iff, uses, exports, named]
    decide)
  exact ⟨_, table, _, compiled, analyzed, generates, caller, List.mem_cons_self, helper,
    List.mem_cons_of_mem _ List.mem_cons_self, code, code', made, made', used,
    by rw [exports']; exact List.mem_cons_self, undeclared⟩

end StackLang
