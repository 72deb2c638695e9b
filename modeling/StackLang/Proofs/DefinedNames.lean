import StackLang.Proofs.ImportClosure
import StackLang.Proofs.Referents
import StackLang.Proofs.SourceLines

/-! What the code of a program uses, the code of the program defines. A use takes the C name from a
symbol of the table, a definition takes it from the unit and the tree, and whether a function is
the entry point is decided by a third rule; in a program that is compiled, analysed and generated
the three agree. -/
namespace StackLang

open StackLang.Outcome

/-! ### Compiled units -/

theorem compile_compiled {files : Files} {search later : Search} {seeds : List Path}
    {units : List SourceUnit} (compiled : compile files search seeds = (.ok units, later)) :
    ∀ unit ∈ units, unit.Compiled := by
  have turn (before after : Worklist) (turn : Turn files before after)
      (read : ∀ unit ∈ before.units, unit.Compiled) : ∀ unit ∈ after.units, unit.Compiled := by
    cases turn with
    | pass => exact read
    | compile _ _ _ first =>
      refine List.forall_mem_append.mpr ⟨read, List.forall_mem_singleton.mpr ?_⟩
      exact ⟨_, _, _, _, _, _, first⟩
  obtain ⟨last, read, _, rfl⟩ := compile_keeps (fun worklist => ∀ unit ∈ worklist.units,
    unit.Compiled) (fun _ _ => by simp) turn compiled
  exact read

/-- The names of units that are compiled together are made of characters that a word has. -/
theorem isWordPart_of_compile {files : Files} {search later : Search} {seeds : List Path}
    {units : List SourceUnit} (compiled : compile files search seeds = (.ok units, later)) :
    ∀ name ∈ units.map SourceUnit.name, ∀ c ∈ name.toList, Lexeme.isWordPart c = true := by
  intro name listed c member
  obtain ⟨unit, among, rfl⟩ := List.mem_map.mp listed
  rw [compile_named compiled unit among] at member
  exact isWordPart_of_mem_moduleName member

/-! ### Uses -/

def Symbol.global (symbol : Symbol) : Global :=
  if symbol.kind = .function then .function symbol.unit symbol.baseName
  else .constant symbol.unit symbol.baseName

/-- A global stands for an exported symbol that one of some names means. -/
def Frame.Refers (frame : Frame) (mentions : List Mention) (global : Global) : Prop :=
  ∃ mention ∈ mentions, ∃ symbol, frame.lookup mention.module mention.name = some symbol ∧
    symbol.IsExported ∧ global = symbol.global

namespace Frame

variable {frame : Frame} {depth inner : Nat} {action : Action} {code : Step} {global : Global}

theorem Yields.refers {expression : Expression} (yields : frame.Yields depth action expression)
    (used : .global global ∈ expression.referents) : frame.Refers action.mentions global := by
  cases yields with
  | constant named found kind =>
    refine ⟨_, named, _, found, .inr kind, ?_⟩
    cases List.mem_singleton.mp used
    rw [Symbol.global, kind]
    rfl
  | _ => simp [Expression.referents] at used

theorem Lowers.refers (lowers : frame.Lowers depth action code inner)
    (used : .global global ∈ code.referents) : frame.Refers action.mentions global := by
  rcases (Step.mem_referents (by simp)).mp used with named | ⟨expression, among, inside⟩
  · cases lowers with
    | call called _ =>
      cases called with
      | function mentioned found kind other =>
        cases named
        refine ⟨_, mentioned, _, found, .inl ⟨kind, other⟩, ?_⟩
        rw [Symbol.global, if_pos kind]
      | primitive | value => cases named
    | _ => cases named
  · exact (lowers.yields expression among).refers inside

end Frame

/-- What the code of a unit uses is meant by a name in one of its functions. -/
theorem UnitFrame.Makes.refers {frame : UnitFrame} {statements : List Statement}
    {definitions : List Definition} (makes : frame.Makes statements definitions)
    {definition : Definition} (member : definition ∈ definitions) {global : Global}
    (used : .global global ∈ definition.referents) :
    ∃ function ∈ functionsOf statements, ∃ entry,
      (frame.within function.name entry).Refers function.mentions global := by
  cases definition with
  | constant => simp [Definition.referents] at used
  | verbatim => cases used
  | function heading parameters steps =>
    have listed : .function heading parameters steps ∈ definitions.filter Definition.isFunction :=
      List.mem_filter.mpr ⟨member, rfl⟩
    obtain ⟨function, inside, built⟩ := exists_of_forall₂ makes.functions listed
    obtain ⟨_, _, _, stepped, same⟩ := UnitFrame.function_ok built
    cases same
    rcases Definition.referents_cases (by simp) used with ⟨_, _, _, other⟩ | ⟨_, _, other⟩ |
      ⟨step, among, used⟩
    · cases other
    · cases other
    · obtain ⟨statement, written, around, inner, lowers⟩ :=
        exists_of_forall₂ (Frame.lowers_of_steps stepped) among
      obtain ⟨mention, named, symbol, found, exported, same⟩ := lowers.refers used
      refine ⟨function, inside, _, mention, ?_, symbol, found, exported, same⟩
      exact List.mem_flatMap.mpr ⟨statement, written, named⟩

/-! ### Definitions -/

def Global.DefinedIn (source : String) : Global → Prop
  | .function unit name => HasLine source ("void " ++ CName.symbol unit name ++ "(int argc, ...) \x7b")
  | .constant unit name => ∃ literal : String, HasLine source
      ("const " ++ CName.real ++ " " ++ CName.symbol unit name ++ " = " ++ literal ++ ";")

theorem qualify_ne_entryPoint (owner name : String) : qualify (some owner) name ≠ entryPoint := by
  intro same
  have colon : ':' ∈ (qualify (some owner) name).toList := by simp [qualify]
  rw [same] at colon
  exact absurd colon (by decide)

/-- A function is the entry point exactly if the table has it under the name of the entry point. -/
theorem UnitFrame.heading_ok {frame : UnitFrame} {name : String} {parameters : List String}
    {heading : Heading} (done : frame.heading name parameters = .ok heading) :
    heading = if qualify frame.module name = entryPoint then .entry else .named frame.unit name := by
  unfold UnitFrame.heading at done
  cases module : frame.module with
  | none =>
    rw [module] at done
    by_cases named : name = entryPoint
    · simp only [named, Option.isNone_none, beq_self_eq_true, Bool.and_self, if_true] at done
      split at done <;> cases done
      simp [qualify, named]
    · simp only [named, Option.isNone_none, Bool.true_and, beq_iff_eq, if_false] at done
      cases done
      simp [qualify, named]
  | some owner =>
    rw [module] at done
    cases done
    rw [if_neg (qualify_ne_entryPoint owner name)]

section Units

variable {units : List SourceUnit} {table : SymbolTable} {owner : SourceUnit} {code : UnitCode}

theorem definition_of_function (compiled : owner.Compiled)
    (made : UnitCode.ofUnit owner table = .ok code) {function : Function}
    (member : function ∈ owner.functions) :
    ∃ steps, .function
      (if globalName (owner, function) = entryPoint then .entry
        else .named owner.name function.name) function.parameters steps ∈ code.definitions := by
  obtain ⟨definition, listed, built⟩ :=
    exists_of_forall₂ (compiled.makes made).functions.flip member
  obtain ⟨heading, steps, headed, _, rfl⟩ := UnitFrame.function_ok built
  have named := UnitFrame.heading_ok headed
  subst named
  exact ⟨steps, (List.mem_filter.mp listed).1⟩

theorem Symbol.IsExported.isScoped_eq_false {symbol : Symbol} (exported : symbol.IsExported) :
    symbol.kind.isScoped = false := by
  rcases exported with ⟨kind, _⟩ | kind <;> rw [kind] <;> rfl

/-- An exported symbol is defined in the code of the unit that declares it. -/
theorem exported_of_declaration (compiled : owner.Compiled)
    (made : UnitCode.ofUnit owner table = .ok code) {declaration : Declaration}
    (declared : declaration ∈ owner.declarations)
    (exported : (owner.symbolOf declaration).IsExported) :
    ∃ definition ∈ code.definitions,
      definition.exported = [(owner.symbolOf declaration).global] := by
  obtain ⟨listed, named⟩ := compiled.binding_mem declared
  have unscoped := ((sited_of_mem_declarations declared).exported exported.isScoped_eq_false).1
  rcases compiled.binding_cases listed with ⟨function, member, inside⟩ |
    ⟨statement, member, name, literal, constant, same⟩
  · rcases Function.binding_cases inside with same | ⟨_, scope, _⟩
    · have kind : (owner.symbolOf declaration).kind = .function := congrArg Binding.kind same
      have spelled : (owner.symbolOf declaration).name = globalName (owner, function) :=
        congrArg Binding.name same
      rw [congrArg Binding.word same] at named
      have base : (owner.symbolOf declaration).baseName = function.name :=
        Symbol.baseName_eq spelled named
      have other : globalName (owner, function) ≠ entryPoint := by
        rw [← spelled]
        rcases exported with ⟨_, other⟩ | constant
        · exact other
        · rw [kind] at constant
          cases constant
      obtain ⟨steps, defined⟩ := definition_of_function compiled made member
      rw [if_neg other] at defined
      refine ⟨_, defined, ?_⟩
      rw [Symbol.global, if_pos kind, base]
      rfl
    · have inner : declaration.scope = some (qualify owner.importName function.name) := scope
      rw [unscoped] at inner
      cases inner
  · have kind : (owner.symbolOf declaration).kind = .constant := congrArg Binding.kind same
    have spelled : (owner.symbolOf declaration).name = qualify owner.importName name :=
      congrArg Binding.name same
    rw [congrArg Binding.word same] at named
    have base : (owner.symbolOf declaration).baseName = name := Symbol.baseName_eq spelled named
    refine ⟨_, (compiled.makes made).constants statement member name literal constant, ?_⟩
    rw [Symbol.global, base, kind]
    rfl

theorem definedIn_of_declaration (settings : RuntimeSettings) (compiled : owner.Compiled)
    (made : UnitCode.ofUnit owner table = .ok code) {declaration : Declaration}
    (declared : declaration ∈ owner.declarations)
    (exported : (owner.symbolOf declaration).IsExported) :
    (owner.symbolOf declaration).global.DefinedIn (code.files settings).source := by
  have level := (compiled.makes made).level
  obtain ⟨definition, member, exports⟩ := exported_of_declaration compiled made declared exported
  -- A definition that exports something has its first line outside of all bodies.
  cases definition with
  | verbatim => cases exports
  | constant unit name literal =>
    rw [← List.singleton_inj.mp exports]
    exact ⟨literal, code.hasLine_source settings level member rfl (.inl rfl)⟩
  | function heading parameters steps =>
    cases heading with
    | entry => cases exports
    | named unit name =>
      rw [← List.singleton_inj.mp exports]
      exact code.hasLine_source settings level member rfl (.inr rfl)

end Units

/-! ### The entry point -/

theorem count_entry_of_inner {rows : List Row} (inner : ∀ row ∈ rows, row.Inner) :
    rows.count (.opening entryLine) = 0 := by
  apply List.count_eq_zero_of_not_mem
  intro member
  exact inner _ member rfl

theorem count_entry_steps (steps : List Step) :
    (steps.flatMap Step.rows).count (.opening entryLine) = 0 := by
  apply List.count_eq_zero_of_not_mem
  intro member
  obtain ⟨step, _, inside⟩ := List.mem_flatMap.mp member
  cases labelled : step.label? with
  | none => exact step.inner labelled _ inside rfl
  | some name =>
    cases step <;> cases labelled
    cases List.mem_singleton.mp inside

theorem count_entry_function (heading : Heading) (parameters : List String) (steps : List Step) :
    (Definition.function heading parameters steps).rows.count (.opening entryLine) =
      if heading = .entry then 1 else 0 := by
  simp only [Definition.rows, List.count_append]
  rw [count_entry_of_inner (inner_declareSlots _),
    count_entry_of_inner (inner_popParameters parameters), count_entry_steps,
    count_entry_of_inner heading.inner_endRows]
  cases heading with
  | entry => rfl
  | named unit name =>
    rw [count_entry_of_inner (Heading.inner_named unit name)]
    rfl

theorem count_entry_functions (definitions : List Definition) :
    (definitions.flatMap Definition.rows).count (.opening entryLine) =
      ((definitions.filter Definition.isFunction).flatMap Definition.rows).count
        (.opening entryLine) := by
  induction definitions with
  | nil => rfl
  | cons definition definitions ih =>
    rw [List.flatMap_cons, List.count_append, ih]
    cases definition with
    | function heading parameters steps =>
      rw [List.filter_cons_of_pos rfl, List.flatMap_cons, List.count_append]
    | constant unit name literal =>
      rw [List.filter_cons_of_neg (by simp [Definition.isFunction]),
        count_entry_of_inner (by simp [Definition.rows, Row.Inner]), Nat.zero_add]
    | verbatim code =>
      rw [List.filter_cons_of_neg (by simp [Definition.isFunction]),
        count_entry_of_inner (by simp [Definition.rows, Row.Inner]), Nat.zero_add]

theorem UnitFrame.count_entry {frame : UnitFrame} {functions : List Function}
    {definitions : List Definition}
    (all : List.Forall₂ (fun function definition =>
      frame.function function.name function.parameters function.statements = .ok definition)
      functions definitions) :
    (definitions.flatMap Definition.rows).count (.opening entryLine) =
      (functions.map fun function => qualify frame.module function.name).count entryPoint := by
  induction all with
  | nil => rfl
  | cons first _ ih =>
    obtain ⟨heading, steps, headed, _, rfl⟩ := function_ok first
    rw [List.flatMap_cons, List.count_append, count_entry_function, heading_ok headed,
      List.map_cons, List.count_cons, ih, Nat.add_comm]
    split <;> simp_all

theorem count_entry_sourceRows (code : UnitCode) :
    code.sourceRows.count (.opening entryLine) =
      (code.definitions.flatMap Definition.rows).count (.opening entryLine) := by
  have front : .opening entryLine ∉ [includeRow (CName.header code.name code.path), .blank] ++
      spaced (code.foreign.map .line) := by
    unfold spaced
    split <;> simp [includeRow]
  rw [UnitCode.sourceRows, List.count_append, List.count_eq_zero_of_not_mem front, Nat.zero_add]

/-- The source of a unit opens an entry point for every function that the table has as one. -/
theorem count_entry_source {unit : SourceUnit} (compiled : unit.Compiled) {table : SymbolTable}
    {code : UnitCode} (made : UnitCode.ofUnit unit table = .ok code) :
    code.sourceRows.count (.opening entryLine) =
      (unit.functions.map fun function => globalName (unit, function)).count entryPoint := by
  rw [count_entry_sourceRows, count_entry_functions]
  exact UnitFrame.count_entry (compiled.makes made).functions

/-- Where the code of a definition opens the entry point, and nowhere else, it applies its name. -/
theorem count_main_rows {units : List String} {definition : Definition}
    (spelled : definition.Spelled units)
    (plain : ∀ unit ∈ units, ∀ c ∈ unit.toList, Lexeme.isWordPart c = true) :
    (definition.rows.flatMap Row.identifiers).count ⟨"main", true⟩ =
      definition.rows.count (.opening entryLine) := by
  rw [spelled.identifiers_eq plain, count_main_identifiers, definition.count_main]
  cases definition with
  | function heading parameters steps =>
    rw [count_entry_function]
    cases heading <;> rfl
  | constant | verbatim =>
    rw [count_entry_of_inner (by simp [Definition.rows, Row.Inner])]

/-- How often the code of a unit applies the name of the entry point. -/
def UnitCode.mainCount (code : UnitCode) : Nat :=
  ((code.definitions.flatMap Definition.rows).flatMap Row.identifiers).count ⟨"main", true⟩

theorem mainCount_eq {units : List String} {code : UnitCode}
    (spelled : ∀ definition ∈ code.definitions, definition.Spelled units)
    (plain : ∀ unit ∈ units, ∀ c ∈ unit.toList, Lexeme.isWordPart c = true) :
    code.mainCount = code.sourceRows.count (.opening entryLine) := by
  rw [count_entry_sourceRows, UnitCode.mainCount, List.flatMap_assoc, List.count_flatMap,
    List.count_flatMap]
  congr 1
  exact List.map_congr_left fun definition member =>
    count_main_rows (spelled definition member) plain

theorem hasEntryPoint_of_analyze {units : List SourceUnit} {table : SymbolTable}
    (analyzed : analyze units = .ok table) : table.hasEntryPoint = true := by
  obtain ⟨declared, _, done⟩ := bind_ok analyzed
  dsimp only at done
  split at done
  · cases done
  · next present =>
    obtain ⟨_, _, done⟩ := bind_ok done
    cases done
    simpa using present

theorem entryPoint_mem {units : List SourceUnit} (compiled : ∀ unit ∈ units, unit.Compiled)
    {table : SymbolTable} (analyzed : analyze units = .ok table) :
    entryPoint ∈ (functionsIn units).map globalName := by
  obtain ⟨symbol, found, kind⟩ := Option.any_eq_true _ _ |>.mp (hasEntryPoint_of_analyze analyzed)
  have kind : symbol.kind = .function := of_decide_eq_true kind
  obtain ⟨listed, key⟩ := SymbolTable.mem_of_find? found
  obtain ⟨owner, member, binding, declared, _, sameKind, sameKey, _⟩ :=
    origin_of_mem compiled analyzed listed
  have name : binding.name = entryPoint := congrArg Prod.snd (sameKey.symm.trans key)
  have scope : binding.scope = none := congrArg Prod.fst (sameKey.symm.trans key)
  rw [sameKind] at kind
  rcases (compiled owner member).binding_cases declared with
    ⟨function, inside, made⟩ | ⟨_, _, _, _, _, rfl⟩
  · rcases Function.binding_cases made with rfl | ⟨_, inner, _⟩
    · exact List.mem_map.mpr ⟨(owner, function), mem_functionsIn.mpr ⟨member, inside⟩, name⟩
    · rw [scope] at inner
      cases inner
  · cases kind

/-- Something that occurs once in some lists together occurs in one of them. -/
theorem exists_split_of_count_eq_one {α β : Type} [DecidableEq β] {item : β} (list : α → List β)
    {sources : List α} (once : (sources.flatMap list).count item = 1) :
    ∃ front source back, sources = front ++ source :: back ∧ (list source).count item = 1 ∧
      ∀ other ∈ front ++ back, (list other).count item = 0 := by
  induction sources with
  | nil => cases once
  | cons source sources ih =>
    rw [List.flatMap_cons, List.count_append] at once
    by_cases here : (list source).count item = 0
    · obtain ⟨front, found, back, rfl, single, others⟩ := ih (by omega)
      exact ⟨source :: front, found, back, rfl, single, List.forall_mem_cons.mpr ⟨here, others⟩⟩
    · have single : (list source).count item = 1 := by omega
      have none : (sources.flatMap list).count item = 0 := by omega
      refine ⟨[], source, sources, rfl, single, ?_⟩
      intro other member
      apply List.count_eq_zero_of_not_mem
      intro inside
      exact List.count_eq_zero.mp none (List.mem_flatMap.mpr ⟨other, member, inside⟩)

/-- What the generated code of a program uses, it defines. The identifiers in the code of a definition
are the C names of what it refers to: the words of C and the runtime, primitives, the names inside of
its function, and functions and constants. Such a function that is called, or constant that is read,
is what a name in the tree means by the table, and it has its line of definition, under the C name that
the use has, in the source of the unit that declares it. Of all sources one has the entry point, and
it has it once. Code that is copied verbatim is not looked into. -/
theorem generated_programs_define_what_they_use {files : Files} {search later : Search}
    {seeds : List Path} {units : List SourceUnit}
    (compiled : compile files search seeds = (.ok units, later)) {table : SymbolTable}
    (analyzed : analyze units = .ok table) {settings : RuntimeSettings}
    (generates : ∀ unit ∈ units, ∃ made, generate settings unit table = .ok made) :
    (∀ unit ∈ units, ∃ code, UnitCode.ofUnit unit table = .ok code ∧
      generate settings unit table = .ok (code.files settings) ∧
      ∀ definition ∈ code.definitions,
        definition.rows.flatMap Row.identifiers = definition.referents.map Referent.identifier ∧
        (∀ name, .primitive name ∈ definition.referents → Primitive.isName name = true) ∧
        ∀ global, .global global ∈ definition.referents →
          ∃ function ∈ unit.functions, ∃ mention ∈ function.mentions, ∃ symbol,
            table.resolve unit.importName (some (globalName (unit, function))) mention.module
              mention.name = some symbol ∧ global = symbol.global ∧
            ∃ owner ∈ units, ∃ declaration ∈ owner.declarations,
              symbol = owner.symbolOf declaration ∧
              ∃ made, generate settings owner table = .ok made ∧ global.DefinedIn made.source) ∧
    ∃ front owner back, units = front ++ owner :: back ∧
      (∃ code, UnitCode.ofUnit owner table = .ok code ∧
        code.sourceRows.count (.opening entryLine) = 1 ∧ code.mainCount = 1 ∧
        HasLine (code.files settings).source entryLine) ∧
      ∀ other ∈ front ++ back, ∃ code, UnitCode.ofUnit other table = .ok code ∧
        code.sourceRows.count (.opening entryLine) = 0 ∧ code.mainCount = 0 := by
  have read := compile_compiled compiled
  have plain := isWordPart_of_compile compiled
  have codeOf {unit : SourceUnit} (member : unit ∈ units) :
      ∃ code, UnitCode.ofUnit unit table = .ok code ∧
        generate settings unit table = .ok (code.files settings) := by
    obtain ⟨made, done⟩ := generates unit member
    obtain ⟨code, built, rfl⟩ := ofUnit_of_generate done
    exact ⟨code, built, done⟩
  constructor
  · intro unit member
    obtain ⟨code, built, done⟩ := codeOf member
    refine ⟨code, built, done, ?_⟩
    intro definition defined
    have spelled := definitions_spelled read analyzed member built definition defined
    refine ⟨spelled.identifiers_eq plain, fun name used => spelled.referents used, ?_⟩
    intro global used
    obtain ⟨function, inside, entry, mention, named, symbol, found, exported, same⟩ :=
      ((read unit member).makes built).refers defined used
    have listed := (SymbolTable.mem_of_resolve found).1
    obtain ⟨owner, among, declaration, declared, rfl⟩ := declaration_of_mem analyzed listed
    obtain ⟨ownerCode, ownerBuilt, done⟩ := codeOf among
    refine ⟨function, inside, mention, named, _, found, same, owner, among, declaration, declared,
      rfl, _, done, ?_⟩
    rw [same]
    exact definedIn_of_declaration settings (read owner among) ownerBuilt declared exported
  · have counted {unit : SourceUnit} (member : unit ∈ units) {code : UnitCode}
        (built : UnitCode.ofUnit unit table = .ok code) :
        code.mainCount = code.sourceRows.count (.opening entryLine) :=
      mainCount_eq (definitions_spelled read analyzed member built) plain
    have once : (units.flatMap fun unit => unit.functions.map fun function =>
        globalName (unit, function)).count entryPoint = 1 := by
      have names : (units.flatMap fun unit => unit.functions.map fun function =>
          globalName (unit, function)) = (functionsIn units).map globalName := by
        simp [functionsIn, List.map_flatMap, Function.comp_def]
      rw [names]
      exact List.count_eq_one_of_mem (nodup_functionsIn read analyzed)
        (entryPoint_mem read analyzed)
    obtain ⟨front, owner, back, parted, single, others⟩ := exists_split_of_count_eq_one _ once
    refine ⟨front, owner, back, parted, ?_, ?_⟩
    · have member : owner ∈ units := by simp [parted]
      obtain ⟨code, built, _⟩ := codeOf member
      have rows := (count_entry_source (read owner member) built).trans single
      refine ⟨code, built, rows, (counted member built).trans rows, ?_⟩
      have named := List.count_pos_iff.mp (Nat.lt_of_lt_of_eq Nat.zero_lt_one single.symm)
      obtain ⟨function, inside, same⟩ := List.mem_map.mp named
      obtain ⟨steps, defined⟩ := definition_of_function (read owner member) built inside
      rw [if_pos same] at defined
      have level := ((read owner member).makes built).level
      exact code.hasLine_source settings level defined rfl (.inr rfl)
    · intro other among
      have member : other ∈ units := by
        rw [parted]
        rcases List.mem_append.mp among with earlier | behind
        · exact List.mem_append_left _ earlier
        · exact List.mem_append_right _ (List.mem_cons_of_mem _ behind)
      obtain ⟨code, built, _⟩ := codeOf member
      have rows := (count_entry_source (read other member) built).trans (others other among)
      exact ⟨code, built, rows, (counted member built).trans rows⟩

/-- A file that uses the constant of a module, and its function of the name of the entry point. -/
def toolUser : List UInt8 :=
  "use tool\nfn main() \x7b\ntool::main tool::size\n\x7d\n".toUTF8.toList

def toolModule : List UInt8 :=
  "const size 3\nfn main() \x7b\npush size\n\x7d\n".toUTF8.toList

def toolFiles : Files where
  entries := [(["w"], .directory), (["w", "main.qd"], .file toolUser none),
    (["w", "tool.qd"], .file toolModule none)]
  working := ["w"]

/-- A search that remembers what the first file imports. -/
def toolSearch : Search := ⟨[], [⟨⟨"/w"⟩, "tool", ⟨"/w/tool.qd"⟩⟩]⟩

theorem compile_toolFiles {main tool : SourceUnit} {imports imports' : List Path}
    {later last : Search}
    (read : SourceUnit.compile ⟨⟨"/w/main.qd"⟩, none, [], none⟩ toolFiles toolSearch toolUser =
      (.ok (main, imports), later))
    (read' : SourceUnit.compile ⟨⟨"/w/tool.qd"⟩, some "tool", [], none⟩ toolFiles later toolModule =
      (.ok (tool, imports'), last))
    (requests : main.requests = [⟨⟨"/w/tool.qd"⟩, some "tool"⟩]) (alone : tool.requests = []) :
    compile toolFiles toolSearch [⟨"main.qd"⟩] = (.ok [main, tool], last) := by
  have seeds : canonicalSeeds toolFiles [⟨"main.qd"⟩] = .ok [⟨"/w/main.qd"⟩] := by
    simp only [canonicalSeeds, Files.canonical, Files.locate, String.contains_char_eq]
    rfl
  have place : toolFiles.locate ⟨"/w/main.qd"⟩ = .ok ["w", "main.qd"] := by
    simp only [Files.locate, String.contains_char_eq]
    decide +kernel
  have place' : toolFiles.locate ⟨"/w/tool.qd"⟩ = .ok ["w", "tool.qd"] := by
    simp only [Files.locate, String.contains_char_eq]
    decide +kernel
  rw [compile, seeds]
  refine compileQueue_answer place (by simp) rfl read ?_
  rw [requests]
  exact compileQueue_alone place' (by decide) rfl read' alone (compileQueue_nil _ _ _)

theorem module_with_its_own_main_is_defined :
    ∃ units table later, compile toolFiles toolSearch [⟨"main.qd"⟩] = (.ok units, later) ∧
      analyze units = .ok table ∧
      (∀ unit ∈ units, ∃ made, generate {} unit table = .ok made) ∧
      (∀ global ∈ [Global.constant "tool" "size", Global.function "tool" "main"],
        ∃ owner ∈ units, ∃ made, generate {} owner table = .ok made ∧
          global.DefinedIn made.source) ∧
      ∃ front owner back, units = front ++ owner :: back ∧
        (∃ code, UnitCode.ofUnit owner table = .ok code ∧
          code.sourceRows.count (.opening entryLine) = 1 ∧ code.mainCount = 1) ∧
        ∀ other ∈ front ++ back, ∃ code, UnitCode.ofUnit other table = .ok code ∧
          code.sourceRows.count (.opening entryLine) = 0 ∧ code.mainCount = 0 := by
  have built : (do
      let one := SourceUnit.compile ⟨⟨"/w/main.qd"⟩, none, [], none⟩ toolFiles toolSearch toolUser
      let two := SourceUnit.compile ⟨⟨"/w/tool.qd"⟩, some "tool", [], none⟩ toolFiles one.2
        toolModule
      let main ← one.1.toOption
      let tool ← two.1.toOption
      let table ← (analyze [main.1, tool.1]).toOption
      let code ← (UnitCode.ofUnit main.1 table).toOption
      let code' ← (UnitCode.ofUnit tool.1 table).toOption
      return (main.1.requests, tool.1.requests,
        code.definitions.flatMap Definition.globals, code'.definitions.length)) =
      some ([⟨⟨"/w/tool.qd"⟩, some "tool"⟩], [],
        [.constant "tool" "size", .function "tool" "main"], 2) := by decide +kernel
  obtain ⟨⟨main, imports⟩, read, built⟩ := Option.bind_eq_some_iff.mp built
  obtain ⟨⟨tool, imports'⟩, read', built⟩ := Option.bind_eq_some_iff.mp built
  obtain ⟨table, analyzed, built⟩ := Option.bind_eq_some_iff.mp built
  obtain ⟨code, made, built⟩ := Option.bind_eq_some_iff.mp built
  obtain ⟨code', made', built⟩ := Option.bind_eq_some_iff.mp built
  simp only [Option.pure_def, Option.some.injEq, Prod.mk.injEq] at built
  obtain ⟨requests, alone, used, _⟩ := built
  have analyzed := eq_ok_of_toOption analyzed
  have compiled := compile_toolFiles (Prod.ext (eq_ok_of_toOption read) rfl)
    (Prod.ext (eq_ok_of_toOption read') rfl) requests alone
  have generates : ∀ unit ∈ [main, tool], ∃ made, generate {} unit table = .ok made := by
    simp only [List.forall_mem_cons, generate]
    rw [eq_ok_of_toOption made, eq_ok_of_toOption made']
    exact ⟨⟨_, rfl⟩, ⟨_, rfl⟩, by simp⟩
  obtain ⟨defined, front, owner, back, parted, ⟨ownerCode, ownerMade, once, named, _⟩, others⟩ :=
    generated_programs_define_what_they_use compiled analyzed generates
  refine ⟨_, table, _, compiled, analyzed, generates, ?_, front, owner, back, parted,
    ⟨ownerCode, ownerMade, once, named⟩, others⟩
  intro global member
  obtain ⟨same, remade, _, uses⟩ := defined main List.mem_cons_self
  rw [eq_ok_of_toOption made] at remade
  cases remade
  rw [← used] at member
  obtain ⟨definition, listed, inside⟩ := List.mem_flatMap.mp member
  obtain ⟨_, _, _, _, _, _, _, owner, among, _, _, _, made, done, line⟩ :=
    (uses definition listed).2.2 global (Definition.mem_globals.mpr inside)
  exact ⟨owner, among, made, done, line⟩

/-- A file whose C code defines the entry point once more. -/
def doubledSource : List UInt8 :=
  ("__c \x7b int main(int argc, char** argv) \x7b return 0; \x7d \x7d\n" ++
    "fn main() \x7b\n\x7d\n").toUTF8.toList

theorem c_code_defines_the_entry_point_again :
    ∃ main table later generated,
      compile (loneFile doubledSource) ⟨[], []⟩ [⟨"main.qd"⟩] = (.ok [main], later) ∧
      analyze [main] = .ok table ∧ generate {} main table = .ok generated ∧
      generated.source = "#include \"main_main.h\"\n\n" ++
        " int main(int argc, char** argv) \x7b return 0; \x7d \n\n" ++
        "int main(int argc, char** argv) \x7b\n\t(void)argc;\n\t(void)argv;\n\treturn 0;\n\x7d\n\n" := by
  have accepted : (do
      let one := SourceUnit.compile ⟨⟨"/w/main.qd"⟩, none, [], none⟩ (loneFile doubledSource) ⟨[], []⟩
        doubledSource
      let main ← one.1.toOption
      let table ← (analyze [main.1]).toOption
      let generated ← (generate {} main.1 table).toOption
      return (main.1.requests, generated.source)) = some ([], "#include \"main_main.h\"\n\n" ++
        " int main(int argc, char** argv) \x7b return 0; \x7d \n\n" ++
        "int main(int argc, char** argv) \x7b\n\t(void)argc;\n\t(void)argv;\n\treturn 0;\n\x7d\n\n") := by
    decide +kernel
  obtain ⟨⟨main, imports⟩, read, accepted⟩ := Option.bind_eq_some_iff.mp accepted
  obtain ⟨table, analyzed, accepted⟩ := Option.bind_eq_some_iff.mp accepted
  obtain ⟨generated, made, accepted⟩ := Option.bind_eq_some_iff.mp accepted
  simp only [Option.pure_def, Option.some.injEq, Prod.mk.injEq] at accepted
  obtain ⟨alone, source⟩ := accepted
  exact ⟨main, table, _, generated, compile_loneFile (Prod.ext (eq_ok_of_toOption read) rfl) alone,
    eq_ok_of_toOption analyzed, eq_ok_of_toOption made, source⟩

end StackLang
