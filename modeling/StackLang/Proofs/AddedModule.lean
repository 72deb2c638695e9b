import StackLang.Proofs.GeneratedCode
import StackLang.Proofs.SameMeaning

/-! A program with a further module. What a module declares is known under the name of the module or
inside one of its functions, and neither a plain name nor one that is qualified by another module
leads there. So the units that were there before have the code that they had before. -/
namespace StackLang

open StackLang.Grammar StackLang.Outcome

/-! ### Names of a module -/

theorem reverse_qualify (owner word : String) :
    (qualify (some owner) word).toList.reverse =
      word.toList.reverse ++ ':' :: ':' :: owner.toList.reverse := by
  simp [qualify]

/-- The last double colon of a name stands behind its module. -/
theorem module_of_qualify {module : Option String} {owner word other : String}
    (plain : ':' ∉ word.toList) (plain' : ':' ∉ other.toList)
    (same : qualify module word = qualify (some owner) other) : module = some owner := by
  have reversed : (qualify module word).toList.reverse = _ := same ▸ reverse_qualify owner other
  cases module with
  | none =>
    have marked : ':' ∈ word.toList.reverse := by
      rw [qualify] at reversed
      simp [reversed]
    exact absurd (List.mem_reverse.mp marked) plain
  | some module =>
    rw [reverse_qualify] at reversed
    have words := congrArg beforeDoubleColon reversed
    rw [beforeDoubleColon_append (by simpa using plain),
      beforeDoubleColon_append (by simpa using plain')] at words
    rw [words, List.append_cancel_left_eq] at reversed
    have owners : module.toList = owner.toList := by simpa using reversed
    rw [String.toList_inj.mp owners]

/-- A symbol is a global of a module, or known inside one of the module's functions only. -/
def Symbol.BelongsTo (symbol : Symbol) (module : Option String) : Prop :=
  ∃ word : String, ':' ∉ word.toList ∧
    (symbol.key = (none, qualify module word) ∨ symbol.scope = some (qualify module word))

namespace SourceUnit.Compiled

variable {unit : SourceUnit} (compiled : unit.Compiled)
include compiled

theorem isIdentifier_word {binding : Binding} (member : binding ∈ unit.bindings) :
    Lexeme.isIdentifier binding.word = true := by
  rw [← compiled.bindings_eq] at member
  obtain ⟨declaration, declared, rfl⟩ := List.mem_map.mp member
  exact (compiled.binding_mem declared).2

theorem bindings_subset {function : Function} (among : function ∈ unit.functions) :
    function.bindings unit.importName ⊆ unit.bindings := by
  obtain ⟨tree, held, parsed, _⟩ := compiled.parsed
  rw [SourceUnit.functions, held] at among
  rw [SourceUnit.bindings, held]
  intro binding inside
  apply ((file_of_parse parsed).bindings_sublist unit.importName).subset
  exact List.mem_flatMap.mpr ⟨function, among, inside⟩

theorem isIdentifier_function {function : Function} (among : function ∈ unit.functions) :
    Lexeme.isIdentifier function.name = true :=
  compiled.isIdentifier_word (compiled.bindings_subset among List.mem_cons_self)

/-- What a unit declares belongs to the module that it is imported as. -/
theorem belongsTo {declaration : Declaration} (declared : declaration ∈ unit.declarations) :
    (unit.symbolOf declaration).BelongsTo unit.importName := by
  obtain ⟨listed, named⟩ := compiled.binding_mem declared
  rcases compiled.binding_cases listed with ⟨function, among, inside⟩ | ⟨_, _, name, _, _, same⟩
  · refine ⟨function.name, not_mem_of_isIdentifier (compiled.isIdentifier_function among), ?_⟩
    rcases Function.binding_cases inside with same | ⟨_, scope, _⟩
    · exact .inl (congrArg Binding.key same)
    · exact .inr scope
  · rw [congrArg Binding.word same] at named
    exact ⟨name, not_mem_of_isIdentifier named, .inl (congrArg Binding.key same)⟩

end SourceUnit.Compiled

/-! ### A table with more symbols -/

/-- A table that goes on with symbols of one module. -/
def SymbolTable.ExtendedBy (table larger : SymbolTable) (module : String) : Prop :=
  ∃ added, larger.symbols = table.symbols ++ added ∧
    ∀ symbol ∈ added, symbol.BelongsTo (some module)

namespace SymbolTable.ExtendedBy

variable {table larger : SymbolTable} {module : String} (extended : table.ExtendedBy larger module)
include extended

theorem find?_eq {key : Option String × String}
    (elsewhere : ∀ symbol : Symbol, symbol.BelongsTo (some module) → symbol.key ≠ key) :
    larger.find? key = table.find? key := by
  obtain ⟨added, symbols, belong⟩ := extended
  have absent : added.find? (fun symbol => symbol.key = key) = none := by
    apply List.find?_eq_none.mpr
    intro symbol member
    simpa using elsewhere symbol (belong symbol member)
  rw [SymbolTable.find?, SymbolTable.find?, symbols, List.find?_append, absent, Option.or_none]

variable {owner : Option String} (other : owner ≠ some module) {word : String}
  (plain : ':' ∉ word.toList)
include other plain

theorem global?_eq : larger.global? (qualify owner word) = table.global? (qualify owner word) := by
  apply extended.find?_eq
  rintro symbol ⟨name, plain', key | scope⟩ same
  · have names : qualify owner word = qualify (some module) name :=
      congrArg Prod.snd (same.symm.trans key)
    exact other (module_of_qualify plain plain' names)
  · have unscoped : symbol.scope = none := congrArg Prod.fst same
    rw [unscoped] at scope
    cases scope

theorem scoped?_eq (name : String) :
    larger.scoped? (qualify owner word) name = table.scoped? (qualify owner word) name := by
  apply extended.find?_eq
  rintro symbol ⟨function, plain', key | scope⟩ same
  · cases key.symm.trans same
  · have scopes : some (qualify owner word) = some (qualify (some module) function) :=
      (congrArg Prod.fst same).symm.trans scope
    exact other (module_of_qualify plain plain' (Option.some.inj scopes))

/-- Inside of another module a name means what it did, unless it is qualified by the new one. -/
theorem resolve_eq {qualifier : Option String} (apart : qualifier ≠ some module) {name : String}
    (plain' : ':' ∉ name.toList) :
    larger.resolve owner (some (qualify owner word)) qualifier name =
      table.resolve owner (some (qualify owner word)) qualifier name := by
  cases qualifier with
  | some qualifier => exact extended.global?_eq apart plain'
  | none =>
    have unowned : none ≠ some module := by simp
    have global : larger.global? name = table.global? name := extended.global?_eq unowned plain'
    simp only [resolve, Option.bind_some]
    rw [extended.scoped?_eq other plain, global]
    cases owner with
    | none => rfl
    | some owner =>
      simp only [Option.bind_some]
      rw [extended.global?_eq other plain']

end SymbolTable.ExtendedBy

theorem extendedBy_of_analyze {units : List SourceUnit} {table larger : SymbolTable}
    (analyzed : analyze units = .ok table) {added : SourceUnit} (compiled : added.Compiled)
    (analyzed' : analyze (units ++ [added]) = .ok larger) {module : String}
    (named : added.importName = some module) : table.ExtendedBy larger module := by
  refine ⟨added.declarations.map added.symbolOf, ?_, ?_⟩
  · rw [(symbols_of_analyze analyzed').1, (symbols_of_analyze analyzed).1]
    simp [declarationsIn, symbolAt, Function.comp_def]
  · intro symbol member
    obtain ⟨declaration, declared, rfl⟩ := List.mem_map.mp member
    rw [← named]
    exact compiled.belongsTo declared

/-! ### Programs -/

/-- A table counts for a unit only by what the names in the unit's functions mean. -/
theorem SourceUnit.Compiled.generate_congr {unit : SourceUnit} (compiled : unit.Compiled)
    {left right : SymbolTable}
    (same : ∀ function ∈ unit.functions, ∀ mention ∈ function.mentions,
      left.resolve unit.importName (some (globalName (unit, function))) mention.module
          mention.name =
        right.resolve unit.importName (some (globalName (unit, function))) mention.module
          mention.name)
    (settings : RuntimeSettings) : generate settings unit left = generate settings unit right := by
  apply generate_eq
  intro tree held
  obtain ⟨_, held', parsed, _⟩ := compiled.parsed
  cases held.symm.trans held'
  rw [SourceUnit.functions, held] at same
  rw [(file_of_parse parsed).codedFunctions_eq]
  exact ⟨rfl, rfl, fun function among entry => ⟨rfl, rfl, same function among⟩⟩

/-- A module that qualifies a name in an analysed program is one of its units. -/
theorem Analyzed.isImported {units : List SourceUnit} {table : SymbolTable}
    (analyzed : Analyzed units table) {unit : SourceUnit} (member : unit ∈ units)
    (compiled : unit.Compiled) {function : Function} (among : function ∈ unit.functions)
    {mention : Mention} (named : mention ∈ function.mentions) {owner : String}
    (qualified : mention.module = some owner) : IsImported units owner := by
  obtain ⟨tree, held, _⟩ := compiled.parsed
  rw [SourceUnit.functions, held] at among
  have looked : ⟨.module, some (qualify unit.importName function.name), owner⟩ ∈
      function.lookups unit.importName := by
    apply function.lookups_of_mention unit.importName named
    simp [Mention.lookups, qualified]
  obtain ⟨reference, listed, same⟩ := List.mem_map.mp
    ((compiled.mem_lookups held _).mpr ⟨function, among, looked⟩)
  have known := (reference.isKnown_iff unit.importName table).mp
    (analyzed.known unit member reference listed)
  rw [same] at known
  exact analyzed.imported owner known

/-- A further module changes no code. If a program is accepted, and also with a unit behind its
units that is imported under a name of its own, then every unit of the program has the same files
with either table, or is refused with the same error. -/
theorem added_module_changes_no_code {units : List SourceUnit}
    (compiled : ∀ unit ∈ units, unit.Compiled) {added : SourceUnit} (compiled' : added.Compiled)
    {module : String} (named : added.importName = some module)
    (new : ∀ unit ∈ units, unit.importName ≠ some module) {table larger : SymbolTable}
    (analyzed : analyze units = .ok table) (analyzed' : analyze (units ++ [added]) = .ok larger) :
    ∀ unit ∈ units, ∀ settings, generate settings unit table = generate settings unit larger := by
  intro unit member settings
  have extended := extendedBy_of_analyze analyzed compiled' analyzed' named
  apply (compiled unit member).generate_congr
  intro function among mention mentioned
  have word := not_mem_of_isIdentifier ((compiled unit member).isIdentifier_function among)
  have name : ':' ∉ mention.name.toList := by
    obtain ⟨tree, held, _⟩ := (compiled unit member).parsed
    rw [SourceUnit.functions, held] at among
    exact not_mem_of_isIdentifier ((compiled unit member).reference held among mentioned).1
  have qualifier : mention.module ≠ some module := by
    intro qualified
    obtain ⟨owner, known, imported⟩ :=
      (analyzed_of_analyze analyzed).isImported member (compiled unit member) among mentioned
        qualified
    exact new owner known imported
  exact (extended.resolve_eq (new unit member) word qualifier name).symm

theorem module_named_like_a_constant_changes_no_code :
    ∃ main box tool table larger,
      (∀ unit ∈ [main, box], unit.Compiled) ∧ tool.Compiled ∧ tool.importName = some "tool" ∧
      (∀ unit ∈ [main, box], unit.importName ≠ some "tool") ∧
      analyze [main, box] = .ok table ∧ analyze ([main, box] ++ [tool]) = .ok larger ∧
      (larger.global? "tool::size").isSome = true ∧ larger.isModule "tool" = true ∧
      ∃ made, generate {} main table = .ok made ∧ generate {} main larger = .ok made := by
  have accepted : (do
      let main ← unitOf none "const tool 5
fn size(n) {
push n tool
}
fn main() {
size box::side
}
"
      let box ← unitOf (some "box") "const side 2
"
      let tool ← unitOf (some "tool") "const side 7
fn size() {
local n
push side n
}
"
      let table ← (analyze [main, box]).toOption
      let larger ← (analyze ([main, box] ++ [tool])).toOption
      let code ← (UnitCode.ofUnit main table).toOption
      return (main.importName, box.importName, tool.importName,
        (larger.global? "tool::size").isSome, larger.isModule "tool")) =
        some (none, some "box", some "tool", true, true) := by
    decide +kernel
  obtain ⟨main, read, accepted⟩ := Option.bind_eq_some_iff.mp accepted
  obtain ⟨box, read', accepted⟩ := Option.bind_eq_some_iff.mp accepted
  obtain ⟨tool, read'', accepted⟩ := Option.bind_eq_some_iff.mp accepted
  obtain ⟨table, analyzed, accepted⟩ := Option.bind_eq_some_iff.mp accepted
  obtain ⟨larger, analyzed', accepted⟩ := Option.bind_eq_some_iff.mp accepted
  obtain ⟨code, made, accepted⟩ := Option.bind_eq_some_iff.mp accepted
  simp only [Option.pure_def, Option.some.injEq, Prod.mk.injEq] at accepted
  obtain ⟨asked, boxed, named, global, known⟩ := accepted
  have analyzed := eq_ok_of_toOption analyzed
  have analyzed' := eq_ok_of_toOption analyzed'
  have compiled : ∀ unit ∈ [main, box], unit.Compiled := by
    simp [compiled_of_unitOf read, compiled_of_unitOf read']
  have new : ∀ unit ∈ [main, box], unit.importName ≠ some "tool" := by simp [asked, boxed]
  have same := added_module_changes_no_code compiled (compiled_of_unitOf read'') named new analyzed
    analyzed' main List.mem_cons_self {}
  have done : generate {} main table = .ok (code.files {}) := by
    rw [generate, eq_ok_of_toOption made]
    rfl
  exact ⟨main, box, tool, table, larger, compiled, compiled_of_unitOf read'', named, new, analyzed,
    analyzed', global, known, code.files {}, done, same.symm.trans done⟩

end StackLang
