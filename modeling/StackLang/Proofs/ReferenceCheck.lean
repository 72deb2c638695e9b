import StackLang.Proofs.Collection

/-! What the analysis checks is what the trees of a program need. Every name of a tree is found
among the references of its tokens, with its role and its function, and there are no others; so a
program whose declarations are in order is accepted exactly if every name of its trees leads
somewhere. -/
namespace StackLang

open StackLang.Grammar StackLang.Outcome

/-! ### Names that lead somewhere -/

def IsImported (units : List SourceUnit) (name : String) : Prop :=
  ∃ unit ∈ units, unit.importName = some name

/-- A name inside a function of a module. Without a module of its own it is a primitive, a module,
or found in the function, in the module or among the globals. -/
def Mention.Known (units : List SourceUnit) (table : SymbolTable) (module : Option String)
    (function : String) (mention : Mention) : Prop :=
  match mention.module with
  | some owner =>
    IsImported units owner ∧ (table.global? (qualify (some owner) mention.name)).isSome = true
  | none =>
    Primitive.isName mention.name = true ∨ IsImported units mention.name ∨
      (table.scoped? function mention.name).isSome = true ∨
      (∃ owner ∈ module, (table.global? (qualify (some owner) mention.name)).isSome = true) ∨
      (table.global? mention.name).isSome = true

/-- A statement whose names lead somewhere; a jump leads to a label of its function. -/
def Action.Known (units : List SourceUnit) (table : SymbolTable) (module : Option String)
    (function : String) : Action → Prop
  | .jump _ target => ∃ symbol ∈ table.scoped? function target, symbol.kind = .label
  | action => ∀ mention ∈ action.mentions, mention.Known units table module function

/-! ### References of a file -/

/-- The tokens of a file refer to what its functions refer to. -/
theorem mem_lookups_file {module function : Option String} {tokens : List Token}
    {around : Surroundings} {statements : List Statement} (file : File tokens statements)
    (ends : EndsLast tokens) (calm : around.Calm function) (lookup : Lookup) :
    lookup ∈ lookups module around tokens ↔
      ∃ function ∈ functionsOf statements, lookup ∈ function.lookups module := by
  induction file generalizing around function with
  | done finished =>
    rcases ends.finished finished with rfl | ⟨last, seen, rfl⟩
    · simp [lookups, references, functionsOf]
    · simp [lookups, references, functionsOf, seen]
  | declaration first _ ih =>
    obtain ⟨after, _, found, settled, read, covered⟩ := lookups_declaration module first calm
    rw [read, List.mem_append, covered, ih (ends.suffix first.suffix) settled,
      first.functionsOf_append]
    simp only [List.mem_append, or_and_right, exists_or]

theorem SourceUnit.Compiled.mem_lookups {unit : SourceUnit} (compiled : unit.Compiled)
    {tree : SourceTree} (held : unit.tree = some tree) (lookup : Lookup) :
    lookup ∈ unit.references.map Reference.lookup ↔
      ∃ function ∈ tree.functions, lookup ∈ function.lookups unit.importName := by
  obtain ⟨parsedTree, same, parsed, _⟩ := compiled.parsed
  obtain rfl := Option.some.inj (held.symm.trans same)
  exact mem_lookups_file (file_of_parse parsed) compiled.endsLast Surroundings.calm_start lookup

/-! ### Known references -/

/-- What a name has to be in a table, by its role. -/
def Lookup.Known (table : SymbolTable) (module : Option String) (lookup : Lookup) : Prop :=
  match lookup.role with
  | .label => ∃ function ∈ lookup.function, ∃ symbol ∈ table.scoped? function lookup.name,
      symbol.kind = .label
  | .module => table.isModule lookup.name = true
  | .named (some owner) => (table.global? (qualify (some owner) lookup.name)).isSome = true
  | .named none =>
    Primitive.isName lookup.name = true ∨ table.isModule lookup.name = true ∨
      (table.resolve module lookup.function none lookup.name).isSome = true

theorem Reference.isKnown_iff (reference : Reference) (module : Option String)
    (table : SymbolTable) :
    reference.isKnown module table = true ↔ reference.lookup.Known table module := by
  obtain ⟨role, function, site⟩ := reference
  cases role with
  | label =>
    simp only [isKnown, lookup, Lookup.Known, Option.any_eq_true, Option.bind_eq_some_iff,
      decide_eq_true_eq, Option.mem_def]
    constructor
    · rintro ⟨symbol, ⟨owner, inside, found⟩, kind⟩
      exact ⟨owner, inside, symbol, found, kind⟩
    · rintro ⟨owner, inside, symbol, found, kind⟩
      exact ⟨symbol, ⟨owner, inside, found⟩, kind⟩
  | module => rfl
  | named qualifier =>
    cases qualifier with
    | none => simp [isKnown, lookup, Lookup.Known, or_assoc]
    | some owner => simp [isKnown, lookup, Lookup.Known, SymbolTable.resolve]

theorem SymbolTable.isSome_resolve_iff (table : SymbolTable) (module : Option String)
    (function name : String) :
    (table.resolve module (some function) none name).isSome = true ↔
      (table.scoped? function name).isSome = true ∨
        (∃ owner ∈ module, (table.global? (qualify (some owner) name)).isSome = true) ∨
        (table.global? name).isSome = true := by
  cases module <;> simp [resolve]

theorem Mention.known_iff {units : List SourceUnit} {table : SymbolTable}
    (imported : ∀ name, table.isModule name = true ↔ IsImported units name)
    (module : Option String) (function : String) (mention : Mention) :
    (∀ lookup ∈ mention.lookups (some function), lookup.Known table module) ↔
      mention.Known units table module function := by
  unfold Mention.lookups Mention.Known
  cases mention.module with
  | none => simp [Lookup.Known, imported, table.isSome_resolve_iff]
  | some owner => simp [Lookup.Known, imported]

theorem Action.known_iff {units : List SourceUnit} {table : SymbolTable}
    (imported : ∀ name, table.isModule name = true ↔ IsImported units name)
    (module : Option String) (function : String) (action : Action) :
    (∀ lookup ∈ action.lookups (some function), lookup.Known table module) ↔
      action.Known units table module function := by
  unfold Action.lookups Action.Known
  split
  · simp [Lookup.Known]
  · simp only [List.forall_mem_flatMap, Mention.known_iff imported]

/-! ### Analysis -/

theorem SymbolTable.checkAll_ok_iff (table : SymbolTable) (unit : SourceUnit) :
    table.checkAll unit = .ok () ↔
      ∀ lookup ∈ unit.references.map Reference.lookup, lookup.Known table unit.importName := by
  simp only [List.forall_mem_map, ← Reference.isKnown_iff]
  constructor
  · exact isKnown_of_checkAll
  · intro known
    unfold checkAll
    split
    · next reference missing =>
      have unknown := List.find?_some missing
      rw [known reference (List.mem_of_find?_eq_some missing)] at unknown
      cases unknown
    · rfl

theorem isModule_of_collected {units : List SourceUnit} {table : SymbolTable}
    (collected : units.foldlM SymbolTable.declareAll (SymbolTable.ofModules units) = .ok table)
    (name : String) : table.isModule name = true ↔ IsImported units name := by
  have modules : table.modules = (SymbolTable.ofModules units).modules :=
    foldlM_keeps (fun _ _ _ _ before all => (SymbolTable.modules_declareAll all).trans before) rfl
      collected
  rw [SymbolTable.isModule, modules, SymbolTable.ofModules, decide_eq_true_eq,
    SymbolTable.mem_modules_foldl, List.mem_filterMap]
  simp [IsImported]

/-- With a table and an entry point, only the references are left to check. -/
theorem analyze_ok_iff {units : List SourceUnit} {table found : SymbolTable}
    (collected : units.foldlM SymbolTable.declareAll (SymbolTable.ofModules units) = .ok table)
    (entry : table.hasEntryPoint = true) :
    analyze units = .ok found ↔
      found = table ∧ ∀ unit ∈ units, table.checkAll unit = .ok () := by
  have checked : analyze units = (units.forM table.checkAll >>= fun _ => pure table) := by
    rw [analyze, collected]
    simp [entry, bind, Except.bind]
  rw [checked]
  constructor
  · intro done
    obtain ⟨_, all, same⟩ := bind_ok done
    cases same
    exact ⟨rfl, forM_ok all⟩
  · rintro ⟨rfl, all⟩
    rw [forM_of_all all]
    rfl

/-- A program whose declarations do not clash and that has an entry point is accepted exactly if
every name in the trees of its units leads somewhere, and then with the table of its
declarations. -/
theorem program_is_accepted_iff_its_names_lead_somewhere {units : List SourceUnit}
    (compiled : ∀ unit ∈ units, unit.Compiled) {table : SymbolTable}
    (collected : units.foldlM SymbolTable.declareAll (SymbolTable.ofModules units) = .ok table)
    (entry : table.hasEntryPoint = true) :
    ((∃ found, analyze units = .ok found) ↔
      ∀ unit ∈ units, ∃ tree, unit.tree = some tree ∧
        ∀ function ∈ tree.functions, ∀ statement ∈ function.statements,
          statement.action.Known units table unit.importName
            (qualify unit.importName function.name)) ∧
      ∀ found, analyze units = .ok found → found = table := by
  have checked {unit : SourceUnit} (member : unit ∈ units) :
      table.checkAll unit = .ok () ↔ ∃ tree, unit.tree = some tree ∧
        ∀ function ∈ tree.functions, ∀ statement ∈ function.statements,
          statement.action.Known units table unit.importName
            (qualify unit.importName function.name) := by
    obtain ⟨tree, held, _⟩ := (compiled unit member).parsed
    rw [table.checkAll_ok_iff, held]
    simp only [(compiled unit member).mem_lookups held, Function.lookups, Option.some.injEq,
      exists_eq_left', forall_exists_index, and_imp, List.mem_flatMap,
      ← Action.known_iff (isModule_of_collected collected)]
    constructor
    · intro known function among statement inside lookup here
      exact known lookup function among statement inside here
    · intro known lookup function among statement inside here
      exact known function among statement inside lookup here
  refine ⟨?_, fun found done => ((analyze_ok_iff collected entry).mp done).1⟩
  constructor
  · rintro ⟨found, done⟩ unit member
    exact (checked member).mp (((analyze_ok_iff collected entry).mp done).2 unit member)
  · intro known
    refine ⟨table, (analyze_ok_iff collected entry).mpr ⟨rfl, fun unit member => ?_⟩⟩
    exact (checked member).mpr (known unit member)

theorem jump_to_a_local_value_leads_nowhere :
    ∃ unit table, (∀ other ∈ [unit], other.Compiled) ∧
      [unit].foldlM SymbolTable.declareAll (SymbolTable.ofModules [unit]) = .ok table ∧
      table.hasEntryPoint = true ∧ (table.scoped? "main" "x").isSome = true ∧
      ¬∀ other ∈ [unit], ∃ tree, other.tree = some tree ∧
        ∀ function ∈ tree.functions, ∀ statement ∈ function.statements,
          statement.action.Known [unit] table other.importName
            (qualify other.importName function.name) := by
  have refused : (do
      let unit ← unitOf none "fn main() {
push 1
local x
jmp x
}
"
      let table ← ([unit].foldlM SymbolTable.declareAll (SymbolTable.ofModules [unit])).toOption
      return (table.hasEntryPoint, (table.scoped? "main" "x").isSome,
        (analyze [unit]).toOption.isNone)) = some (true, true, true) := by decide +kernel
  obtain ⟨unit, read, refused⟩ := Option.bind_eq_some_iff.mp refused
  obtain ⟨table, collected, refused⟩ := Option.bind_eq_some_iff.mp refused
  obtain ⟨entry, present, failed⟩ : table.hasEntryPoint = true ∧
      (table.scoped? "main" "x").isSome = true ∧ (analyze [unit]).toOption.isNone = true := by
    simpa using refused
  have compiled : ∀ other ∈ [unit], other.Compiled := by simp [compiled_of_unitOf read]
  have collected := eq_ok_of_toOption collected
  refine ⟨unit, table, compiled, collected, entry, present, ?_⟩
  intro known
  obtain ⟨found, accepted⟩ :=
    (program_is_accepted_iff_its_names_lead_somewhere compiled collected entry).1.mpr known
  rw [accepted] at failed
  cases failed

end StackLang
