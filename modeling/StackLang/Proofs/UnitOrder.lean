import Mathlib.Data.List.Perm.Basic
import StackLang.Proofs.DefinedNames
import StackLang.Proofs.SameMeaning

/-! The order of the units of a program. Declarations are entered in the order of the units, and the
first one with a key is found by it; but a table holds no key twice, so what is found by a key does
not depend on the order, and neither does anything that is read off from the table. -/
namespace StackLang

open StackLang.Outcome

namespace SymbolTable

/-- Two tables with the same symbols and modules, each in an order of its own. -/
structure Reordered (left right : SymbolTable) : Prop where
  symbols : left.symbols.Perm right.symbols
  modules : ∀ name, left.isModule name = right.isModule name
  distinct : left.keys.Nodup

variable {left right : SymbolTable}

theorem find?_eq_some_iff_mem {table : SymbolTable} (distinct : table.keys.Nodup)
    (key : Option String × String) (symbol : Symbol) :
    table.find? key = some symbol ↔ symbol ∈ table.symbols ∧ symbol.key = key := by
  constructor
  · exact mem_of_find?
  · rintro ⟨member, rfl⟩
    cases found : table.find? symbol.key with
    | none =>
      have absent := (table.find?_eq_none_iff _).mp found
      exact absurd (List.mem_map_of_mem member) absent
    | some other =>
      obtain ⟨listed, same⟩ := mem_of_find? found
      rw [List.inj_on_of_nodup_map distinct listed member same]

/-- What has a key is found by it in any order. -/
theorem Reordered.find? (reordered : left.Reordered right) (key : Option String × String) :
    left.find? key = right.find? key := by
  have distinct : right.keys.Nodup :=
    (reordered.symbols.map Symbol.key).nodup_iff.mp reordered.distinct
  apply Option.ext
  intro symbol
  rw [find?_eq_some_iff_mem reordered.distinct, find?_eq_some_iff_mem distinct,
    reordered.symbols.mem_iff]

theorem Reordered.resolve (reordered : left.Reordered right)
    (module function qualifier : Option String) (name : String) :
    left.resolve module function qualifier name = right.resolve module function qualifier name := by
  simp only [SymbolTable.resolve, global?, scoped?, reordered.find?]

theorem Reordered.isKnown (reordered : left.Reordered right) (reference : Reference)
    (module : Option String) : reference.isKnown module left = reference.isKnown module right := by
  simp only [Reference.isKnown, scoped?, reordered.find?, reordered.modules, reordered.resolve]

theorem Reordered.checkAll (reordered : left.Reordered right) (unit : SourceUnit) :
    left.checkAll unit = right.checkAll unit := by
  simp only [SymbolTable.checkAll, reordered.isKnown]

theorem Reordered.hasEntryPoint (reordered : left.Reordered right) :
    left.hasEntryPoint = right.hasEntryPoint := by
  simp only [SymbolTable.hasEntryPoint, global?, reordered.find?]

theorem Reordered.generate (reordered : left.Reordered right) (settings : RuntimeSettings)
    (unit : SourceUnit) : generate settings unit left = generate settings unit right := by
  apply generate_eq
  intro tree _
  refine ⟨rfl, rfl, fun function _ entry => ⟨rfl, rfl, ?_⟩⟩
  intro mention _
  exact reordered.resolve _ _ _ _

end SymbolTable

section Order

variable {units shuffled : List SourceUnit}

theorem declarationsIn_perm (moved : units.Perm shuffled) :
    (declarationsIn units).Perm (declarationsIn shuffled) :=
  moved.flatMap_right _

theorem isImported_perm (moved : units.Perm shuffled) (name : String) :
    IsImported units name ↔ IsImported shuffled name := by
  simp only [IsImported, moved.mem_iff]

/-- Declarations that are entered in one order can be entered in any other. -/
theorem collected_perm (moved : units.Perm shuffled) {table : SymbolTable}
    (collected : units.foldlM SymbolTable.declareAll (SymbolTable.ofModules units) = .ok table) :
    ∃ other, shuffled.foldlM SymbolTable.declareAll (SymbolTable.ofModules shuffled) = .ok other ∧
      table.Reordered other := by
  have sites := declarationsIn_perm moved
  rcases collected_or_clashes units with
    ⟨distinct, found, done, symbols⟩ | ⟨_, _, _, _, _, _, failed⟩
  · rw [collected] at done
    cases done
    rcases collected_or_clashes shuffled with
      ⟨_, other, done', symbols'⟩ | ⟨front, site, back, parted, _, taken, _⟩
    · refine ⟨other, done', ?_, ?_, ?_⟩
      · rw [symbols, symbols']
        exact sites.map symbolAt
      · intro name
        rw [Bool.eq_iff_iff, isModule_of_collected collected, isModule_of_collected done',
          isImported_perm moved]
      · rw [SymbolTable.keys, symbols, List.map_map]
        exact distinct
    · have distinct' := (sites.map fun site => site.2.binding.key).nodup_iff.mp distinct
      rw [parted, List.map_append, List.map_cons, List.nodup_append] at distinct'
      exact absurd rfl (distinct'.2.2 _ taken _ List.mem_cons_self)
  · rw [collected] at failed
    cases failed

theorem analyze_perm (moved : units.Perm shuffled) {table : SymbolTable}
    (analyzed : analyze units = .ok table) :
    ∃ other, analyze shuffled = .ok other ∧ table.Reordered other := by
  have collected := collected_of_analyze analyzed
  have entry := hasEntryPoint_of_analyze analyzed
  obtain ⟨other, collected', reordered⟩ := collected_perm moved collected
  have entry' : other.hasEntryPoint = true := reordered.hasEntryPoint ▸ entry
  refine ⟨other, (analyze_ok_iff collected' entry').mpr ⟨rfl, ?_⟩, reordered⟩
  intro unit member
  rw [← reordered.checkAll]
  exact ((analyze_ok_iff collected entry).mp analyzed).2 unit (moved.mem_iff.mpr member)

end Order

/-- The order of the units does not matter. If the units of a program are analysed in another order
then the program is accepted if it was before; the table has the same symbols under the same keys
and the same modules, if in another order; and every unit has the same files with either table, or
is refused with the same error. -/
theorem units_are_analyzed_alike_in_any_order {units shuffled : List SourceUnit}
    (moved : units.Perm shuffled) :
    ((∃ table, analyze units = .ok table) ↔ ∃ table, analyze shuffled = .ok table) ∧
    ∀ table other, analyze units = .ok table → analyze shuffled = .ok other →
      table.symbols.Perm other.symbols ∧ (∀ key, table.find? key = other.find? key) ∧
      (∀ name, name ∈ table.modules ↔ name ∈ other.modules) ∧
      ∀ settings unit, generate settings unit table = generate settings unit other := by
  constructor
  · constructor
    · rintro ⟨table, analyzed⟩
      obtain ⟨other, done, _⟩ := analyze_perm moved analyzed
      exact ⟨other, done⟩
    · rintro ⟨table, analyzed⟩
      obtain ⟨other, done, _⟩ := analyze_perm moved.symm analyzed
      exact ⟨other, done⟩
  · intro table other analyzed analyzed'
    obtain ⟨found, done, reordered⟩ := analyze_perm moved analyzed
    rw [analyzed'] at done
    cases done
    refine ⟨reordered.symbols, reordered.find?, ?_, reordered.generate⟩
    intro name
    have same := reordered.modules name
    rwa [SymbolTable.isModule, SymbolTable.isModule, decide_eq_decide] at same

theorem unit_before_its_module_is_analyzed_alike :
    ∃ main tool table other, [main, tool].Perm [tool, main] ∧
      (∀ unit ∈ [main, tool], unit.Compiled) ∧
      analyze [main, tool] = .ok table ∧ analyze [tool, main] = .ok other ∧
      table.symbols ≠ other.symbols ∧
      table.find? (none, "tool::size") = other.find? (none, "tool::size") ∧
      ∃ made, generate {} main table = .ok made ∧ generate {} main other = .ok made := by
  have accepted : (do
      let main ← unitOf none "fn main() {
tool::main tool::size
}
"
      let tool ← unitOf (some "tool") "const size 3
fn main() {
push size
}
"
      let table ← (analyze [main, tool]).toOption
      let other ← (analyze [tool, main]).toOption
      let code ← (UnitCode.ofUnit main table).toOption
      return (table.symbols.map Symbol.name, other.symbols.map Symbol.name,
        code.definitions.length)) =
        some (["main", "tool::size", "tool::main"], ["tool::size", "tool::main", "main"], 1) := by
    decide +kernel
  obtain ⟨main, read, accepted⟩ := Option.bind_eq_some_iff.mp accepted
  obtain ⟨tool, read', accepted⟩ := Option.bind_eq_some_iff.mp accepted
  obtain ⟨table, analyzed, accepted⟩ := Option.bind_eq_some_iff.mp accepted
  obtain ⟨other, analyzed', accepted⟩ := Option.bind_eq_some_iff.mp accepted
  obtain ⟨code, made, accepted⟩ := Option.bind_eq_some_iff.mp accepted
  obtain ⟨names, names', _⟩ : table.symbols.map Symbol.name = ["main", "tool::size", "tool::main"] ∧
      other.symbols.map Symbol.name = ["tool::size", "tool::main", "main"] ∧
      code.definitions.length = 1 := by simpa using accepted
  have analyzed := eq_ok_of_toOption analyzed
  have analyzed' := eq_ok_of_toOption analyzed'
  have moved : [main, tool].Perm [tool, main] := .swap tool main []
  obtain ⟨_, found, _, generated⟩ :=
    (units_are_analyzed_alike_in_any_order moved).2 table other analyzed analyzed'
  have done : generate {} main table = .ok (code.files {}) := by
    rw [generate, eq_ok_of_toOption made]
    rfl
  refine ⟨main, tool, table, other, moved, ?_, analyzed, analyzed', ?_, found _, code.files {},
    done, (generated {} main).symm.trans done⟩
  · simp [compiled_of_unitOf read, compiled_of_unitOf read']
  · intro same
    rw [same, names'] at names
    exact absurd names (by decide)

end StackLang
