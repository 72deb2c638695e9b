import Mathlib.Data.List.Basic
import StackLang.Proofs.Declarations

/-! How the table of a program is filled. The declarations of all units are entered one by one; the
first whose scope and name are taken is reported, and if there is none then the table holds them
all. So a program is refused for a redefinition exactly if two declarations of its trees clash. -/
namespace StackLang

open StackLang.Outcome

def SourceUnit.clash (unit : SourceUnit) (declaration : Declaration) : SemanticError :=
  .atSpan (.redefined declaration.kind declaration.site.literal) unit.path declaration.site.span

def declarationsIn (units : List SourceUnit) : List (SourceUnit × Declaration) :=
  units.flatMap fun unit => unit.declarations.map fun declaration => (unit, declaration)

def symbolAt (site : SourceUnit × Declaration) : Symbol := site.1.symbolOf site.2

namespace SymbolTable

def keys (table : SymbolTable) : List (Option String × String) := table.symbols.map Symbol.key

def extended (table : SymbolTable) (symbols : List Symbol) : SymbolTable :=
  { table with symbols := table.symbols ++ symbols }

@[simp] theorem extended_nil (table : SymbolTable) : table.extended [] = table := by
  simp [extended]

theorem extended_cons (table : SymbolTable) (symbol : Symbol) (symbols : List Symbol) :
    table.extended (symbol :: symbols) = (table.extended [symbol]).extended symbols := by
  simp [extended]

theorem find?_eq_none_iff (table : SymbolTable) (key : Option String × String) :
    table.find? key = none ↔ key ∉ table.keys := by
  simp [find?, keys]

theorem nodup_extended_singleton {table : SymbolTable} {symbol : Symbol}
    (distinct : table.keys.Nodup) (fresh : symbol.key ∉ table.keys) :
    (table.extended [symbol]).keys.Nodup := by
  have appended : (table.extended [symbol]).keys = table.keys ++ [symbol.key] := by
    simp [keys, extended]
  rw [appended, List.nodup_append]
  refine ⟨distinct, by simp, ?_⟩
  rintro old member _ last rfl
  rw [List.mem_singleton.mp last] at member
  exact fresh member

theorem declare_of_fresh {unit : SourceUnit} {table : SymbolTable} {declaration : Declaration}
    (fresh : (unit.symbolOf declaration).key ∉ table.keys) :
    table.declare unit declaration = .ok (table.extended [unit.symbolOf declaration]) := by
  rw [declare, insert, (table.find?_eq_none_iff _).mpr fresh]
  rfl

theorem declare_of_taken {unit : SourceUnit} {table : SymbolTable} {declaration : Declaration}
    (taken : (unit.symbolOf declaration).key ∈ table.keys) :
    table.declare unit declaration = .error (unit.clash declaration) := by
  rw [declare, insert]
  cases found : table.find? (unit.symbolOf declaration).key with
  | none => exact absurd taken ((table.find?_eq_none_iff _).mp found)
  | some present => rfl

theorem foldlM_declareAll (units : List SourceUnit) (table : SymbolTable) :
    units.foldlM declareAll table =
      (declarationsIn units).foldlM (fun table site => table.declare site.1 site.2) table := by
  induction units generalizing table with
  | nil => rfl
  | cons unit units ih =>
    simp only [declarationsIn, List.flatMap_cons, List.foldlM_append, List.foldlM_cons,
      List.foldlM_map]
    refine bind_congr fun after => ?_
    exact ih after

/-- Declarations are entered up to the first one whose key is taken. -/
theorem declared_or_clashes (sites : List (SourceUnit × Declaration)) (table : SymbolTable)
    (distinct : table.keys.Nodup) :
    (table.extended (sites.map symbolAt)).keys.Nodup ∧
        sites.foldlM (fun table site => table.declare site.1 site.2) table =
          .ok (table.extended (sites.map symbolAt)) ∨
      ∃ front site back, sites = front ++ site :: back ∧
        (table.extended (front.map symbolAt)).keys.Nodup ∧
        (symbolAt site).key ∈ (table.extended (front.map symbolAt)).keys ∧
        sites.foldlM (fun table site => table.declare site.1 site.2) table =
          .error (site.1.clash site.2) := by
  induction sites generalizing table with
  | nil => exact .inl ⟨by simpa using distinct, by simp [pure, Except.pure]⟩
  | cons site sites ih =>
    by_cases taken : (symbolAt site).key ∈ table.keys
    · refine .inr ⟨[], site, sites, rfl, by simpa using distinct, by simpa using taken, ?_⟩
      rw [List.foldlM_cons, declare_of_taken taken]
      rfl
    · have entered := nodup_extended_singleton distinct taken
      rw [List.foldlM_cons, declare_of_fresh taken, List.map_cons, extended_cons]
      rcases ih _ entered with done | ⟨front, clashing, back, rfl, before, present, failed⟩
      · exact .inl done
      · refine .inr ⟨site :: front, clashing, back, rfl, ?_, ?_, failed⟩
        · rw [List.map_cons, extended_cons]
          exact before
        · rw [List.map_cons, extended_cons]
          exact present

theorem symbols_ofModules (units : List SourceUnit) : (ofModules units).symbols = [] := by
  have kept (names : List String) (table : SymbolTable) :
      (names.foldl addModule table).symbols = table.symbols := by
    induction names generalizing table with
    | nil => rfl
    | cons name names ih =>
      rw [List.foldl_cons, ih]
      unfold addModule
      split <;> rfl
  exact kept _ _

end SymbolTable

/-! ### Declarations of the trees of a program -/

def bindingsIn (units : List SourceUnit) : List (SourceUnit × Binding) :=
  units.flatMap fun unit => unit.bindings.map fun binding => (unit, binding)

theorem bindingsIn_eq {units : List SourceUnit} (compiled : ∀ unit ∈ units, unit.Compiled) :
    bindingsIn units =
      (declarationsIn units).map fun site => (site.1, site.2.binding) := by
  rw [bindingsIn, declarationsIn, List.map_flatMap]
  refine List.flatMap_congr fun unit member => ?_
  rw [← (compiled unit member).bindings_eq]
  simp [Function.comp_def]

theorem key_symbolAt (site : SourceUnit × Declaration) :
    (symbolAt site).key = site.2.binding.key := rfl

theorem collected_or_clashes (units : List SourceUnit) :
    ((declarationsIn units).map fun site => site.2.binding.key).Nodup ∧
        (∃ table, units.foldlM SymbolTable.declareAll (SymbolTable.ofModules units) = .ok table ∧
          table.symbols = (declarationsIn units).map symbolAt) ∨
      ∃ front site back, declarationsIn units = front ++ site :: back ∧
        (front.map fun site => site.2.binding.key).Nodup ∧
        site.2.binding.key ∈ front.map (fun site => site.2.binding.key) ∧
        units.foldlM SymbolTable.declareAll (SymbolTable.ofModules units) =
          .error (site.1.clash site.2) := by
  have empty := SymbolTable.symbols_ofModules units
  have keys (sites : List (SourceUnit × Declaration)) :
      ((SymbolTable.ofModules units).extended (sites.map symbolAt)).keys =
        sites.map fun site => site.2.binding.key := by
    simp [SymbolTable.keys, SymbolTable.extended, empty, Function.comp_def, key_symbolAt]
  have begun : (SymbolTable.ofModules units).keys.Nodup := by simp [SymbolTable.keys, empty]
  rw [SymbolTable.foldlM_declareAll]
  rcases SymbolTable.declared_or_clashes (declarationsIn units) _ begun with
    ⟨distinct, done⟩ | ⟨front, site, back, parted, distinct, taken, failed⟩
  · rw [keys] at distinct
    exact .inl ⟨distinct, _, done, by simp [SymbolTable.extended, empty]⟩
  · rw [keys] at distinct taken
    exact .inr ⟨front, site, back, parted, distinct, taken, failed⟩

/-! ### Analysis -/

theorem analyze_of_clash {units : List SourceUnit} {error : SemanticError}
    (failed : units.foldlM SymbolTable.declareAll (SymbolTable.ofModules units) = .error error) :
    analyze units = .error error := by
  rw [analyze, failed]
  rfl

theorem checkAll_error {table : SymbolTable} {unit : SourceUnit} {error : SemanticError}
    (failed : table.checkAll unit = .error error) : ∃ name, error.fault = .undefined name := by
  unfold SymbolTable.checkAll at failed
  split at failed <;> cases failed
  exact ⟨_, rfl⟩

theorem forM_checkAll_error {table : SymbolTable} {units : List SourceUnit}
    {error : SemanticError} (failed : units.forM table.checkAll = .error error) :
    ∃ name, error.fault = .undefined name := by
  induction units with
  | nil => cases failed
  | cons unit units ih =>
    rcases bind_error failed with first | ⟨_, _, others⟩
    · exact checkAll_error first
    · exact ih others

/-- A program whose declarations do not clash is refused for a missing name only. -/
theorem analyze_of_collected {units : List SourceUnit} {table : SymbolTable}
    (collected : units.foldlM SymbolTable.declareAll (SymbolTable.ofModules units) = .ok table) :
    analyze units = .ok table ∨
      ∃ error name, analyze units = .error error ∧ error.fault = .undefined name := by
  cases outcome : analyze units with
  | ok found =>
    obtain ⟨same, collecting, done⟩ := bind_ok outcome
    rw [collected] at collecting
    cases collecting
    dsimp only at done
    split at done
    · cases done
    · obtain ⟨_, _, done⟩ := bind_ok done
      cases done
      exact .inl rfl
  | error error =>
    refine .inr ⟨error, ?_⟩
    rcases bind_error outcome with failed | ⟨same, collecting, failed⟩
    · rw [collected] at failed
      cases failed
    · rw [collected] at collecting
      cases collecting
      dsimp only at failed
      split at failed
      · cases failed
        exact ⟨_, rfl, rfl⟩
      · rcases bind_error failed with failed | ⟨_, _, failed⟩
        · obtain ⟨name, missing⟩ := forM_checkAll_error failed
          exact ⟨name, rfl, missing⟩
        · cases failed

theorem collected_of_analyze {units : List SourceUnit} {table : SymbolTable}
    (analyzed : analyze units = .ok table) :
    units.foldlM SymbolTable.declareAll (SymbolTable.ofModules units) = .ok table := by
  obtain ⟨collected, collecting, _⟩ := bind_ok analyzed
  rcases analyze_of_collected collecting with done | ⟨_, _, failed, _⟩
  · rw [analyzed] at done
    cases done
    exact collecting
  · rw [analyzed] at failed
    cases failed

/-- The table of an analysed program: its declarations, no two of them with the same key. -/
theorem symbols_of_analyze {units : List SourceUnit} {table : SymbolTable}
    (analyzed : analyze units = .ok table) :
    table.symbols = (declarationsIn units).map symbolAt ∧ table.keys.Nodup := by
  have collecting := collected_of_analyze analyzed
  rcases collected_or_clashes units with
    ⟨distinct, found, collected, symbols⟩ | ⟨_, _, _, _, _, _, failed⟩
  · rw [collecting] at collected
    cases collected
    refine ⟨symbols, ?_⟩
    rw [SymbolTable.keys, symbols, List.map_map]
    exact distinct
  · rw [collecting] at failed
    cases failed

/-- A program is refused for a redefinition exactly if two declarations of its trees have the same
scope and name, and then for the first one that repeats an earlier one; otherwise the symbols of
its table are the declarations of its trees. -/
theorem collected_symbols_are_the_declarations_of_the_trees {units : List SourceUnit}
    (compiled : ∀ unit ∈ units, unit.Compiled) :
    ((∃ error kind word, analyze units = .error error ∧ error.fault = .redefined kind word) ↔
      ¬((bindingsIn units).map fun site => site.2.key).Nodup) ∧
    (∀ error kind word, analyze units = .error error → error.fault = .redefined kind word →
      ∃ front unit binding back, bindingsIn units = front ++ (unit, binding) :: back ∧
        (front.map fun site => site.2.key).Nodup ∧
        binding.key ∈ front.map (fun site => site.2.key) ∧
        kind = binding.kind ∧ word = binding.word ∧ error.path = unit.path.text) ∧
    (((bindingsIn units).map fun site => site.2.key).Nodup →
      ∃ table, units.foldlM SymbolTable.declareAll (SymbolTable.ofModules units) = .ok table ∧
        (table.symbols.map fun symbol => (symbol.kind, symbol.name, symbol.scope, symbol.unit)) =
          ((bindingsIn units).map fun site =>
            (site.2.kind, site.2.name, site.2.scope, site.1.name)) ∧
        (analyze units = .ok table ∨
          ∃ error name, analyze units = .error error ∧ error.fault = .undefined name)) := by
  rw [bindingsIn_eq compiled, List.map_map]
  rcases collected_or_clashes units with
    ⟨distinct, table, collected, symbols⟩ | ⟨front, site, back, parted, distinct, taken, failed⟩
  · have accepted : ∀ error kind word, analyze units = .error error →
        error.fault ≠ .redefined kind word := by
      intro error kind word refused redefined
      rcases analyze_of_collected collected with done | ⟨found, name, done, missing⟩
      · rw [done] at refused
        cases refused
      · rw [done] at refused
        cases refused
        rw [missing] at redefined
        cases redefined
    refine ⟨⟨?_, fun clash => absurd distinct clash⟩, ?_, fun _ => ⟨table, collected, ?_, ?_⟩⟩
    · rintro ⟨error, kind, word, refused, redefined⟩
      exact absurd redefined (accepted error kind word refused)
    · intro error kind word refused redefined
      exact absurd redefined (accepted error kind word refused)
    · rw [symbols, List.map_map, List.map_map]
      rfl
    · exact analyze_of_collected collected
  · have refused := analyze_of_clash failed
    have repeats : ¬((declarationsIn units).map fun site => site.2.binding.key).Nodup := by
      rw [parted, List.map_append, List.nodup_append]
      rintro ⟨_, _, apart⟩
      exact apart _ taken _ List.mem_cons_self rfl
    refine ⟨⟨fun _ => repeats, fun _ => ⟨_, _, _, refused, rfl⟩⟩, ?_, fun distinct =>
      absurd distinct repeats⟩
    intro error kind word found redefined
    rw [refused] at found
    cases found
    cases redefined
    refine ⟨front.map fun site => (site.1, site.2.binding), site.1, site.2.binding,
      back.map fun site => (site.1, site.2.binding), ?_, ?_, ?_, rfl, rfl, rfl⟩
    · rw [parted, List.map_append, List.map_cons]
    · simpa [Function.comp_def] using distinct
    · simpa [Function.comp_def] using taken

theorem local_value_named_like_a_parameter_is_refused :
    ∃ unit error, (∀ other ∈ [unit], other.Compiled) ∧ analyze [unit] = .error error ∧
      error.fault = .redefined .localValue "n" ∧
      ∃ front owner binding back, bindingsIn [unit] = front ++ (owner, binding) :: back ∧
        binding.kind = .localValue ∧ binding.word = "n" ∧
        binding.key ∈ front.map (fun site => site.2.key) := by
  have failed : (do
      let unit ← unitOf none "fn f(n) {
local n
}
fn main() {
}
"
      return ((analyze [unit]).mapError (·.fault)).map fun _ => ()) =
        some (.error (.redefined .localValue "n")) := by decide +kernel
  obtain ⟨unit, read, failed⟩ := Option.bind_eq_some_iff.mp failed
  have compiled : ∀ other ∈ [unit], other.Compiled := by simp [compiled_of_unitOf read]
  have failed := Option.some.inj failed
  cases outcome : analyze [unit] with
  | ok table => rw [outcome] at failed; cases failed
  | error error =>
    rw [outcome] at failed
    have fault := Except.error.inj failed
    obtain ⟨front, owner, binding, back, parted, _, taken, kind, word, _⟩ :=
      (collected_symbols_are_the_declarations_of_the_trees compiled).2.1 error _ _ outcome fault
    exact ⟨unit, error, compiled, outcome, fault, front, owner, binding, back, parted, kind.symm,
      word.symm, taken⟩

end StackLang
