import StackLang.Proofs.References
import StackLang.Proofs.Scanning

/-! Names that are analysed and names that are lowered. The analysis reads tokens and the
generator reads a tree; in an analysed program the generator misses only a name that the analysis
lets pass for another reason, as a primitive or as a module. -/
namespace StackLang

open StackLang.Outcome

/-! ### Analysed programs -/

namespace SymbolTable

theorem mem_modules_addModule (table : SymbolTable) (name other : String) :
    other ∈ (table.addModule name).modules ↔ other ∈ table.modules ∨ other = name := by
  unfold addModule
  split
  · next present =>
    constructor
    · exact .inl
    · rintro (member | rfl)
      · exact member
      · exact present
  · simp

theorem mem_modules_foldl (names : List String) (table : SymbolTable) (other : String) :
    other ∈ (names.foldl addModule table).modules ↔ other ∈ table.modules ∨ other ∈ names := by
  induction names generalizing table with
  | nil => simp
  | cons name names ih => rw [List.foldl_cons, ih, mem_modules_addModule, List.mem_cons, or_assoc]

theorem isModule_ofModules {units : List SourceUnit} {name : String}
    (known : (ofModules units).isModule name = true) :
    ∃ unit ∈ units, unit.importName = some name := by
  have listed : name ∈ (ofModules units).modules := by simpa [isModule] using known
  rw [ofModules, mem_modules_foldl] at listed
  rcases listed with absurd | listed
  · cases absurd
  · exact List.mem_filterMap.mp listed

theorem modules_declare {unit : SourceUnit} {table after : SymbolTable}
    {declaration : Declaration} (done : table.declare unit declaration = .ok after) :
    after.modules = table.modules := by
  unfold declare insert at done
  cases found : table.find? (unit.symbolOf declaration).key with
  | some present => rw [found] at done; cases done
  | none => rw [found] at done; cases done; rfl

theorem modules_declareAll {table after : SymbolTable} {unit : SourceUnit}
    (done : table.declareAll unit = .ok after) : after.modules = table.modules :=
  foldlM_keeps (fun _ _ _ _ before declared => (modules_declare declared).trans before) rfl done

theorem isKnown_of_checkAll {table : SymbolTable} {unit : SourceUnit}
    (checked : table.checkAll unit = .ok ()) :
    ∀ reference ∈ unit.references, reference.isKnown unit.importName table = true := by
  unfold checkAll at checked
  split at checked
  · cases checked
  · next none => simpa using none

end SymbolTable

structure Analyzed (units : List SourceUnit) (table : SymbolTable) : Prop where
  known : ∀ unit ∈ units, ∀ reference ∈ unit.references,
    reference.isKnown unit.importName table = true
  imported : ∀ name, table.isModule name = true → ∃ unit ∈ units, unit.importName = some name

theorem analyzed_of_analyze {units : List SourceUnit} {table : SymbolTable}
    (done : analyze units = .ok table) : Analyzed units table := by
  obtain ⟨declared, declaring, done⟩ := bind_ok done
  have modules : declared.modules = (SymbolTable.ofModules units).modules :=
    foldlM_keeps (fun _ _ _ _ before all => (SymbolTable.modules_declareAll all).trans before) rfl
      declaring
  dsimp only at done
  split at done
  · cases done
  · obtain ⟨_, checked, done⟩ := bind_ok done
    cases done
    refine ⟨fun unit member => table.isKnown_of_checkAll (forM_ok checked unit member), ?_⟩
    intro name known
    refine SymbolTable.isModule_ofModules ?_
    rwa [SymbolTable.isModule, ← modules]

/-! ### Names of the tree -/

def SourceUnit.Compiled (unit : SourceUnit) : Prop :=
  ∃ (blank : SourceUnit) (files : Files) (search later : Search) (content : List UInt8)
    (imports : List Path), blank.compile files search content = (.ok (unit, imports), later)

theorem SourceUnit.Compiled.parsed {unit : SourceUnit} (compiled : unit.Compiled) :
    ∃ tree, unit.tree = some tree ∧ SourceTree.parse unit.path unit.tokens = .ok tree ∧
      ∀ token ∈ unit.tokens, token.kind = .identifier →
        Lexeme.isIdentifier token.literal = true := by
  obtain ⟨blank, files, search, later, content, imports, done⟩ := compiled
  obtain ⟨tree, stream, scanned, parsed, rfl⟩ := SourceUnit.compile_ok done
  exact ⟨tree, rfl, parsed, TokenStream.ofBytes_identifier scanned⟩

theorem mem_references {module : Option String} {around : Surroundings} {tokens : List Token}
    {reference : Reference} (member : reference ∈ references module around tokens) :
    reference.site ∈ tokens ∧ reference.site.kind = .identifier := by
  induction tokens generalizing around with
  | nil => cases member
  | cons token tokens ih =>
    rw [references] at member
    split at member
    · next named =>
      rcases List.mem_cons.mp member with rfl | later
      · exact ⟨List.mem_cons_self, named.1⟩
      · exact (ih later).imp_left (List.mem_cons_of_mem _)
    · exact (ih member).imp_left (List.mem_cons_of_mem _)

theorem Function.lookups_of_mention {function : Function} {mention : Mention}
    (module : Option String) (member : mention ∈ function.mentions) :
    mention.lookups (some (qualify module function.name)) ⊆ function.lookups module := by
  obtain ⟨statement, among, named⟩ := List.mem_flatMap.mp member
  intro lookup here
  refine List.mem_flatMap.mpr ⟨statement, among, ?_⟩
  unfold Action.lookups
  split
  · next jumps => rw [jumps] at named; cases named
  · exact List.mem_flatMap.mpr ⟨mention, named, here⟩

theorem Mention.named_mem_lookups (function : Option String) (mention : Mention) :
    ⟨.named mention.module, function, mention.name⟩ ∈ mention.lookups function := by
  unfold lookups
  split
  · next owned => simp [owned]
  · next unowned => simp [unowned]

/-- A name of the tree is a name that the analysis has looked up, inside the same function. -/
theorem SourceUnit.Compiled.reference {unit : SourceUnit} {tree : SourceTree}
    (compiled : unit.Compiled) (held : unit.tree = some tree) {function : Function}
    (among : function ∈ tree.functions) {mention : Mention} (member : mention ∈ function.mentions) :
    Lexeme.isIdentifier mention.name = true ∧
      ∃ reference ∈ unit.references,
        reference.lookup = ⟨.named mention.module,
          some (qualify unit.importName function.name), mention.name⟩ := by
  obtain ⟨parsedTree, same, parsed, identifiers⟩ := compiled.parsed
  obtain rfl := Option.some.inj (held.symm.trans same)
  have found := lookups_of_file unit.importName (file_of_parse parsed) Surroundings.calm_start
    function among (function.lookups_of_mention unit.importName member
      (mention.named_mem_lookups _))
  obtain ⟨reference, listed, looked⟩ := List.mem_map.mp found
  obtain ⟨inside, named⟩ := mem_references listed
  refine ⟨?_, reference, listed, looked⟩
  have spelled : reference.site.literal = mention.name := congrArg Lookup.name looked
  rw [← spelled]
  exact identifiers _ inside named

theorem Reference.resolves {reference : Reference} {module function qualifier : Option String}
    {name : String} {table : SymbolTable}
    (looked : reference.lookup = ⟨.named qualifier, function, name⟩)
    (known : reference.isKnown module table = true) :
    (table.resolve module function qualifier name).isSome = true ∨
      qualifier = none ∧ (Primitive.isName name = true ∨ table.isModule name = true) := by
  obtain ⟨role, inside, site⟩ := reference
  obtain ⟨rfl, rfl, rfl⟩ := Lookup.mk.inj looked
  cases qualifier with
  | none =>
    have passed : (Primitive.isName site.literal = true ∨ table.isModule site.literal = true) ∨
        (table.resolve module inside none site.literal).isSome = true := by
      simpa [isKnown] using known
    exact passed.symm.imp_right fun other => ⟨rfl, other⟩
  | some owner => exact .inl (by simpa [isKnown] using known)

theorem Analyzed.resolves {units : List SourceUnit} {table : SymbolTable}
    (analyzed : Analyzed units table) {unit : SourceUnit} (member : unit ∈ units)
    (compiled : unit.Compiled) {tree : SourceTree} (held : unit.tree = some tree)
    {function : Function} (among : function ∈ tree.functions) {mention : Mention}
    (named : mention ∈ function.mentions) (entry : Bool) :
    ((UnitFrame.within ⟨unit.name, unit.importName, table⟩ function.name entry).lookup
        mention.module mention.name).isSome = true ∨
      mention.module = none ∧ (Primitive.isName mention.name = true ∨
        ∃ other ∈ units, other.importName = some mention.name) := by
  obtain ⟨_, reference, listed, looked⟩ := compiled.reference held among named
  rcases reference.resolves looked (analyzed.known unit member reference listed) with
    found | ⟨unqualified, primitive | module⟩
  · exact .inl found
  · exact .inr ⟨unqualified, .inl primitive⟩
  · exact .inr ⟨unqualified, .inr (analyzed.imported _ module)⟩

/-- In an analysed program every name that the generator looks up is found, wherever it stands,
unless it is unqualified and the name of a primitive or of an imported unit. So a unit is refused
for an unresolved name only if this is such an identifier, and if it is the name of a primitive
alone, then one that is not called. -/
theorem analyzed_unit_misses_primitives_and_modules_only {units : List SourceUnit}
    (compiled : ∀ unit ∈ units, unit.Compiled) {table : SymbolTable}
    (analyzed : analyze units = .ok table) {unit : SourceUnit} (member : unit ∈ units) :
    ∃ tree, unit.tree = some tree ∧
      (∀ function ∈ tree.functions, ∀ mention ∈ function.mentions, ∀ entry,
        ((UnitFrame.within ⟨unit.name, unit.importName, table⟩ function.name entry).lookup
          mention.module mention.name).isSome = true ∨
        mention.module = none ∧ (Primitive.isName mention.name = true ∨
          ∃ other ∈ units, other.importName = some mention.name)) ∧
      ∀ settings name, generate settings unit table = .error (.unresolved name) →
        Lexeme.isIdentifier name = true ∧
          ∃ function ∈ tree.functions, ∃ mention ∈ function.mentions,
            mention.module = none ∧ mention.name = name ∧
            (Primitive.isName name = true ∧ mention.isCall = false ∨
              ∃ other ∈ units, other.importName = some name) := by
  obtain ⟨tree, held, parsed, _⟩ := (compiled unit member).parsed
  have resolves {function : Function} (among : function ∈ tree.functions) {mention : Mention}
      (named : mention ∈ function.mentions) :=
    (analyzed_of_analyze analyzed).resolves member (compiled unit member) held among named
  refine ⟨tree, held, fun function among mention named => resolves among named, ?_⟩
  intro settings name failed
  rcases refuses_of_generate parsed held failed with ⟨_, other⟩ |
    ⟨function, among, mention, named, entry, refuses⟩
  · cases other
  rcases refuses.cases with other | ⟨other, _⟩ | ⟨missed, unknown, uncalled⟩
  · cases other
  · cases other
  rcases resolves among named entry with found | ⟨unqualified, passed⟩
  · rw [unknown] at found
    cases found
  obtain rfl : name = mention.name := by
    rw [CodeError.unresolved.inj missed, Mention.text, unqualified]
    rfl
  obtain ⟨spelled, _⟩ := (compiled unit member).reference held among named
  refine ⟨spelled, function, among, mention, named, unqualified, rfl, ?_⟩
  refine passed.imp_left fun primitive => ⟨primitive, ?_⟩
  simpa [unqualified, primitive] using uncalled

/-- A unit read from a text that imports nothing. -/
def unitOf (importName : Option String) (text : String) : Option SourceUnit :=
  (SourceUnit.compile ⟨⟨"/src/main.qd"⟩, importName, [], none⟩ ⟨[], []⟩ ⟨[], []⟩
    text.toUTF8.toList).1.toOption.map Prod.fst

theorem compiled_of_unitOf {importName : Option String} {text : String} {unit : SourceUnit}
    (read : unitOf importName text = some unit) : unit.Compiled := by
  obtain ⟨⟨found, imports⟩, done, rfl⟩ := Option.map_eq_some_iff.mp read
  exact ⟨_, _, _, _, _, imports, Prod.ext (eq_ok_of_toOption done) rfl⟩

theorem module_passed_as_a_value_is_unresolved :
    ∃ main geometry table, analyze [main, geometry] = .ok table ∧
      generate {} main table = .error (.unresolved "geometry") ∧
      Lexeme.isIdentifier "geometry" = true ∧
      (∀ unit ∈ [main, geometry], unit.Compiled) ∧
      ∃ tree, main.tree = some tree ∧ ∃ function ∈ tree.functions, ∃ mention ∈ function.mentions,
        mention.name = "geometry" := by
  have failed : (do
      let main ← unitOf none "fn main() {
geometry::area
push geometry
}
"
      let geometry ← unitOf (some "geometry") "fn area() {
mul
}
"
      let table ← (analyze [main, geometry]).toOption
      return generate {} main table) = some (.error (.unresolved "geometry")) := by decide +kernel
  obtain ⟨main, first, failed⟩ := Option.bind_eq_some_iff.mp failed
  obtain ⟨geometry, second, failed⟩ := Option.bind_eq_some_iff.mp failed
  obtain ⟨table, analyzed, failed⟩ := Option.bind_eq_some_iff.mp failed
  have refused := Option.some.inj failed
  have compiled : ∀ unit ∈ [main, geometry], unit.Compiled := by
    simp [compiled_of_unitOf first, compiled_of_unitOf second]
  obtain ⟨tree, held, _, misses⟩ := analyzed_unit_misses_primitives_and_modules_only compiled
    (eq_ok_of_toOption analyzed) List.mem_cons_self
  obtain ⟨spelled, function, among, mention, named, _, same, _⟩ := misses {} _ refused
  exact ⟨main, geometry, table, eq_ok_of_toOption analyzed, refused, spelled, compiled, tree, held,
    function, among, mention, named, same⟩

end StackLang
