import StackLang.Proofs.GeneratedCode

/-! The words that code is made of. A name in the code of an analysed program is an identifier of a
source, behind the name of a unit if it is known everywhere; a number is a numeral; and C code is
balanced. The code of a statement takes them from the words of the statement and from the table. -/
namespace StackLang

open StackLang.Outcome

/-! ### Spelled code -/

section Spelled

variable (units : List String)

def Expression.Spelled : Expression → Prop
  | .number literal => Lexeme.Numeral literal.toList
  | .constant unit name => unit ∈ units ∧ Lexeme.isIdentifier name = true
  | .slot name | .address name => Lexeme.isIdentifier name = true
  | .code _ | .iterator _ => True

def Callee.Spelled : Callee → Prop
  | .primitive name => Primitive.isName name = true
  | .function unit name => unit ∈ units ∧ Lexeme.isIdentifier name = true
  | .value expression => expression.Spelled units

/-- The names in a step are identifiers, of units of some names, its numbers are numerals, and its C
code is balanced. -/
def Step.Spelled : Step → Prop
  | .call callee arguments =>
    callee.Spelled units ∧ ∀ argument ∈ arguments, argument.Spelled units
  | .verbatim code => Text.Balanced code.toList
  | .take name | .label name | .jump _ name => Lexeme.isIdentifier name = true
  | .openCounted _ start step stop => ∀ bound ∈ [start, step, stop], bound.Spelled units
  | _ => True

def Heading.Spelled : Heading → Prop
  | .entry => True
  | .named unit name => unit ∈ units ∧ Lexeme.isIdentifier name = true

def Definition.Spelled : Definition → Prop
  | .function heading parameters steps =>
    heading.Spelled units ∧ (∀ name ∈ parameters, Lexeme.isIdentifier name = true) ∧
      ∀ step ∈ steps, step.Spelled units
  | .constant unit name literal =>
    unit ∈ units ∧ Lexeme.isIdentifier name = true ∧ Lexeme.Numeral literal.toList
  | .verbatim code => Text.Balanced code.toList

def Global.Spelled : Global → Prop
  | .function unit name | .constant unit name => unit ∈ units ∧ Lexeme.isIdentifier name = true

end Spelled

theorem Primitive.isIdentifier_of_isName {name : String} (known : isName name = true) :
    Lexeme.isIdentifier name = true := by
  have all : ∀ entry ∈ named, Lexeme.isIdentifier entry.1 = true := by decide
  obtain ⟨meaning, found⟩ := Option.isSome_iff_exists.mp known
  obtain ⟨front, back, split, _⟩ := List.lookup_eq_some_iff.mp found
  exact all (name, meaning) (by rw [split]; exact List.mem_append_right _ List.mem_cons_self)

/-- The name of a module is made of characters that a word has. -/
theorem isWordPart_of_mem_moduleName {path : Path} {c : Char}
    (member : c ∈ (moduleName path).toList) : Lexeme.isWordPart c = true := by
  simp only [moduleName, String.toList_map, List.mem_map] at member
  obtain ⟨other, _, rfl⟩ := member
  split
  · next word => simp [Lexeme.isWordPart, word]
  · rfl

section Definitions

variable {units : List String}

theorem Expression.Spelled.globals {expression : Expression} (spelled : expression.Spelled units) :
    ∀ global ∈ expression.globals, global.Spelled units := by
  cases expression with
  | constant => exact List.forall_mem_singleton.mpr spelled
  | _ => simp [Expression.globals]

theorem Callee.Spelled.globals {callee : Callee} (spelled : callee.Spelled units) :
    ∀ global ∈ callee.globals, global.Spelled units := by
  cases callee with
  | primitive => simp [Callee.globals]
  | function => exact List.forall_mem_singleton.mpr spelled
  | value => exact Expression.Spelled.globals spelled

theorem Step.Spelled.globals {step : Step} (spelled : step.Spelled units) :
    ∀ global ∈ step.globals, global.Spelled units := by
  cases step with
  | call callee arguments =>
    rw [Step.globals, List.forall_mem_append]
    refine ⟨?_, spelled.1.globals⟩
    intro global member
    obtain ⟨argument, among, inside⟩ := List.mem_flatMap.mp member
    exact (spelled.2 argument among).globals global inside
  | openCounted =>
    have bounds := fun bound member => (spelled bound member).globals
    simp only [Step.globals, List.forall_mem_append]
    exact ⟨⟨bounds _ (by simp), bounds _ (by simp)⟩, bounds _ (by simp)⟩
  | _ => simp [Step.globals]

theorem Step.Spelled.expressions {step : Step} (spelled : step.Spelled units) :
    ∀ expression ∈ step.expressions, expression.Spelled units := by
  cases step with
  | call callee arguments =>
    refine List.forall_mem_append.mpr ⟨?_, spelled.2⟩
    cases callee with
    | value => exact List.forall_mem_singleton.mpr spelled.1
    | _ => simp [Callee.expressions]
  | openCounted => exact spelled
  | _ => simp [Step.expressions]

theorem Definition.Spelled.globals {definition : Definition} (spelled : definition.Spelled units) :
    ∀ global ∈ definition.globals, global.Spelled units := by
  cases definition with
  | function heading parameters steps =>
    intro global member
    obtain ⟨step, among, inside⟩ := List.mem_flatMap.mp member
    exact (spelled.2.2 step among).globals global inside
  | _ => simp [Definition.globals]

theorem mem_slotsOf {parameters : List String} {steps : List Step} {name : String}
    (member : name ∈ slotsOf parameters steps) : name ∈ parameters ∨ .take name ∈ steps := by
  rw [slotsOf, List.mem_eraseDups, List.mem_append, List.mem_filterMap] at member
  apply member.imp_right
  rintro ⟨step, among, taken⟩
  cases step with
  | take other =>
    cases taken
    exact among
  | _ => cases taken

theorem Definition.Spelled.isIdentifier_of_mem_slotsOf {heading : Heading}
    {parameters : List String} {steps : List Step}
    (spelled : (Definition.function heading parameters steps).Spelled units) :
    ∀ name ∈ slotsOf parameters steps, Lexeme.isIdentifier name = true := by
  intro name member
  rcases mem_slotsOf member with given | taken
  · exact spelled.2.1 name given
  · exact spelled.2.2 _ taken

end Definitions

/-! ### Code of spelled words -/

namespace Frame

variable {units : List String} {frame : Frame} {depth inner : Nat} {action : Action}

/-- A frame in which names mean symbols of some units. -/
def Spells (units : List String) (frame : Frame) : Prop :=
  ∀ qualifier name symbol, frame.lookup qualifier name = some symbol →
    symbol.unit ∈ units ∧ Lexeme.isIdentifier symbol.baseName = true

theorem Yields.spelled {expression : Expression} (yields : frame.Yields depth action expression)
    (spells : frame.Spells units) (words : ∀ word ∈ action.words, IsSpelled word) :
    expression.Spelled units := by
  cases yields with
  | number written => exact (words _ written).number
  | constant _ found => exact spells _ _ _ found
  | slot _ found => exact (spells _ _ _ found).2
  | address written => exact (words _ written).identifier
  | code | iterator => trivial

theorem Calls.spelled {callee : Callee} (calls : frame.Calls depth action callee)
    (spells : frame.Spells units) (words : ∀ word ∈ action.words, IsSpelled word) :
    callee.Spelled units := by
  cases calls with
  | primitive known => exact known
  | function _ found => exact spells _ _ _ found
  | value yields => exact yields.spelled spells words

theorem Lowers.spelled {code : Step} (lowers : frame.Lowers depth action code inner)
    (spells : frame.Spells units) (words : ∀ word ∈ action.words, IsSpelled word) :
    code.Spelled units := by
  cases lowers with
  | call called given =>
    exact ⟨called.spelled spells words, fun cell member => (given cell member).spelled spells words⟩
  | countedLoop bounds => exact fun bound member => (bounds bound member).spelled spells words
  | inlineC => exact (words _ List.mem_cons_self).inlineC
  | takeLocal | label | jump => exact (words _ List.mem_cons_self).identifier
  | endlessLoop | endLoop | breakLoop | continueLoop | pushIterator | leave | reduce => trivial

end Frame

/-! ### Units of a program -/

section Program

variable {units : List SourceUnit} {table : SymbolTable}

/-- The name of a declaration is its word, behind the module if it is known everywhere. -/
theorem SourceUnit.Compiled.binding_name {unit : SourceUnit} (compiled : unit.Compiled)
    {binding : Binding} (member : binding ∈ unit.bindings) :
    ∃ module, binding.name = qualify module binding.word := by
  rcases compiled.binding_cases member with ⟨function, _, inside⟩ | ⟨_, _, name, _, _, rfl⟩
  · rcases Function.binding_cases inside with rfl | ⟨same, _⟩
    · exact ⟨unit.importName, rfl⟩
    · exact ⟨none, same⟩
  · exact ⟨unit.importName, rfl⟩

theorem spells_of_analyze (compiled : ∀ unit ∈ units, unit.Compiled)
    (analyzed : analyze units = .ok table) {frame : Frame} (looks : frame.table = table) :
    frame.Spells (units.map SourceUnit.name) := by
  intro qualifier name symbol found
  rw [Frame.lookup, looks] at found
  obtain ⟨unit, among, binding, bound, owned, _, key, named⟩ :=
    origin_of_mem compiled analyzed (SymbolTable.mem_of_resolve found).1
  obtain ⟨module, spelled⟩ := (compiled unit among).binding_name bound
  have name : symbol.name = qualify module binding.word := (congrArg Prod.snd key).trans spelled
  refine ⟨List.mem_map.mpr ⟨unit, among, owned.symm⟩, ?_⟩
  rw [Symbol.baseName_eq name named]
  exact named

theorem definitions_spelled (compiled : ∀ unit ∈ units, unit.Compiled)
    (analyzed : analyze units = .ok table) {unit : SourceUnit} (member : unit ∈ units)
    {code : UnitCode} (made : UnitCode.ofUnit unit table = .ok code) :
    ∀ definition ∈ code.definitions, definition.Spelled (units.map SourceUnit.name) := by
  have makes := (compiled unit member).makes made
  obtain ⟨top, inside⟩ := (compiled unit member).words_spelled
  have own : unit.name ∈ units.map SourceUnit.name := List.mem_map_of_mem member
  intro definition listed
  cases kind : definition.isFunction with
  | true =>
    obtain ⟨function, among, built⟩ :=
      exists_of_forall₂ makes.functions (List.mem_filter.mpr ⟨listed, kind⟩)
    obtain ⟨heading, steps, headed, stepped, rfl⟩ := UnitFrame.function_ok built
    have words := inside function among
    simp only [Function.words, List.forall_mem_append, List.map_cons, List.forall_mem_cons,
      List.forall_mem_map, List.forall_mem_flatMap] at words
    obtain ⟨⟨name, given⟩, body⟩ := words
    refine ⟨?_, fun parameter among => (given parameter among).identifier, ?_⟩
    · unfold UnitFrame.heading at headed
      split_ifs at headed <;> cases headed
      · trivial
      · exact ⟨own, name.identifier⟩
    · intro step among
      obtain ⟨statement, written, _, _, lowers⟩ :=
        exists_of_forall₂ (Frame.lowers_of_steps stepped) among
      exact lowers.spelled (spells_of_analyze compiled analyzed rfl) (body statement written)
  | false =>
    obtain ⟨statement, among, defined⟩ := makes.plain definition listed kind
    have words := top statement among
    unfold Action.definition? at defined
    split at defined
    · next constant =>
      cases defined
      simp only [constant, Action.words, List.forall_mem_cons] at words
      exact ⟨own, words.1.identifier, words.2.1.number⟩
    · next inline =>
      cases defined
      simp only [inline, Action.words, List.forall_mem_singleton] at words
      exact words.inlineC
    · cases defined

end Program

end StackLang
