import StackLang.Proofs.CNames
import StackLang.Proofs.ReferenceCheck
import StackLang.Proofs.Words

/-! What the code of a program is made from. A statement is lowered in one of a few ways, a file has
a definition for every function and constant of its tree, and a symbol of the table of an analysed
program leads back to the function or the constant that declares it. -/
namespace StackLang

open StackLang.Grammar StackLang.Outcome

/-! ### Code of a statement -/

def Callee.expressions : Callee → List Expression
  | .value expression => [expression]
  | _ => []

def Step.expressions : Step → List Expression
  | .call callee arguments => callee.expressions ++ arguments
  | .openCounted _ start step stop => [start, step, stop]
  | _ => []

namespace Action

def arguments : Action → List Argument
  | .call _ _ arguments => arguments
  | .countedLoop start step stop => [start, step, stop]
  | _ => []

variable {action : Action} {argument : Argument}

theorem words_of_mem (given : argument ∈ action.arguments) : argument.words ⊆ action.words := by
  cases action with
  | call name module arguments =>
    exact fun word inside =>
      List.mem_append_right _ (List.mem_flatMap.mpr ⟨argument, given, inside⟩)
  | countedLoop start step stop =>
    simp only [arguments, List.mem_cons, List.not_mem_nil, or_false] at given
    rcases given with rfl | rfl | rfl <;> simp [words]
  | _ => cases given

theorem mentions_of_mem (given : argument ∈ action.arguments) {mention : Mention}
    (named : argument.mention? = some mention) : mention ∈ action.mentions := by
  have listed := List.mem_filterMap.mpr ⟨argument, given, named⟩
  cases action with
  | call => exact List.mem_cons_of_mem _ listed
  | countedLoop => exact listed
  | _ => cases given

end Action

namespace Frame

/-- An expression, and the words of a statement that it was made from. -/
inductive Yields (frame : Frame) (depth : Nat) (action : Action) : Expression → Prop
  | number {literal : String} (written : (.number, literal) ∈ action.words) :
    frame.Yields depth action (.number literal)
  | code (value : Nat) : frame.Yields depth action (.code value)
  | constant {mention : Mention} {symbol : Symbol} (named : mention ∈ action.mentions)
    (found : frame.lookup mention.module mention.name = some symbol)
    (kind : symbol.kind = .constant) :
    frame.Yields depth action (.constant symbol.unit symbol.baseName)
  | slot {mention : Mention} {symbol : Symbol} (named : mention ∈ action.mentions)
    (found : frame.lookup mention.module mention.name = some symbol)
    (kind : symbol.kind = .localValue ∨ symbol.kind = .parameter) :
    frame.Yields depth action (.slot symbol.baseName)
  | address {name : String} {symbol : Symbol} (written : (.identifier, name) ∈ action.words)
    (found : frame.lookup none name = some symbol)
    (kind : symbol.kind = .localValue ∨ symbol.kind = .parameter) :
    frame.Yields depth action (.address name)
  | iterator (inside : 0 < depth) : frame.Yields depth action (.iterator depth)

inductive Calls (frame : Frame) (depth : Nat) (action : Action) : Callee → Prop
  | primitive {name : String} (known : Primitive.isName name = true) :
    frame.Calls depth action (.primitive name)
  | function {mention : Mention} {symbol : Symbol} (named : mention ∈ action.mentions)
    (found : frame.lookup mention.module mention.name = some symbol)
    (kind : symbol.kind = .function) (other : symbol.name ≠ entryPoint) :
    frame.Calls depth action (.function symbol.unit symbol.baseName)
  | value {expression : Expression} (yields : frame.Yields depth action expression) :
    frame.Calls depth action (.value expression)

/-- A statement where `depth` loops are open, its code, and how many loops are open behind it. -/
inductive Lowers (frame : Frame) : Nat → Action → Step → Nat → Prop
  | call {depth : Nat} {name : String} {module : Option String} {arguments : List Argument}
    {callee : Callee} {cells : List Expression}
    (called : frame.Calls depth (.call name module arguments) callee)
    (given : ∀ cell ∈ cells, frame.Yields depth (.call name module arguments) cell) :
    frame.Lowers depth (.call name module arguments) (.call callee cells) depth
  | inlineC {depth : Nat} {code : String} :
    frame.Lowers depth (.inlineC code) (.verbatim code) depth
  | takeLocal {depth : Nat} {name : String} :
    frame.Lowers depth (.takeLocal name) (.take name) depth
  | label {depth : Nat} {name : String} : frame.Lowers depth (.label name) (.label name) depth
  | jump {depth : Nat} {which : Jump} {name : String} :
    frame.Lowers depth (.jump which name) (.jump which name) depth
  | countedLoop {depth : Nat} {start step stop : Argument} {first by' last : Expression}
    (bounds : ∀ bound ∈ [first, by', last],
      frame.Yields depth (.countedLoop start step stop) bound) :
    frame.Lowers depth (.countedLoop start step stop) (.openCounted (depth + 1) first by' last)
      (depth + 1)
  | endlessLoop {depth : Nat} :
    frame.Lowers depth .endlessLoop (.openEndless (depth + 1)) (depth + 1)
  | endLoop {depth : Nat} : frame.Lowers (depth + 1) .endLoop .close depth
  | breakLoop {depth : Nat} : frame.Lowers depth .breakLoop .breakLoop depth
  | continueLoop {depth : Nat} : frame.Lowers depth .continueLoop .continueLoop depth
  | pushIterator {depth : Nat} (inside : 0 < depth) :
    frame.Lowers depth .pushIterator (.pushIterator depth) depth
  | leave {depth : Nat} : frame.Lowers depth .leave (.leave frame.entry) depth
  | reduce {depth : Nat} {reduction : Reduction} :
    frame.Lowers depth (.reduce reduction) (.reduce reduction) depth

variable {frame : Frame} {depth : Nat} {action : Action}

theorem yields_valueOf {mention : Mention} {symbol : Symbol} (named : mention ∈ action.mentions)
    (found : frame.lookup mention.module mention.name = some symbol)
    (valued : symbol.kind.isValue = true) : frame.Yields depth action (valueOf symbol) := by
  unfold valueOf
  split
  · next kind => exact .constant named found kind
  · next other =>
    refine .slot named found ?_
    cases kind : symbol.kind <;> simp_all [SymbolKind.isValue]

theorem iterator_ok {found : Nat} (done : iterator depth = .ok found) :
    found = depth ∧ 0 < depth := by
  unfold iterator at done
  split at done
  · next inside =>
    cases done
    exact ⟨rfl, inside⟩
  · cases done

theorem yields_of_scalar {argument : Argument} {expression : Expression}
    (given : argument ∈ action.arguments) (done : frame.scalar depth argument = .ok expression) :
    frame.Yields depth action expression := by
  have written := Action.words_of_mem given
  cases argument with
  | number literal =>
    cases done
    exact .number (written List.mem_cons_self)
  | string text => cases done
  | named module name =>
    rw [scalar, named] at done
    split at done
    · next symbol found =>
      split at done <;> cases done
      next valued => exact yields_valueOf (Action.mentions_of_mem given rfl) found valued
    · cases done
  | address name =>
    rw [scalar, address] at done
    split at done
    · next symbol found =>
      split at done <;> cases done
      next kind => exact .address (written List.mem_cons_self) found kind
    · cases done
  | iterator =>
    rw [scalar] at done
    cases counted : iterator depth with
    | error error => rw [counted] at done; cases done
    | ok count =>
      rw [counted] at done
      cases done
      obtain ⟨rfl, inside⟩ := iterator_ok counted
      exact .iterator inside

theorem mem_textCells {text : String} {cell : Expression} (member : cell ∈ textCells text) :
    ∃ value, cell = .code value := by
  simp only [textCells, List.cons_append, List.mem_cons, List.mem_append, List.mem_map,
    List.not_mem_nil, or_false] at member
  rcases member with first | ⟨c, _, rfl⟩ | last
  · exact ⟨_, first⟩
  · exact ⟨_, rfl⟩
  · exact ⟨_, last⟩

theorem yields_of_cells {argument : Argument} {cells : List Expression}
    (given : argument ∈ action.arguments) (done : frame.cells depth argument = .ok cells) :
    ∀ cell ∈ cells, frame.Yields depth action cell := by
  unfold Frame.cells at done
  split at done
  · cases done
    intro cell member
    obtain ⟨value, rfl⟩ := mem_textCells member
    exact .code value
  · cases lowered : frame.scalar depth argument with
    | error error => rw [lowered] at done; cases done
    | ok expression =>
      rw [lowered] at done
      cases done
      intro cell member
      rw [List.mem_singleton.mp member]
      exact yields_of_scalar given lowered

theorem calls_of_callee {name : String} {module : Option String} {callee : Callee}
    (mentioned : .called module name ∈ action.mentions)
    (done : frame.callee name module = .ok callee) : frame.Calls depth action callee := by
  unfold Frame.callee at done
  dsimp only at done
  split at done
  · next symbol found =>
    split at done
    · next kind =>
      split at done <;> cases done
      next other => exact .function mentioned found kind other
    · split at done
      · next known =>
        cases done
        exact .primitive (Bool.and_eq_true_iff.mp known).2
      · split at done <;> cases done
        next valued => exact .value (yields_valueOf mentioned found valued)
  · split at done <;> cases done
    next known => exact .primitive (Bool.and_eq_true_iff.mp known).2

theorem call_ok {name : String} {module : Option String} {arguments : List Argument}
    {code : Step} (done : frame.call depth name module arguments = .ok code) :
    frame.Lowers depth (.call name module arguments) code depth := by
  obtain ⟨groups, given, done⟩ := bind_ok done
  obtain ⟨callee, called, done⟩ := bind_ok done
  cases done
  refine .call (calls_of_callee List.mem_cons_self called) ?_
  intro cell member
  obtain ⟨group, among, inside⟩ := List.mem_flatten.mp member
  obtain ⟨argument, passed, lowered⟩ := exists_of_forall₂ (mapM_ok_iff.mp given) among
  exact yields_of_cells passed lowered cell inside

theorem counted_ok {start step stop : Argument} {code : Step}
    (done : frame.counted depth start step stop = .ok code) :
    frame.Lowers depth (.countedLoop start step stop) code (depth + 1) := by
  obtain ⟨first, started, done⟩ := bind_ok done
  obtain ⟨by', stepped, done⟩ := bind_ok done
  obtain ⟨last, stopped, done⟩ := bind_ok done
  cases done
  refine .countedLoop ?_
  simp only [List.forall_mem_cons]
  exact ⟨yields_of_scalar (by simp [Action.arguments]) started,
    yields_of_scalar (by simp [Action.arguments]) stepped,
    yields_of_scalar (by simp [Action.arguments]) stopped, by simp⟩

theorem lowers_of_step {action : Action} {code : Step} {inner : Nat}
    (done : frame.step depth action = .ok (code, inner)) :
    frame.Lowers depth action code inner := by
  cases action with
  | call name module arguments =>
    obtain ⟨lowered, calling, done⟩ := bind_ok done
    cases done
    exact call_ok calling
  | countedLoop start step stop =>
    obtain ⟨lowered, counting, done⟩ := bind_ok done
    cases done
    exact counted_ok counting
  | pushIterator =>
    obtain ⟨count, counting, done⟩ := bind_ok done
    obtain ⟨rfl, inside⟩ := iterator_ok counting
    cases done
    exact .pushIterator inside
  | endLoop =>
    cases depth with
    | zero => cases done
    | succ depth =>
      cases done
      exact .endLoop
  | importModule | function | body | constant => cases done
  | inlineC | takeLocal | label | jump | endlessLoop | breakLoop | continueLoop | leave | reduce =>
    cases done
    constructor

theorem Lowers.yields {code : Step} {inner : Nat} (lowers : frame.Lowers depth action code inner) :
    ∀ expression ∈ code.expressions, frame.Yields depth action expression := by
  cases lowers with
  | call called given =>
    intro expression member
    rcases List.mem_append.mp member with named | passed
    · cases called with
      | value yields =>
        rw [List.mem_singleton.mp named]
        exact yields
      | _ => cases named
    · exact given expression passed
  | countedLoop bounds => exact bounds
  | _ => simp [Step.expressions]

/-- The code of a body is the code of its statements. -/
theorem lowers_of_steps {statements : List Statement} {steps : List Step}
    (done : frame.steps depth statements = .ok steps) :
    List.Forall₂ (fun statement step => ∃ around inner,
      frame.Lowers around statement.action step inner) statements steps := by
  induction statements generalizing depth steps with
  | nil =>
    rw [Frame.steps] at done
    split at done <;> cases done
    exact .nil
  | cons statement statements ih =>
    obtain ⟨⟨code, inner⟩, first, done⟩ := bind_ok done
    obtain ⟨others, later, done⟩ := bind_ok done
    cases done
    exact .cons ⟨depth, inner, lowers_of_step first⟩ (ih later)

end Frame

/-! ### Definitions of a file -/

def Definition.isFunction : Definition → Bool
  | .function _ _ _ => true
  | .constant _ _ _ | .verbatim _ => false

/-- What a statement at the top of a file defines by itself. -/
def Action.definition? (unit : String) : Action → Option Definition
  | .constant name literal => some (.constant unit name literal)
  | .inlineC code => some (.verbatim code)
  | _ => none

namespace UnitFrame

/-- What the definitions of a file are: one for every function, in order, one for every constant,
and no others but C code. -/
structure Makes (frame : UnitFrame) (statements : List Statement)
    (definitions : List Definition) : Prop where
  functions : List.Forall₂ (fun function definition =>
      frame.function function.name function.parameters function.statements = .ok definition)
    (functionsOf statements) (definitions.filter Definition.isFunction)
  constants : ∀ statement ∈ statements, ∀ name literal, statement.action = .constant name literal →
    .constant frame.unit name literal ∈ definitions
  plain : ∀ definition ∈ definitions, definition.isFunction = false →
    ∃ statement ∈ statements, statement.action.definition? frame.unit = some definition

variable {frame : UnitFrame} {tokens rest : List Token} {statements others : List Statement}

theorem function_ok {name : String} {parameters : List String}
    {definition : Definition} (done : frame.function name parameters statements = .ok definition) :
    ∃ heading steps, frame.heading name parameters = .ok heading ∧
      (frame.within name (decide (heading = .entry))).steps 0 statements = .ok steps ∧
      definition = .function heading parameters steps := by
  obtain ⟨heading, headed, done⟩ := bind_ok done
  obtain ⟨steps, stepped, done⟩ := bind_ok done
  cases done
  exact ⟨heading, steps, headed, stepped, rfl⟩

theorem Makes.append {here later : List Definition} (first : frame.Makes statements here)
    (second : frame.Makes others later)
    (parted : functionsOf (statements ++ others) = functionsOf statements ++ functionsOf others) :
    frame.Makes (statements ++ others) (here ++ later) where
  functions := by
    rw [parted, List.filter_append]
    exact List.rel_append first.functions second.functions
  constants := by
    intro statement member name literal constant
    rcases List.mem_append.mp member with earlier | behind
    · exact List.mem_append_left _ (first.constants statement earlier name literal constant)
    · exact List.mem_append_right _ (second.constants statement behind name literal constant)
  plain := by
    intro definition member other
    rcases List.mem_append.mp member with earlier | behind
    · obtain ⟨statement, among, defined⟩ := first.plain definition earlier other
      exact ⟨statement, List.mem_append_left _ among, defined⟩
    · obtain ⟨statement, among, defined⟩ := second.plain definition behind other
      exact ⟨statement, List.mem_append_right _ among, defined⟩

theorem makes_declaration {definitions : List Definition}
    (declared : Grammar.Declaration tokens rest statements)
    (done : frame.definitions none (statements ++ others) = .ok definitions) :
    ∃ here later, frame.Makes statements here ∧ frame.definitions none others = .ok later ∧
      definitions = here ++ later := by
  cases declared with
  | blank => exact ⟨[], definitions, ⟨.nil, by simp, by simp⟩, done, rfl⟩
  | use => exact ⟨[], definitions, ⟨.nil, by simp, by simp⟩, done, rfl⟩
  | constant =>
    obtain ⟨later, defined, done⟩ := bind_ok done
    cases done
    refine ⟨[_], later, ⟨.nil, ?_, by simp [Action.definition?]⟩, defined, rfl⟩
    intro statement member name literal constant
    rw [List.mem_singleton.mp member] at constant
    cases constant
    exact List.mem_singleton_self _
  | inlineC =>
    obtain ⟨later, defined, done⟩ := bind_ok done
    cases done
    exact ⟨[_], later, ⟨.nil, by simp, by simp [Action.definition?]⟩, defined, rfl⟩
  | function =>
    obtain ⟨definition, made, done⟩ := bind_ok done
    obtain ⟨later, defined, done⟩ := bind_ok done
    cases done
    obtain ⟨heading, steps, _, _, rfl⟩ := function_ok made
    refine ⟨[_], later, ⟨?_, by simp, by simp [Definition.isFunction]⟩, defined, rfl⟩
    exact .cons made .nil

theorem makes_of_definitions {definitions : List Definition} (file : File tokens statements)
    (done : frame.definitions none statements = .ok definitions) :
    frame.Makes statements definitions := by
  induction file generalizing definitions with
  | done =>
    cases done
    exact ⟨.nil, by simp, by simp⟩
  | declaration first _ ih =>
    obtain ⟨here, later, made, defined, rfl⟩ := makes_declaration first done
    exact made.append (ih defined) (first.functionsOf_append _)

end UnitFrame

theorem definitions_of_ofUnit {unit : SourceUnit} {tree : SourceTree} {table : SymbolTable}
    {code : UnitCode} (held : unit.tree = some tree) (made : UnitCode.ofUnit unit table = .ok code) :
    UnitFrame.definitions ⟨unit.name, unit.importName, table⟩ none tree.statements =
      .ok code.definitions := by
  rw [UnitCode.ofUnit, held] at made
  obtain ⟨definitions, defined, made⟩ := bind_ok made
  cases made
  exact defined

theorem ofUnit_ok {unit : SourceUnit} {table : SymbolTable} {code : UnitCode}
    (made : UnitCode.ofUnit unit table = .ok code) :
    ∃ tree, unit.tree = some tree ∧ code.name = unit.name ∧ code.path = unit.path ∧
      code.includes =
        (importsOf tree.statements).map fun target => CName.header target.name target.path := by
  unfold UnitCode.ofUnit at made
  split at made
  · cases made
  · next tree held =>
    obtain ⟨_, _, made⟩ := bind_ok made
    cases made
    exact ⟨tree, held, rfl, rfl, rfl⟩

theorem ofUnit_of_generate {settings : RuntimeSettings} {unit : SourceUnit} {table : SymbolTable}
    {generated : GeneratedUnit} (done : generate settings unit table = .ok generated) :
    ∃ code, UnitCode.ofUnit unit table = .ok code ∧ generated = code.files settings := by
  obtain ⟨code, made, done⟩ := bind_ok done
  cases done
  exact ⟨code, made, rfl⟩

/-! ### Functions of a program -/

def SourceUnit.functions (unit : SourceUnit) : List Function :=
  functionsOf ((unit.tree.map SourceTree.statements).getD [])

theorem SourceUnit.Compiled.makes {unit : SourceUnit} (compiled : unit.Compiled)
    {table : SymbolTable} {code : UnitCode} (made : UnitCode.ofUnit unit table = .ok code) :
    UnitFrame.Makes ⟨unit.name, unit.importName, table⟩
      ((unit.tree.map SourceTree.statements).getD []) code.definitions := by
  obtain ⟨tree, held, parsed, _⟩ := compiled.parsed
  have defined := definitions_of_ofUnit held made
  rw [held]
  exact UnitFrame.makes_of_definitions (file_of_parse parsed) defined

theorem SourceUnit.Compiled.function_of_definition {unit : SourceUnit} (compiled : unit.Compiled)
    {table : SymbolTable} {code : UnitCode} (made : UnitCode.ofUnit unit table = .ok code)
    {heading : Heading} {parameters : List String} {steps : List Step}
    (defined : .function heading parameters steps ∈ code.definitions) :
    ∃ function ∈ unit.functions, function.parameters = parameters ∧
      (UnitFrame.within ⟨unit.name, unit.importName, table⟩ function.name
        (decide (heading = .entry))).steps 0 function.statements = .ok steps := by
  obtain ⟨function, among, built⟩ :=
    exists_of_forall₂ (compiled.makes made).functions (List.mem_filter.mpr ⟨defined, rfl⟩)
  obtain ⟨_, _, _, stepped, same⟩ := UnitFrame.function_ok built
  cases same
  exact ⟨function, among, rfl, stepped⟩

section Bindings

variable {tokens rest : List Token} {statements : List Statement} (module : Option String)

/-- A declaration of a file is made by a function, or it is a constant. -/
theorem Grammar.Declaration.bindings_cases (declared : Grammar.Declaration tokens rest statements) :
    (functionsOf statements).flatMap (Function.bindings module) = bindingsOf module statements ∨
      functionsOf statements = [] ∧ ∃ name literal span,
        statements = [⟨.constant name literal, span⟩] ∧
        bindingsOf module statements = [⟨.constant, name, qualify module name, none⟩] := by
  cases declared with
  | constant => exact .inr ⟨rfl, _, _, _, rfl, rfl⟩
  | function => exact .inl (by simp [functionsOf, bindingsOf, bodyAhead])
  | _ => exact .inl rfl

theorem Grammar.File.bindings_sublist (file : File tokens statements) :
    List.Sublist ((functionsOf statements).flatMap (Function.bindings module))
      (bindingsOf module statements) := by
  induction file with
  | done => exact List.Sublist.refl _
  | declaration first _ ih =>
    rw [first.functionsOf_append, first.bindingsOf_append, List.flatMap_append]
    refine List.Sublist.append ?_ ih
    rcases first.bindings_cases module with same | ⟨none, _⟩
    · rw [same]
    · rw [none]
      exact List.nil_sublist _

theorem Grammar.File.binding_cases (file : File tokens statements) {binding : Binding}
    (member : binding ∈ bindingsOf module statements) :
    (∃ function ∈ functionsOf statements, binding ∈ function.bindings module) ∨
      ∃ statement ∈ statements, ∃ name literal, statement.action = .constant name literal ∧
        binding = ⟨.constant, name, qualify module name, none⟩ := by
  induction file with
  | done => cases member
  | declaration first _ ih =>
    rw [first.bindingsOf_append] at member
    rw [first.functionsOf_append]
    rcases List.mem_append.mp member with here | later
    · rcases first.bindings_cases module with same | ⟨_, name, literal, span, rfl, only⟩
      · rw [← same] at here
        obtain ⟨function, among, inside⟩ := List.mem_flatMap.mp here
        exact .inl ⟨function, List.mem_append_left _ among, inside⟩
      · rw [only] at here
        refine .inr ⟨_, List.mem_append_left _ List.mem_cons_self, name, literal, rfl, ?_⟩
        exact List.mem_singleton.mp here
    · rcases ih later with ⟨function, among, inside⟩ | ⟨statement, among, constant⟩
      · exact .inl ⟨function, List.mem_append_right _ among, inside⟩
      · exact .inr ⟨statement, List.mem_append_right _ among, constant⟩

end Bindings

def functionsIn (units : List SourceUnit) : List (SourceUnit × Function) :=
  units.flatMap fun unit => unit.functions.map fun function => (unit, function)

theorem mem_functionsIn {units : List SourceUnit} {unit : SourceUnit} {function : Function} :
    (unit, function) ∈ functionsIn units ↔ unit ∈ units ∧ function ∈ unit.functions := by
  simp [functionsIn]

def globalName (site : SourceUnit × Function) : String :=
  qualify site.1.importName site.2.name

/-- What the functions of a program declare is part of what the program declares. -/
theorem keys_functionsIn_sublist {units : List SourceUnit}
    (compiled : ∀ unit ∈ units, unit.Compiled) :
    List.Sublist
      ((functionsIn units).flatMap fun site =>
        (site.2.bindings site.1.importName).map Binding.key)
      ((bindingsIn units).map fun site => site.2.key) := by
  induction units with
  | nil => exact List.Sublist.refl _
  | cons unit units ih =>
    obtain ⟨first, others⟩ := List.forall_mem_cons.mp compiled
    obtain ⟨tree, held, parsed, _⟩ := first.parsed
    have here := ((file_of_parse parsed).bindings_sublist unit.importName).map Binding.key
    have later := ih others
    simp only [functionsIn, bindingsIn, List.flatMap_cons, List.flatMap_append, List.map_append]
      at later ⊢
    refine List.Sublist.append ?_ later
    simpa [SourceUnit.functions, SourceUnit.bindings, held, List.flatMap_map, List.map_flatMap,
      Function.comp_def] using here

theorem nodup_bindingsIn {units : List SourceUnit} (compiled : ∀ unit ∈ units, unit.Compiled)
    {table : SymbolTable} (analyzed : analyze units = .ok table) :
    ((bindingsIn units).map fun site => site.2.key).Nodup := by
  obtain ⟨symbols, distinct⟩ := symbols_of_analyze analyzed
  rw [SymbolTable.keys, symbols, List.map_map] at distinct
  rw [bindingsIn_eq compiled, List.map_map]
  exact distinct

/-- No two functions of an analysed program have the same name in the table. -/
theorem nodup_functionsIn {units : List SourceUnit} (compiled : ∀ unit ∈ units, unit.Compiled)
    {table : SymbolTable} (analyzed : analyze units = .ok table) :
    ((functionsIn units).map globalName).Nodup := by
  have first (sites : List (SourceUnit × Function)) :
      List.Sublist (sites.map fun site => (none, globalName site))
        (sites.flatMap fun site => (site.2.bindings site.1.importName).map Binding.key) := by
    induction sites with
    | nil => exact List.Sublist.refl _
    | cons site sites ih =>
      rw [List.map_cons, List.flatMap_cons]
      refine List.Sublist.cons_cons _ ?_
      exact ih.trans (List.sublist_append_right _ _)
  have distinct := (nodup_bindingsIn compiled analyzed).sublist
    ((first _).trans (keys_functionsIn_sublist compiled))
  refine List.Nodup.of_map (fun name => ((none : Option String), name)) ?_
  rw [List.map_map]
  exact distinct

/-! ### Symbols of a table -/

namespace SymbolTable

theorem mem_of_find? {table : SymbolTable} {key : Option String × String} {symbol : Symbol}
    (found : table.find? key = some symbol) : symbol ∈ table.symbols ∧ symbol.key = key := by
  refine ⟨List.mem_of_find?_eq_some found, ?_⟩
  have matched := List.find?_some found
  exact of_decide_eq_true matched

/-- What a name means is known everywhere or belongs to the function. -/
theorem mem_of_resolve {table : SymbolTable} {module qualifier : Option String}
    {function name : String} {symbol : Symbol}
    (found : table.resolve module (some function) qualifier name = some symbol) :
    symbol ∈ table.symbols ∧ (symbol.scope = none ∨ symbol.key = (some function, name)) := by
  have global {word : String} (found : table.global? word = some symbol) :
      symbol ∈ table.symbols ∧ symbol.scope = none := by
    obtain ⟨member, key⟩ := mem_of_find? found
    exact ⟨member, congrArg Prod.fst key⟩
  cases qualifier with
  | some owner => exact (global found).imp_right .inl
  | none =>
    rw [resolve, Option.bind_some, Option.or_eq_some_iff, Option.or_eq_some_iff] at found
    rcases found with inside | ⟨_, owned | ⟨_, plain⟩⟩
    · exact (mem_of_find? inside).imp_right .inr
    · obtain ⟨owner, _, owned⟩ := Option.bind_eq_some_iff.mp owned
      exact (global owned).imp_right .inl
    · exact (global plain).imp_right .inl

end SymbolTable

theorem Function.binding_cases {function : Function} {module : Option String} {binding : Binding}
    (member : binding ∈ function.bindings module) :
    binding = ⟨.function, function.name, qualify module function.name, none⟩ ∨
      binding.name = binding.word ∧ binding.scope = some (qualify module function.name) ∧
        (binding.kind = .parameter ∧ binding.name ∈ function.parameters ∨
          ∃ statement ∈ function.statements,
            binding ∈ statement.action.bindings (qualify module function.name)) := by
  simp only [Function.bindings, List.cons_append, List.mem_cons, List.mem_append, List.mem_map,
    List.mem_flatMap] at member
  rcases member with rfl | ⟨name, given, rfl⟩ | ⟨statement, among, inside⟩
  · exact .inl rfl
  · exact .inr ⟨rfl, rfl, .inl ⟨rfl, given⟩⟩
  · refine .inr ⟨?_, ?_, .inr ⟨statement, among, inside⟩⟩
    all_goals
      unfold Action.bindings at inside
      split at inside
      · rw [List.mem_singleton.mp inside]
      · rw [List.mem_singleton.mp inside]
      · cases inside

theorem declaration_of_mem {units : List SourceUnit} {table : SymbolTable}
    (analyzed : analyze units = .ok table) {symbol : Symbol} (member : symbol ∈ table.symbols) :
    ∃ owner ∈ units, ∃ declaration ∈ owner.declarations, symbol = owner.symbolOf declaration := by
  rw [(symbols_of_analyze analyzed).1] at member
  obtain ⟨⟨unit, declaration⟩, listed, rfl⟩ := List.mem_map.mp member
  obtain ⟨owner, among, inside⟩ := List.mem_flatMap.mp listed
  obtain ⟨declared, here, same⟩ := List.mem_map.mp inside
  obtain ⟨rfl, rfl⟩ := Prod.mk.inj same
  exact ⟨owner, among, declared, here, rfl⟩

theorem SourceUnit.Compiled.binding_mem {unit : SourceUnit} (compiled : unit.Compiled)
    {declaration : Declaration} (declared : declaration ∈ unit.declarations) :
    declaration.binding ∈ unit.bindings ∧
      Lexeme.isIdentifier declaration.binding.word = true := by
  obtain ⟨_, _, _, identifiers⟩ := compiled.parsed
  have sited := sited_of_mem_declarations declared
  refine ⟨?_, identifiers _ sited.inside sited.identifier⟩
  rw [← compiled.bindings_eq]
  exact List.mem_map_of_mem declared

theorem origin_of_mem {units : List SourceUnit} (compiled : ∀ unit ∈ units, unit.Compiled)
    {table : SymbolTable} (analyzed : analyze units = .ok table) {symbol : Symbol}
    (member : symbol ∈ table.symbols) :
    ∃ unit ∈ units, ∃ binding ∈ unit.bindings, symbol.unit = unit.name ∧
      symbol.kind = binding.kind ∧ symbol.key = binding.key ∧
      Lexeme.isIdentifier binding.word = true := by
  obtain ⟨owner, among, declaration, declared, rfl⟩ := declaration_of_mem analyzed member
  obtain ⟨listed, named⟩ := (compiled owner among).binding_mem declared
  exact ⟨owner, among, declaration.binding, listed, rfl, rfl, rfl, named⟩

/-- A declaration of a unit, with the function that makes it, or the constant that it is. -/
theorem SourceUnit.Compiled.binding_cases {unit : SourceUnit} (compiled : unit.Compiled)
    {binding : Binding} (member : binding ∈ unit.bindings) :
    (∃ function ∈ unit.functions, binding ∈ function.bindings unit.importName) ∨
      ∃ statement ∈ (unit.tree.map SourceTree.statements).getD [], ∃ name literal,
        statement.action = .constant name literal ∧
        binding = ⟨.constant, name, qualify unit.importName name, none⟩ := by
  obtain ⟨tree, held, parsed, _⟩ := compiled.parsed
  rw [SourceUnit.bindings, held] at member
  rw [SourceUnit.functions, held]
  exact (file_of_parse parsed).binding_cases unit.importName member

end StackLang
