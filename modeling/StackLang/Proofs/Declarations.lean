import StackLang.Proofs.Remainder
import StackLang.Proofs.Resolution

/-! What the tokens of a file declare is what its tree declares. The analysis tells a declaration
from adjacent kinds of tokens and keeps the last function it has seen; in a file that has a tree,
these are the declarations of the tree, in the order of the tree and inside the same functions. -/
namespace StackLang

open StackLang.Grammar StackLang.Parser

/-! ### Declarations of a tree -/

/-- A declaration without its place: the name as it is written, and as the table has it. -/
structure Binding where
  kind : SymbolKind
  word : String
  name : String
  scope : Option String
  deriving DecidableEq, Repr

def Binding.key (binding : Binding) : Option String × String := (binding.scope, binding.name)

def Declaration.binding (declaration : Declaration) : Binding :=
  ⟨declaration.kind, declaration.site.literal, declaration.name, declaration.scope⟩

def Action.bindings (scope : String) : Action → List Binding
  | .takeLocal name => [⟨.localValue, name, name, some scope⟩]
  | .label name => [⟨.label, name, name, some scope⟩]
  | _ => []

def Function.bindings (module : Option String) (function : Function) : List Binding :=
  let scope := qualify module function.name
  ⟨.function, function.name, scope, none⟩ ::
    (function.parameters.map fun name => ⟨.parameter, name, name, some scope⟩) ++
      function.statements.flatMap fun statement => statement.action.bindings scope

def bodyAhead : List Statement → List Statement
  | ⟨.body statements, _⟩ :: _ => statements
  | _ => []

/-- What the statements of a file declare. A body belongs to the function in front of it. -/
def bindingsOf (module : Option String) : List Statement → List Binding
  | [] => []
  | statement :: rest =>
    (match statement.action with
      | .function name parameters =>
        (Function.mk name parameters (bodyAhead rest)).bindings module
      | .constant name _ => [⟨.constant, name, qualify module name, none⟩]
      | _ => []) ++ bindingsOf module rest

theorem Grammar.Declaration.bindingsOf_append {tokens rest : List Token}
    {statements : List Statement} (declared : Grammar.Declaration tokens rest statements)
    (module : Option String) (others : List Statement) :
    bindingsOf module (statements ++ others) =
      bindingsOf module statements ++ bindingsOf module others := by
  cases declared <;> simp [bindingsOf, bodyAhead]

/-! ### Declarations of tokens -/

def bindings (module function : Option String) (part : DeclarationPart) (tokens : List Token) :
    List Binding :=
  (declarations module function part tokens).map Declaration.binding

/-- The kinds that neither start a declaration nor make one of the word in front of them. -/
def TokenKind.isMute : TokenKind → Bool
  | .fnWord | .constWord | .localWord | .colon => false
  | _ => true

def Mute (tokens rest : List Token) : Prop :=
  ∃ segment : List Token, tokens = segment ++ rest ∧ ∀ token ∈ segment, token.kind.isMute = true

section Shapes

variable {module function : Option String} {tokens middle rest : List Token}

theorem Mute.nothing : Mute rest rest := ⟨[], rfl, by simp⟩

theorem Mute.token {token : Token} (mute : token.kind.isMute = true) (more : Mute tokens rest) :
    Mute (token :: tokens) rest := by
  obtain ⟨segment, rfl, others⟩ := more
  exact ⟨token :: segment, rfl, List.forall_mem_cons.mpr ⟨mute, others⟩⟩

theorem Mute.trans (front : Mute tokens middle) (back : Mute middle rest) : Mute tokens rest := by
  obtain ⟨segment, rfl, first⟩ := front
  obtain ⟨behind, rfl, second⟩ := back
  refine ⟨segment ++ behind, (List.append_assoc _ _ _).symm, ?_⟩
  simpa [or_imp, forall_and] using ⟨first, second⟩

theorem bindings_idle {token : Token} (mute : token.kind.isMute = true)
    (unmarked : token.kind = .identifier → ∀ next ∈ rest.head?, next.kind ≠ .colon) :
    bindings module function .outside (token :: rest) =
      bindings module function .outside rest := by
  unfold bindings
  cases rest with
  | nil => simp [declarations]
  | cons next rest =>
    have silent : token.kind ≠ .fnWord ∧ token.kind ≠ .constWord ∧ token.kind ≠ .localWord := by
      refine ⟨?_, ?_, ?_⟩ <;> (intro seen; rw [seen] at mute; cases mute)
    rw [declarations_skip _ _ _ silent fun seen => unmarked seen next rfl]

theorem bindings_mute (mute : Mute tokens rest) (plain : Plain rest) :
    bindings module function .outside tokens = bindings module function .outside rest := by
  obtain ⟨segment, rfl, silent⟩ := mute
  induction segment with
  | nil => rfl
  | cons token segment ih =>
    obtain ⟨first, others⟩ := List.forall_mem_cons.mp silent
    rw [List.cons_append, bindings_idle first, ih others]
    intro _ next ahead
    cases segment with
    | nil => exact (plain next ahead).1
    | cons second segment =>
      cases ahead
      intro marked
      have loud := others next List.mem_cons_self
      rw [marked] at loud
      cases loud

theorem Grammar.Name.mute {owner : Option String} {name : String}
    (spelled : Name tokens rest owner name) : Mute tokens rest := by
  cases spelled with
  | plain seen => exact Mute.nothing.token (by rw [seen]; rfl)
  | qualified qualifier separated seen =>
    have word : Mute _ rest := Mute.nothing.token (by rw [seen]; rfl)
    exact (word.token (by rw [separated]; rfl)).token (by rw [qualifier]; rfl)

theorem Grammar.Operand.mute {looped : Bool} {argument : Argument}
    (operand : Operand looped tokens rest argument) : Mute tokens rest := by
  cases operand with
  | named spelled => exact spelled.mute
  | address marked seen =>
    have word : Mute _ rest := Mute.nothing.token (by rw [seen]; rfl)
    exact word.token (by rw [marked]; rfl)
  | number seen | string seen | iterator seen => exact Mute.nothing.token (by rw [seen]; rfl)

theorem Grammar.Operands.mute {looped : Bool} {given : List Argument}
    (operands : Operands looped tokens rest given) : Mute tokens rest := by
  induction operands with
  | done => exact .nothing
  | comma seen _ ih => exact ih.token (by rw [seen]; rfl)
  | comment opened closed _ ih => exact (ih.token (by rw [closed]; rfl)).token (by rw [opened]; rfl)
  | operand first _ ih => exact first.mute.trans ih

theorem bindings_lineEnd (ended : LineEnd tokens rest) :
    bindings module function .outside tokens = bindings module function .outside rest := by
  cases ended with
  | newLine seen => exact bindings_idle (by rw [seen]; rfl) (by simp [seen])
  | brace => rfl

theorem bindings_muteLine {behind : List Token} (mute : Mute tokens behind)
    (ended : LineEnd behind rest) :
    bindings module function .outside tokens = bindings module function .outside rest :=
  (bindings_mute mute (plain_of_lineEnd ended)).trans (bindings_lineEnd ended)

theorem bindings_call {looped : Bool} {action : Action} (called : Call looped tokens rest action) :
    bindings module function .outside tokens = bindings module function .outside rest := by
  obtain ⟨spelled, operands, ended⟩ := called
  exact bindings_muteLine (spelled.mute.trans operands.mute) ended

theorem Grammar.Call.bindings_eq_nil {looped : Bool} {action : Action}
    (called : Call looped tokens rest action) (scope : String) : action.bindings scope = [] := by
  cases called
  rfl

variable (module)

theorem bindings_label (scope : String) {word colon : Token} (seen : word.kind = .identifier)
    (marked : colon.kind = .colon) :
    bindings module (some scope) .outside (word :: colon :: rest) =
      ⟨.label, word.literal, word.literal, some scope⟩ ::
        bindings module (some scope) .outside (colon :: rest) := by
  simp [bindings, declarations, seen, marked, declarations.inFunction, Declaration.binding]

theorem bindings_takeLocal (scope : String) {word name : Token} (seen : word.kind = .localWord)
    (named : name.kind = .identifier) :
    bindings module (some scope) .outside (word :: name :: rest) =
      ⟨.localValue, name.literal, name.literal, some scope⟩ ::
        bindings module (some scope) .outside rest := by
  simp [bindings, declarations, seen, named, declarations.inFunction, Declaration.binding]

theorem bindings_colon {colon : Token} (marked : colon.kind = .colon) :
    bindings module function .outside (colon :: rest) =
      bindings module function .outside rest := by
  cases rest <;> simp [bindings, declarations, marked]

theorem bindings_line (scope : String) {depth inner : Nat} {action : Action}
    (line : Line depth tokens rest action inner) :
    bindings module (some scope) .outside tokens =
      action.bindings scope ++ bindings module (some scope) .outside rest := by
  cases line with
  | call called => rw [called.bindings_eq_nil, List.nil_append, bindings_call called]
  | inlineC seen => exact bindings_idle (by rw [seen]; rfl) (by simp [seen])
  | label seen marked _ ended =>
    rw [bindings_label module scope seen marked, bindings_colon module marked,
      bindings_lineEnd ended]
    rfl
  | takeLocal seen named ended =>
    rw [bindings_takeLocal module scope seen named, bindings_lineEnd ended]
    rfl
  | jump seen aimed ended =>
    refine bindings_muteLine (Mute.token (by rw [seen]; rfl) ?_) ended
    exact Mute.nothing.token (by rw [aimed]; rfl)
  | reduce seen named _ ended =>
    refine bindings_muteLine (Mute.token (by rw [seen]; rfl) ?_) ended
    exact Mute.nothing.token (by rw [named]; rfl)
  | countedLoop seen started stepped stopped ended =>
    have bounds := started.operand.mute.trans (stepped.operand.mute.trans stopped.operand.mute)
    exact bindings_muteLine (bounds.token (by rw [seen]; rfl)) ended
  | leave seen ended | pushIterator seen _ ended | breakLoop seen _ ended
  | continueLoop seen _ ended | endlessLoop seen ended | endLoop seen ended =>
    exact bindings_muteLine (Mute.nothing.token (by rw [seen]; rfl)) ended

theorem bindings_blank (skipped : Blank tokens rest) :
    bindings module function .outside tokens = bindings module function .outside rest := by
  cases skipped with
  | newLine seen => exact bindings_idle (by rw [seen]; rfl) (by simp [seen])
  | comment opened closed =>
    rw [bindings_idle (by rw [opened]; rfl) (by simp [opened])]
    exact bindings_idle (by rw [closed]; rfl) (by simp [closed])

theorem bindings_newLines (skipped : NewLines tokens rest) :
    bindings module function .outside tokens = bindings module function .outside rest := by
  induction skipped with
  | done => rfl
  | newLine seen _ ih => exact (bindings_idle (by rw [seen]; rfl) (by simp [seen])).trans ih

theorem bindings_item (scope : String) {depth inner : Nat} {item : BodyItem}
    (read : Item depth tokens rest item inner) :
    bindings module (some scope) .outside tokens =
      item.statement.action.bindings scope ++ bindings module (some scope) .outside rest := by
  cases read with
  | plain line => exact bindings_line module scope line
  | deferred seen called =>
    rw [bindings_idle (by rw [seen]; rfl) (by simp [seen]), bindings_call called]
    exact (List.nil_append _).symm.trans (by rw [← called.bindings_eq_nil scope]; rfl)

theorem bindings_body (scope : String) {depth : Nat} {items : List BodyItem}
    (body : Body depth tokens rest items) :
    bindings module (some scope) .outside tokens =
      (items.flatMap fun item => item.statement.action.bindings scope) ++
        bindings module (some scope) .outside rest := by
  induction body with
  | close seen => exact bindings_idle (by rw [seen]; rfl) (by simp [seen])
  | blank skipped _ ih => exact (bindings_blank module skipped).trans ih
  | item first _ ih =>
    rw [bindings_item module scope first, ih, List.flatMap_cons, List.append_assoc]

/-- Deferred calls declare nothing, wherever they are replayed. -/
theorem Grammar.Body.bindings_replay (scope : String) {depth : Nat} {items : List BodyItem}
    (body : Body depth tokens rest items) :
    ∀ deferred : List Statement,
      (∀ statement ∈ deferred, statement.action.bindings scope = []) →
      ((replay deferred items).flatMap fun statement => statement.action.bindings scope) =
        items.flatMap fun item => item.statement.action.bindings scope := by
  induction body with
  | close => intro deferred silent; exact List.flatMap_eq_nil_iff.mpr silent
  | blank _ _ ih => exact ih
  | item first _ ih =>
    intro deferred silent
    cases first with
    | deferred _ called =>
      rw [replay, ih]
      · rw [List.flatMap_cons, BodyItem.statement, called.bindings_eq_nil, List.nil_append]
      · intro statement member
        rcases List.mem_append.mp member with earlier | last
        · exact silent statement earlier
        · rw [List.mem_singleton.mp last, called.bindings_eq_nil]
    | plain =>
      have front := List.flatMap_eq_nil_iff.mpr silent
      unfold replay
      split <;> simp [front, ih deferred silent, BodyItem.statement]

theorem bindings_parameters (scope : String) {names : List String}
    (taken : Parameters tokens rest names) :
    bindings module (some scope) .parameters tokens =
      (names.map fun name => ⟨.parameter, name, name, some scope⟩) ++
        bindings module (some scope) .outside rest := by
  induction taken with
  | close seen => simp [bindings, declarations, seen]
  | blank seen _ ih =>
    rw [← ih]
    rcases seen with seen | seen <;> simp [bindings, declarations, seen]
  | name seen _ ih =>
    rw [List.map_cons, List.cons_append, ← ih]
    simp [bindings, declarations, seen, Declaration.binding]

theorem bindings_constant {word name : Token} (seen : word.kind = .constWord)
    (named : name.kind = .identifier) :
    bindings module function .outside (word :: name :: rest) =
      ⟨.constant, name.literal, qualify module name.literal, none⟩ ::
        bindings module function .outside rest := by
  simp [bindings, declarations, seen, named, Declaration.binding]

theorem bindings_fn {word name opening : Token} (seen : word.kind = .fnWord)
    (named : name.kind = .identifier) (opened : opening.kind = .leftParen) :
    bindings module function .outside (word :: name :: opening :: rest) =
      ⟨.function, name.literal, qualify module name.literal, none⟩ ::
        bindings module (some (qualify module name.literal)) .parameters rest := by
  simp [bindings, declarations, seen, named, opened, Declaration.binding]

variable (function)

theorem bindings_declaration {statements : List Statement}
    (declared : Grammar.Declaration tokens rest statements) :
    ∃ inside : Option String, bindings module function .outside tokens =
      bindingsOf module statements ++ bindings module inside .outside rest := by
  cases declared with
  | blank skipped => exact ⟨function, bindings_blank module skipped⟩
  | use seen found =>
    refine ⟨function, ?_⟩
    rw [bindings_idle (by rw [seen]; rfl) (by simp [seen])]
    exact bindings_idle (by rw [found]; rfl) (by simp [found])
  | constant seen named valued =>
    refine ⟨function, ?_⟩
    rw [bindings_constant module seen named, bindings_idle (by rw [valued]; rfl) (by simp [valued])]
    rfl
  | inlineC seen => exact ⟨function, bindings_idle (by rw [seen]; rfl) (by simp [seen])⟩
  | @function _ name _ _ _ _ _ _ _ items _ _ seen named opened taken skipped entered body =>
    refine ⟨some (qualify module name.literal), ?_⟩
    rw [bindings_fn module seen named opened, bindings_parameters module _ taken,
      bindings_newLines module skipped, bindings_idle (by rw [entered]; rfl) (by simp [entered]),
      bindings_body module _ body, ← body.bindings_replay _ [] (by simp)]
    simp [bindingsOf, Function.bindings, bodyAhead]

theorem bindings_file {statements : List Statement} (file : File tokens statements)
    (ends : EndsLast tokens) :
    bindings module function .outside tokens = bindingsOf module statements := by
  induction file generalizing function with
  | done finished =>
    rcases ends.finished finished with rfl | ⟨last, _, rfl⟩ <;>
      simp [bindings, declarations, bindingsOf]
  | declaration first _ ih =>
    obtain ⟨inside, read⟩ := bindings_declaration module function first
    rw [read, ih inside (ends.suffix first.suffix), first.bindingsOf_append]

end Shapes

def SourceUnit.bindings (unit : SourceUnit) : List Binding :=
  bindingsOf unit.importName ((unit.tree.map SourceTree.statements).getD [])

theorem SourceUnit.Compiled.endsLast {unit : SourceUnit} (compiled : unit.Compiled) :
    EndsLast unit.tokens := by
  obtain ⟨blank, files, search, later, content, imports, done⟩ := compiled
  obtain ⟨tree, stream, scanned, parsed, rfl⟩ := SourceUnit.compile_ok done
  exact TokenStream.endsLast_ofBytes scanned

theorem SourceUnit.Compiled.bindings_eq {unit : SourceUnit} (compiled : unit.Compiled) :
    unit.declarations.map Declaration.binding = unit.bindings := by
  obtain ⟨tree, held, parsed, _⟩ := compiled.parsed
  have read := bindings_file unit.importName none (file_of_parse parsed) compiled.endsLast
  rw [SourceUnit.bindings, held]
  exact read

/-! ### Sites of declarations -/

/-- A declaration whose site is an identifier among some tokens; what is known everywhere has the
name of its module. -/
structure Declaration.Sited (module : Option String) (tokens : List Token)
    (declaration : Declaration) : Prop where
  inside : declaration.site ∈ tokens
  identifier : declaration.site.kind = .identifier
  exported : declaration.kind.isScoped = false →
    declaration.scope = none ∧ declaration.name = qualify module declaration.site.literal

theorem Declaration.Sited.cons {module : Option String} {tokens : List Token}
    {declaration : Declaration} (sited : declaration.Sited module tokens) (token : Token) :
    declaration.Sited module (token :: tokens) :=
  { sited with inside := List.mem_cons_of_mem _ sited.inside }

theorem sited_inFunction {module function : Option String} {kind : SymbolKind} {site : Token}
    {tokens : List Token} {declaration : Declaration}
    (member : declaration ∈ declarations.inFunction function kind site)
    (bound : kind.isScoped = true) (inside : site ∈ tokens) (seen : site.kind = .identifier) :
    declaration.Sited module tokens := by
  obtain ⟨scope, _, rfl⟩ := List.mem_map.mp member
  exact ⟨inside, seen, fun free => absurd bound (by simp [free])⟩

theorem sited_of_mem_declarations {module function : Option String} {part : DeclarationPart}
    {tokens : List Token} {declaration : Declaration}
    (member : declaration ∈ declarations module function part tokens) :
    declaration.Sited module tokens := by
  fun_induction declarations module function part tokens with
  | case1 => cases member
  | case2 _ _ _ ih | case3 _ _ _ _ ih | case4 _ _ _ _ ih | case6 _ _ _ _ _ _ ih =>
    exact (ih member).cons _
  | case5 _ token rest seen ih =>
    rcases List.mem_cons.mp member with rfl | later
    · exact ⟨List.mem_cons_self, seen, by simp [SymbolKind.isScoped]⟩
    · exact (ih later).cons _
  | case7 => cases member
  | case8 _ _ next _ seen _ _ ih | case9 _ _ next _ seen _ ih =>
    rcases List.mem_cons.mp member with rfl | later
    · exact ⟨by simp, seen, fun _ => ⟨rfl, rfl⟩⟩
    · exact ((ih later).cons _).cons _
  | case10 _ _ next _ seen _ ih =>
    rcases List.mem_append.mp member with here | later
    · exact sited_inFunction here rfl (by simp) seen
    · exact ((ih later).cons _).cons _
  | case11 _ token _ _ _ seen ih =>
    rcases List.mem_append.mp member with here | later
    · exact sited_inFunction here rfl (by simp) seen
    · exact (ih later).cons _
  | case12 _ _ _ _ _ _ _ _ ih => exact (ih member).cons _

end StackLang
