import StackLang.Machine.Primitive
import StackLang.SourceUnit
import StackLang.Symbol.Basic

/-! The analysis of a program. The tokens of all its units are read twice: for what they
declare, which fills the table, and for what they refer to, which has to be in it. -/
namespace StackLang

open Text (Span)

inductive SemanticFault where
  | redefined (kind : SymbolKind) (name : String)
  | undefined (name : String)
  deriving DecidableEq, Repr

def SemanticFault.message : SemanticFault → String
  | .redefined kind name => "redefinition of " ++ kind.name ++ " " ++ quoted name
  | .undefined name => "undefined reference to " ++ quoted name

/-- A fault at a line and column of a file; one that has no place is at none of any. -/
structure SemanticError where
  fault : SemanticFault
  path : String := ""
  line : Nat := 0
  column : Nat := 0
  deriving DecidableEq, Repr

namespace SemanticError

def message (error : SemanticError) : String := error.fault.message

def atSpan (fault : SemanticFault) (path : Path) (span : Span) : SemanticError :=
  ⟨fault, path.text, span.start.line, span.start.column⟩

end SemanticError

def entryPoint : String := "main"

/-! ### Declarations -/

structure Declaration where
  kind : SymbolKind
  name : String
  scope : Option String
  site : Token

/-- Where in a declaration of a function the next token stands. -/
inductive DeclarationPart where
  | outside
  /-- Behind the name, where the parameters open. -/
  | behindName
  | parameters
  deriving DecidableEq

def declarations (module : Option String) (function : Option String) :
    DeclarationPart → List Token → List Declaration
  | _, [] => []
  | .behindName, token :: rest =>
    declarations module function
      (if token.kind = .leftParen then .parameters else .outside) rest
  | .parameters, token :: rest =>
    match token.kind with
    | .rightParen | .endOfInput => declarations module function .outside rest
    | .identifier =>
      ⟨.parameter, token.literal, function, token⟩ ::
        declarations module function .parameters rest
    | _ => declarations module function .parameters rest
  | .outside, _ :: [] => []
  | .outside, token :: next :: rest =>
    match token.kind, next.kind with
    | .fnWord, .identifier =>
      let name := qualify module next.literal
      ⟨.function, name, none, next⟩ :: declarations module (some name) .behindName rest
    | .constWord, .identifier =>
      ⟨.constant, qualify module next.literal, none, next⟩ ::
        declarations module function .outside rest
    | .localWord, .identifier =>
      inFunction .localValue next ++ declarations module function .outside rest
    | .identifier, .colon =>
      inFunction .label token ++ declarations module function .outside (next :: rest)
    | _, _ => declarations module function .outside (next :: rest)
where
  /-- Outside of any function a local value or a label declares nothing. -/
  inFunction (kind : SymbolKind) (site : Token) : List Declaration :=
    function.toList.map fun scope => ⟨kind, site.literal, some scope, site⟩

/-- A token that opens no declaration is passed. -/
theorem declarations_skip (module function : Option String) {token next : Token} (rest : List Token)
    (silent : token.kind ≠ .fnWord ∧ token.kind ≠ .constWord ∧ token.kind ≠ .localWord)
    (unmarked : token.kind = .identifier → next.kind ≠ .colon) :
    declarations module function .outside (token :: next :: rest) =
      declarations module function .outside (next :: rest) := by
  rw [declarations]
  split
  · next seen _ => exact absurd seen silent.1
  · next seen _ => exact absurd seen silent.2.1
  · next seen _ => exact absurd seen silent.2.2
  · next seen marked => exact absurd marked (unmarked seen)
  · rfl

namespace SourceUnit

def declarations (unit : SourceUnit) : List Declaration :=
  StackLang.declarations unit.importName none .outside unit.tokens

def symbolOf (unit : SourceUnit) (declaration : Declaration) : Symbol where
  name := declaration.name
  kind := declaration.kind
  path := unit.path.text
  line := declaration.site.span.start.line
  column := declaration.site.span.start.column
  scope := declaration.scope
  unit := unit.name

end SourceUnit

/-- Enter a declaration into the table, where its key must be new. -/
def SymbolTable.declare (unit : SourceUnit) (table : SymbolTable) (declaration : Declaration) :
    Except SemanticError SymbolTable :=
  match table.insert (unit.symbolOf declaration) with
  | .ok table => .ok table
  | .error _ => .error (.atSpan (.redefined declaration.kind declaration.site.literal) unit.path
      declaration.site.span)

def SymbolTable.declareAll (table : SymbolTable) (unit : SourceUnit) :
    Except SemanticError SymbolTable :=
  unit.declarations.foldlM (declare unit) table

/-! ### References -/

inductive Role where
  | label
  | module
  | named (qualifier : Option String)
  deriving DecidableEq, Repr

structure Reference where
  role : Role
  function : Option String
  site : Token

/-- What stands before a token: the two tokens before it, the function it is in, and
whether it is among the parameters of one. -/
structure Surroundings where
  earlier : Option Token := none
  last : Option Token := none
  function : Option String := none
  inParameters : Bool := false

namespace Surroundings

def lastIs (around : Surroundings) (kind : TokenKind) : Bool :=
  around.last.map Token.kind = some kind

def past (around : Surroundings) (module : Option String) (token : Token) : Surroundings where
  earlier := around.last
  last := some token
  function :=
    if token.kind = .identifier ∧ around.lastIs .fnWord then some (qualify module token.literal)
    else around.function
  inParameters :=
    match token.kind with
    | .leftParen => around.earlier.map Token.kind = some .fnWord
    | .rightParen => false
    | _ => around.inParameters

/-- Whether an identifier declares a name here, or names a reduction. -/
def declares (around : Surroundings) (next : Option TokenKind) : Bool :=
  around.lastIs .fnWord || around.inParameters || around.lastIs .constWord ||
    around.lastIs .localWord || around.lastIs .reduceWord || next = some .colon

def role (around : Surroundings) (next : Option TokenKind) : Role :=
  if around.last.any (·.kind.isJump) then .label
  else if next = some .doubleColon then .module
  else .named (if around.lastIs .doubleColon then around.earlier.map Token.literal else none)

end Surroundings

def references (module : Option String) (around : Surroundings) : List Token → List Reference
  | [] => []
  | token :: rest =>
    let next := rest.head?.map Token.kind
    let others := references module (around.past module token) rest
    if token.kind = .identifier ∧ ¬around.declares next then
      ⟨around.role next, around.function, token⟩ :: others
    else others

def SourceUnit.references (unit : SourceUnit) : List Reference :=
  StackLang.references unit.importName {} unit.tokens

namespace Reference

/-- The name that is missing if the reference leads nowhere. -/
def text (reference : Reference) : String :=
  match reference.role with
  | .named qualifier => qualify qualifier reference.site.literal
  | .label | .module => reference.site.literal

def isKnown (reference : Reference) (module : Option String) (table : SymbolTable) : Bool :=
  let name := reference.site.literal
  match reference.role with
  | .label =>
    (reference.function.bind fun function => table.scoped? function name).any
      fun symbol => symbol.kind = .label
  | .module => table.isModule name
  | .named qualifier =>
    qualifier.isNone && (Primitive.isName name || table.isModule name) ||
      (table.resolve module reference.function qualifier name).isSome

end Reference

def SymbolTable.checkAll (table : SymbolTable) (unit : SourceUnit) : Except SemanticError Unit :=
  match unit.references.find? fun reference => !reference.isKnown unit.importName table with
  | some reference =>
    .error (.atSpan (.undefined reference.text) unit.path reference.site.span)
  | none => .ok ()

/-! ### Programs -/

def SymbolTable.hasEntryPoint (table : SymbolTable) : Bool :=
  (table.global? entryPoint).any fun symbol => symbol.kind = .function

def SymbolTable.ofModules (units : List SourceUnit) : SymbolTable :=
  (units.filterMap SourceUnit.importName).foldl SymbolTable.addModule {}

/-- The table of a program in which every reference is known. -/
def analyze (units : List SourceUnit) : Except SemanticError SymbolTable := do
  let table ← units.foldlM SymbolTable.declareAll (SymbolTable.ofModules units)
  if !table.hasEntryPoint then throw { fault := .undefined entryPoint }
  units.forM table.checkAll
  return table

end StackLang
