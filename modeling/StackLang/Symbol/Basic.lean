import StackLang.Text.Position

/-! Symbols and the table that they are looked up in. A function or a constant is known
everywhere, under its module's name if it has one; a label, a local value or a parameter
only inside of its function. -/
namespace StackLang

inductive SymbolKind where
  | function | constant | label | localValue | parameter
  deriving DecidableEq, Repr

namespace SymbolKind

def all : List SymbolKind := [.function, .constant, .label, .localValue, .parameter]

def name : SymbolKind → String
  | .function => "function"
  | .constant => "constant"
  | .label => "label"
  | .localValue => "local"
  | .parameter => "parameter"

def ofName? (name : String) : Option SymbolKind := all.find? fun kind => kind.name == name

def isScoped : SymbolKind → Bool
  | .label | .localValue | .parameter => true
  | .function | .constant => false

def isValue : SymbolKind → Bool
  | .constant | .localValue | .parameter => true
  | .function | .label => false

end SymbolKind

def qualify (module : Option String) (name : String) : String :=
  match module with
  | some module => module ++ "::" ++ name
  | none => name

/-- What a reversed text has in front of the first double colon. -/
def beforeDoubleColon : List Char → List Char
  | ':' :: ':' :: _ => []
  | c :: rest => c :: beforeDoubleColon rest
  | [] => []

structure Symbol where
  name : String
  kind : SymbolKind
  path : String := ""
  line : Nat := 0
  column : Nat := 0
  /-- The function that a scoped symbol belongs to. -/
  scope : Option String := none
  /-- The name of the unit that declares the symbol. -/
  unit : String := ""
  deriving DecidableEq, Repr

namespace Symbol

def baseName (symbol : Symbol) : String :=
  String.ofList (beforeDoubleColon symbol.name.toList.reverse).reverse

/-- What no two symbols of a table have in common. -/
def key (symbol : Symbol) : Option String × String := (symbol.scope, symbol.name)

end Symbol

/-- Symbols in the order of their declaration, and the names of the imported modules. -/
structure SymbolTable where
  symbols : List Symbol := []
  modules : List String := []

namespace SymbolTable

def find? (table : SymbolTable) (key : Option String × String) : Option Symbol :=
  table.symbols.find? fun symbol => symbol.key = key

/-- Add a symbol, or tell which one has its key already. -/
def insert (table : SymbolTable) (symbol : Symbol) : Except Symbol SymbolTable :=
  match table.find? symbol.key with
  | some present => .error present
  | none => .ok { table with symbols := table.symbols ++ [symbol] }

def addModule (table : SymbolTable) (name : String) : SymbolTable :=
  if name ∈ table.modules then table else { table with modules := table.modules ++ [name] }

def isModule (table : SymbolTable) (name : String) : Bool := name ∈ table.modules

def global? (table : SymbolTable) (name : String) : Option Symbol := table.find? (none, name)

def scoped? (table : SymbolTable) (function name : String) : Option Symbol :=
  table.find? (some function, name)

/-- The symbol that a name means inside of a module and a function: with a qualifier the
global one of that module, otherwise the first one found in the function, in the module
and among the globals without a module. -/
def resolve (table : SymbolTable) (module function qualifier : Option String) (name : String) :
    Option Symbol :=
  match qualifier with
  | some qualifier => table.global? (qualify (some qualifier) name)
  | none =>
    (function.bind fun function => table.scoped? function name).or
      ((module.bind fun module => table.global? (qualify (some module) name)).or
        (table.global? name))

def functions (table : SymbolTable) : List Symbol :=
  table.symbols.filter fun symbol => symbol.kind = .function

end SymbolTable

end StackLang
