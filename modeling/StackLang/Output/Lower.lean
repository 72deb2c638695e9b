import StackLang.Output.Code
import StackLang.Symbol.Analysis

/-! From statements to code. A name means what the table says it means in its function. -/
namespace StackLang

inductive CodeError where
  | notParsed (path : String)
  | orphanBody
  | missingBody (function : String)
  | entryPointParameters (function : String)
  | unbalancedEnd (function : String)
  | iteratorOutsideLoop
  | notAValue (text : String)
  | notCallable (name : String)
  | unresolved (name : String)
  | misplaced (statement : String)
  deriving DecidableEq, Repr

def CodeError.message : CodeError → String
  | .notParsed path => "translation unit " ++ quoted path ++ " has not been parsed"
  | .orphanBody => "function body without a declaration"
  | .missingBody function => "function " ++ quoted function ++ " has no body"
  | .entryPointParameters function =>
    "entry point " ++ quoted function ++ " cannot take parameters"
  | .unbalancedEnd function => "unbalanced 'end' in function " ++ quoted function
  | .iteratorOutsideLoop => "'$' used outside of a loop"
  | .notAValue text => quoted text ++ " is not a value"
  | .notCallable name => quoted name ++ " cannot be called"
  | .unresolved name => "unresolved reference to " ++ quoted name
  | .misplaced statement => statement ++ " is only allowed at top level"

/-- A statement as an error names it. -/
def Action.title : Action → String
  | .importModule _ => "'use'"
  | .function _ _ => "'fn'"
  | .body _ => "a function body"
  | .call _ _ _ => "a call"
  | .inlineC _ => "inline C"
  | .constant _ _ => "'const'"
  | .takeLocal _ => "'local'"
  | .label _ => "a label"
  | .jump _ _ => "a jump"
  | .countedLoop _ _ _ => "'for'"
  | .endlessLoop => "'loop'"
  | .breakLoop => "'break'"
  | .continueLoop => "'continue'"
  | .pushIterator => "'$'"
  | .endLoop => "'end'"
  | .leave => "'return'"
  | .reduce _ => "'reduce'"

/-- The unit that code is made of, as far as names depend on it. -/
structure UnitFrame where
  unit : String
  module : Option String
  table : SymbolTable

structure Frame extends UnitFrame where
  /-- The name that the symbols of the function have as their scope. -/
  function : String
  entry : Bool

namespace Frame

def lookup (frame : Frame) (qualifier : Option String) (name : String) : Option Symbol :=
  frame.table.resolve frame.module (some frame.function) qualifier name

def valueOf (symbol : Symbol) : Expression :=
  if symbol.kind = .constant then .constant symbol.unit symbol.baseName
  else .slot symbol.baseName

def iterator (depth : Nat) : Except CodeError Nat :=
  if 0 < depth then .ok depth else .error .iteratorOutsideLoop

def named (frame : Frame) (module : Option String) (name : String) :
    Except CodeError Expression :=
  match frame.lookup module name with
  | some symbol =>
    if symbol.kind.isValue then .ok (valueOf symbol)
    else .error (.notAValue (qualify module name))
  | none => .error (.unresolved (qualify module name))

def address (frame : Frame) (name : String) : Except CodeError Expression :=
  match frame.lookup none name with
  | some symbol =>
    if symbol.kind = .localValue ∨ symbol.kind = .parameter then .ok (.address name)
    else .error (.notAValue ("&" ++ name))
  | none => .error (.unresolved name)

/-- The one cell that an argument stands for. -/
def scalar (frame : Frame) (depth : Nat) : Argument → Except CodeError Expression
  | .number literal => .ok (.number literal)
  | .string text => .error (.notAValue ("\"" ++ text ++ "\""))
  | .named module name => frame.named module name
  | .address name => frame.address name
  | .iterator => (iterator depth).map .iterator

/-- A text as cells: its length, the codes of its characters and a zero. -/
def textCells (text : String) : List Expression :=
  .code text.length :: text.toList.map (fun c => .code c.toNat) ++ [.code 0]

def cells (frame : Frame) (depth : Nat) : Argument → Except CodeError (List Expression)
  | .string text => .ok (textCells text)
  | argument => (frame.scalar depth argument).map ([·])

/-- What a call names. A function of the program goes before a primitive, and a primitive
before a value. -/
def callee (frame : Frame) (name : String) (module : Option String) : Except CodeError Callee :=
  let primitive := module.isNone && Primitive.isName name
  match frame.lookup module name with
  | some symbol =>
    if symbol.kind = .function then
      if symbol.name = entryPoint then .error (.notCallable (qualify module name))
      else .ok (.function symbol.unit symbol.baseName)
    else if primitive then .ok (.primitive name)
    else if symbol.kind.isValue then .ok (.value (valueOf symbol))
    else .error (.notCallable (qualify module name))
  | none =>
    if primitive then .ok (.primitive name) else .error (.unresolved (qualify module name))

def call (frame : Frame) (depth : Nat) (name : String) (module : Option String)
    (arguments : List Argument) : Except CodeError Step := do
  let cells ← arguments.mapM (frame.cells depth)
  return .call (← frame.callee name module) cells.flatten

def counted (frame : Frame) (depth : Nat) (start step stop : Argument) :
    Except CodeError Step := do
  let start ← frame.scalar depth start
  let step ← frame.scalar depth step
  let stop ← frame.scalar depth stop
  return .openCounted (depth + 1) start step stop

/-- The code of a statement, and how many loops are open behind it. -/
def step (frame : Frame) (depth : Nat) : Action → Except CodeError (Step × Nat)
  | .call name module arguments => return (← frame.call depth name module arguments, depth)
  | .inlineC code => .ok (.verbatim code, depth)
  | .takeLocal name => .ok (.take name, depth)
  | .label name => .ok (.label name, depth)
  | .jump which label => .ok (.jump which label, depth)
  | .countedLoop start step stop => return (← frame.counted depth start step stop, depth + 1)
  | .endlessLoop => .ok (.openEndless (depth + 1), depth + 1)
  | .endLoop =>
    match depth with
    | 0 => .error (.unbalancedEnd frame.function)
    | depth + 1 => .ok (.close, depth)
  | .breakLoop => .ok (.breakLoop, depth)
  | .continueLoop => .ok (.continueLoop, depth)
  | .pushIterator => return (.pushIterator (← iterator depth), depth)
  | .leave => .ok (.leave frame.entry, depth)
  | .reduce reduction => .ok (.reduce reduction, depth)
  | action => .error (.misplaced action.title)

def steps (frame : Frame) (depth : Nat) : List Statement → Except CodeError (List Step)
  | [] => if depth = 0 then .ok [] else .error (.unbalancedEnd frame.function)
  | statement :: rest => do
    let (step, depth) ← frame.step depth statement.action
    return step :: (← frame.steps depth rest)

end Frame

namespace UnitFrame

def heading (frame : UnitFrame) (name : String) (parameters : List String) :
    Except CodeError Heading :=
  if frame.module.isNone && name == entryPoint then
    if parameters = [] then .ok .entry else .error (.entryPointParameters name)
  else .ok (.named frame.unit name)

def function (frame : UnitFrame) (name : String) (parameters : List String)
    (statements : List Statement) : Except CodeError Definition := do
  let heading ← frame.heading name parameters
  let inner : Frame :=
    { frame with function := qualify frame.module name, entry := heading = .entry }
  return .function heading parameters (← inner.steps 0 statements)

/-- The definitions of a list of statements, behind the declaration of a function that
still has no body. -/
def definitions (frame : UnitFrame) (pending : Option (String × List String)) :
    List Statement → Except CodeError (List Definition)
  | [] =>
    match pending with
    | some (name, _) => .error (.missingBody name)
    | none => .ok []
  | statement :: rest =>
    match statement.action, pending with
    | .function _ _, some (name, _) => .error (.missingBody name)
    | .function name parameters, none => frame.definitions (some (name, parameters)) rest
    | .body _, none => .error .orphanBody
    | .body statements, some (name, parameters) => do
      let definition ← frame.function name parameters statements
      return definition :: (← frame.definitions none rest)
    | .importModule _, _ => frame.definitions pending rest
    | .constant name literal, _ => do
      return .constant frame.unit name literal :: (← frame.definitions pending rest)
    | .inlineC code, _ => do
      return .verbatim code :: (← frame.definitions pending rest)
    | action, _ => .error (.misplaced action.title)

end UnitFrame

end StackLang
