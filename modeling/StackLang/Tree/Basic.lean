import StackLang.Module
import StackLang.Token.Basic

/-! The tree of one source file. It is a flat list of statements; a function is
a declaration with its body directly behind it, and loops inside a body are
kept as the statements that open and close them. -/
namespace StackLang

open Text (Span)

/-- An imported file and the name it is compiled under. -/
structure Import where
  path : Path
  name : String
  deriving DecidableEq, Repr

inductive Reduction where
  | add | sub | mul | div
  deriving DecidableEq, Repr

namespace Reduction

def all : List Reduction := [.add, .sub, .mul, .div]

def name : Reduction → String
  | .add => "add"
  | .sub => "sub"
  | .mul => "mul"
  | .div => "div"

def ofName? (name : String) : Option Reduction :=
  all.find? fun reduction => reduction.name == name

def selector : Reduction → String
  | .add => "QD_REDUCE_ADD"
  | .sub => "QD_REDUCE_SUB"
  | .mul => "QD_REDUCE_MUL"
  | .div => "QD_REDUCE_DIV"

end Reduction

/-- What a call pushes before it runs. -/
inductive Argument where
  | number (literal : String)
  | string (text : String)
  | named (module : Option String) (name : String)
  | address (name : String)
  | iterator
  deriving DecidableEq, Repr

mutual

inductive Action where
  | importModule (target : Import)
  | function (name : String) (parameters : List String)
  | body (statements : List Statement)
  | call (name : String) (module : Option String) (arguments : List Argument)
  | inlineC (code : String)
  | constant (name literal : String)
  | takeLocal (name : String)
  | label (name : String)
  | jump (which : Jump) (label : String)
  | countedLoop (start step stop : Argument)
  | endlessLoop
  | breakLoop
  | continueLoop
  | pushIterator
  | endLoop
  | leave
  | reduce (reduction : Reduction)

structure Statement where
  action : Action
  span : Span

end

def Statement.import? (statement : Statement) : Option Import :=
  match statement.action with
  | .importModule target => some target
  | _ => none

structure SourceTree where
  name : String
  path : Path
  statements : List Statement
  imports : List Import

structure Function where
  name : String
  parameters : List String
  statements : List Statement

/-- The declarations that have a body directly behind them. -/
def functionsOf : List Statement → List Function
  | declared :: followed :: rest =>
    match declared.action, followed.action with
    | .function name parameters, .body statements =>
      ⟨name, parameters, statements⟩ :: functionsOf (followed :: rest)
    | _, _ => functionsOf (followed :: rest)
  | _ => []

def SourceTree.functions (tree : SourceTree) : List Function := functionsOf tree.statements

end StackLang
