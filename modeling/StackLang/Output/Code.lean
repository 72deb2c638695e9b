import StackLang.Output.CName
import StackLang.Output.Layout
import StackLang.Tree.Basic

/-! Generated code before it is laid out. What a file declares, and what it has to declare
of other files, is read off from its definitions. -/
namespace StackLang

/-- A number that C code pushes or compares. -/
inductive Expression where
  | number (literal : String)
  /-- A count or the code of a character. -/
  | code (value : Nat)
  | constant (unit name : String)
  | slot (name : String)
  | address (name : String)
  | iterator (depth : Nat)
  deriving DecidableEq, Repr

/-- What a call names. A value is pushed before the arguments. -/
inductive Callee where
  | primitive (name : String)
  | function (unit name : String)
  | value (expression : Expression)
  deriving DecidableEq, Repr

inductive Step where
  | call (callee : Callee) (arguments : List Expression)
  | verbatim (code : String)
  /-- Move the top cell into a variable. -/
  | take (name : String)
  | label (name : String)
  | jump (which : Jump) (label : String)
  | openCounted (depth : Nat) (start step stop : Expression)
  | openEndless (depth : Nat)
  | close
  | breakLoop
  | continueLoop
  | pushIterator (depth : Nat)
  | leave (entry : Bool)
  | reduce (reduction : Reduction)
  deriving DecidableEq, Repr

/-- How a function is entered: the program from outside, any other one by calls. -/
inductive Heading where
  | entry
  | named (unit name : String)
  deriving DecidableEq, Repr

inductive Definition where
  | function (heading : Heading) (parameters : List String) (steps : List Step)
  | constant (unit name literal : String)
  | verbatim (code : String)
  deriving DecidableEq, Repr

/-! ### Names of other definitions -/

/-- A function or constant that code refers to. -/
inductive Global where
  | function (unit name : String)
  | constant (unit name : String)
  deriving DecidableEq, Repr

namespace Global

def unit : Global → String
  | .function unit _ | .constant unit _ => unit

def declaration : Global → String
  | .function unit name => "void " ++ CName.symbol unit name ++ "(int argc, ...);"
  | .constant unit name => "extern const " ++ CName.real ++ " " ++ CName.symbol unit name ++ ";"

end Global

def Expression.globals : Expression → List Global
  | .constant unit name => [.constant unit name]
  | _ => []

def Callee.globals : Callee → List Global
  | .primitive _ => []
  | .function unit name => [.function unit name]
  | .value expression => expression.globals

def Step.globals : Step → List Global
  | .call callee arguments => arguments.flatMap Expression.globals ++ callee.globals
  | .openCounted _ start step stop => start.globals ++ step.globals ++ stop.globals
  | _ => []

def Definition.globals : Definition → List Global
  | .function _ _ steps => steps.flatMap Step.globals
  | _ => []

def Definition.exported : Definition → List Global
  | .function (.named unit name) _ _ => [.function unit name]
  | .constant unit name _ => [.constant unit name]
  | _ => []

/-! ### Text -/

namespace Expression

def cast (text : String) : String := "(" ++ CName.real ++ ")" ++ text

def text : Expression → String
  | .number literal => cast literal
  | .code value => cast (toString value)
  | .constant unit name => CName.symbol unit name
  | .slot name => CName.slot name
  | .address name => cast ("(uintptr_t)&" ++ CName.slot name)
  | .iterator depth => CName.iterator depth

end Expression

/-- A call with the number of its arguments in front of them. -/
def callText (function : String) (arguments : List Expression) : String :=
  function ++ "(" ++
    ", ".intercalate (toString arguments.length :: arguments.map Expression.text) ++ ");"

def underflowGuard (count : Nat) : List Row :=
  [.opening ("if (__qd_stack_ptr < " ++ toString count ++ ") \x7b"),
    .line "__qd_panic_stack_underflow();", .closing "\x7d"]

def popInto (slot : String) : Row :=
  .line (CName.slot slot ++ " = __qd_stack[--__qd_stack_ptr];")

/-- The condition of a jump on the cells it has popped: one compared with zero or two with
one another. -/
def conditionText (operands : Nat) (comparison : String) : String :=
  "__qd_stack[__qd_stack_ptr] " ++ comparison ++ " " ++
    if operands = 2 then "__qd_stack[__qd_stack_ptr + 1]" else "0"

def jumpRows (which : Jump) (label : String) : List Row :=
  let target := Row.line ("goto " ++ label ++ ";")
  match which.comparison? with
  | none => [target]
  | some comparison =>
    underflowGuard which.operands ++
      [.line ("__qd_stack_ptr -= " ++ toString which.operands ++ ";"),
        .opening ("if (" ++ conditionText which.operands comparison ++ ") \x7b"), target,
        .closing "\x7d"]

/-- A loop counts up to its end if its step is not negative, and down to it otherwise. -/
def countedText (depth : Nat) (start step stop : String) : String :=
  let count := CName.iterator depth
  "for (" ++ CName.real ++ " " ++ count ++ " = " ++ start ++ "; (" ++ step ++ ") >= 0 ? " ++
    count ++ " < (" ++ stop ++ ") : " ++ count ++ " > (" ++ stop ++ "); " ++
    count ++ " += (" ++ step ++ ")) \x7b"

def endlessText (depth : Nat) : String :=
  let count := CName.iterator depth
  "for (" ++ CName.real ++ " " ++ count ++ " = 0; ; " ++ count ++ " += 1) \x7b"

def returnText (entry : Bool) : String := if entry then "return 0;" else "return;"

def Step.rows : Step → List Row
  | .call (.primitive name) arguments => [.line (callText (CName.primitive name) arguments)]
  | .call (.function unit name) arguments => [.line (callText (CName.symbol unit name) arguments)]
  | .call (.value expression) arguments =>
    [.line (callText (CName.primitive "push") (expression :: arguments))]
  | .verbatim code => [.verbatim code]
  | .take name => underflowGuard 1 ++ [popInto name]
  | .label name => [.line (name ++ ":;")]
  | .jump which target => jumpRows which target
  | .openCounted depth start step stop =>
    [.opening (countedText depth start.text step.text stop.text)]
  | .openEndless depth => [.opening (endlessText depth)]
  | .close => [.closing "\x7d"]
  | .breakLoop => [.line "break;"]
  | .continueLoop => [.line "continue;"]
  | .pushIterator depth => [.line ("__qd_arg_push(" ++ CName.iterator depth ++ ");")]
  | .leave entry => [.line (returnText entry)]
  | .reduce reduction => [.line ("__qd_reduce(" ++ reduction.selector ++ ");")]

def Heading.rows : Heading → List Row
  | .entry =>
    [.opening "int main(int argc, char** argv) \x7b", .line "(void)argc;", .line "(void)argv;"]
  | .named unit name =>
    [.opening ("void " ++ CName.symbol unit name ++ "(int argc, ...) \x7b"),
      .line "va_list args;", .line "va_start(args, argc);", .line "__qd_push_va(argc, args);",
      .line "va_end(args);"]

def Step.taken? : Step → Option String
  | .take name => some name
  | _ => none

/-- The variables of a function: its parameters and the values that it takes. -/
def slotsOf (parameters : List String) (steps : List Step) : List String :=
  (parameters ++ steps.filterMap Step.taken?).eraseDups

def declareSlot (name : String) : Row :=
  .line (CName.real ++ " " ++ CName.slot name ++ " = 0;")

/-- The last parameter is on the top of the stack. -/
def popParameters (parameters : List String) : List Row :=
  if parameters = [] then []
  else underflowGuard parameters.length ++ parameters.reverse.map popInto

def Heading.endRows : Heading → List Row
  | .entry => [.line (returnText true), .closing "\x7d", .blank]
  | .named _ _ => [.closing "\x7d", .blank]

def Definition.rows : Definition → List Row
  | .function heading parameters steps =>
    heading.rows ++ (slotsOf parameters steps).map declareSlot ++
      popParameters parameters ++ steps.flatMap Step.rows ++ heading.endRows
  | .constant unit name literal =>
    [.line ("const " ++ CName.real ++ " " ++ CName.symbol unit name ++ " = " ++ literal ++ ";"),
      .blank]
  | .verbatim code => [.verbatim code, .blank]

end StackLang
