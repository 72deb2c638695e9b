import StackLang.Machine.Cell
import StackLang.Text.Utf8

/-! The stack machine. Its stack and its marks are arrays of a fixed size with a pointer
each. The pointers and all indices are integers, and an access outside of an array stops
the machine, so that staying inside is a property of the operations and not of the type. -/
namespace StackLang

/-- The sizes of the arrays of a machine and of the buffer of an error message. -/
structure Limits where
  stack : Nat := 1024
  marks : Nat := 64
  message : Nat := 1024
  deriving DecidableEq, Repr

structure Machine (α : Type) where
  cells : Array α
  pointer : Int
  marks : Array Int
  marked : Int
  /-- The size of the buffer of an error message. -/
  messageSize : Nat
  input : List Char
  output : String

inductive Stop where
  | underflow
  | overflow
  | markOverflow
  | error (message : List UInt8)
  /-- An array was accessed where it has no element. -/
  | outside
  deriving DecidableEq, Repr

def Stop.report : Stop → List UInt8
  | .underflow => Text.Utf8.encode "panic: stack underflow\n".toList
  | .overflow => Text.Utf8.encode "panic: stack overflow\n".toList
  | .markOverflow => Text.Utf8.encode "panic: mark stack overflow\n".toList
  | .error [] => Text.Utf8.encode "error\n".toList
  | .error message => Text.Utf8.encode "error: ".toList ++ message.takeWhile (· ≠ 0) ++ [10]
  | .outside => []

namespace Machine

variable {α : Type}

def fresh [Cell α] (limits : Limits) (input : List Char) : Machine α where
  cells := Array.replicate limits.stack (Cell.ofNat 0)
  pointer := 0
  marks := Array.replicate limits.marks 0
  marked := 0
  messageSize := limits.message
  input := input
  output := ""

/-- The cells below the stack pointer, the bottom one first. -/
def live (machine : Machine α) : List α := machine.cells.toList.take machine.pointer.toNat

abbrev Op (α β : Type) := StateT (Machine α) (Except Stop) β

def stop {β : Type} (reason : Stop) : Op α β := fun _ => .error reason

def fetch {β : Type} (array : Array β) : Int → Except Stop β
  | .ofNat index => if inside : index < array.size then .ok array[index] else .error .outside
  | .negSucc _ => .error .outside

def store {β : Type} (array : Array β) (value : β) : Int → Except Stop (Array β)
  | .ofNat index =>
    if inside : index < array.size then .ok (array.set index value inside) else .error .outside
  | .negSucc _ => .error .outside

def cell (index : Int) : Op α α := do fetch (← get).cells index

def setCell (index : Int) (value : α) : Op α Unit := do
  let machine ← get
  set { machine with cells := ← store machine.cells value index }

def height : Op α Int := do return (← get).pointer

def setHeight (height : Int) : Op α Unit :=
  modify fun machine => { machine with pointer := height }

/-- The cell at a depth below the top one. -/
def top (depth : Int) : Op α α := do cell ((← height) - 1 - depth)

def setTop (depth : Int) (value : α) : Op α Unit := do setCell ((← height) - 1 - depth) value

/-- Stop unless the stack has so many cells. -/
def demand (count : Int) : Op α Unit := do
  if (← height) < count then stop .underflow

def pushCell (value : α) : Op α Unit := do
  let machine ← get
  if machine.pointer ≥ machine.cells.size then stop .overflow
  setCell machine.pointer value
  setHeight (machine.pointer + 1)

def popCell : Op α α := do
  let count ← height
  if count ≤ 0 then stop .underflow
  setHeight (count - 1)
  cell (count - 1)

def pushAll : List α → Op α Unit
  | [] => pure ()
  | value :: values => do
    pushCell value
    pushAll values

def print (text : String) : Op α Unit :=
  modify fun machine => { machine with output := machine.output ++ text }

end Machine

end StackLang
