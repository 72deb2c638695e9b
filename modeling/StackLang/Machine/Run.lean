import StackLang.Machine.Text
import StackLang.Tree.Basic

/-! Running words on the machine. Every word first pushes its arguments. -/
namespace StackLang.Machine

variable {α : Type} [Cell α]

def unary (which : Unary) : Op α Unit := do
  demand 1
  setTop 0 (Cell.unary which (← top 0))

def binary (which : Binary) : Op α Unit := do
  demand 2
  let b ← popCell
  setTop 0 (Cell.binary which (← top 0) b)

def within : Op α Unit := do
  demand 3
  let high ← popCell
  let low ← popCell
  let a ← top 0
  setTop 0 (Cell.ofBool (Cell.atMost low a && Cell.atMost a high))

def discard : Op α Unit := do
  let _ ← popCell

def discardTwo : Op α Unit := do
  demand 2
  setHeight ((← height) - 2)

def duplicate : Op α Unit := do
  demand 1
  pushCell (← top 0)

def duplicateTwo : Op α Unit := do
  demand 2
  let a ← top 1
  let b ← top 0
  pushCell a
  pushCell b

def duplicateBelow : Op α Unit := do
  demand 2
  let b ← popCell
  pushCell (← top 0)
  pushCell b

def exchange (first second : Int) : Op α Unit := do
  let held ← top first
  setTop first (← top second)
  setTop second held

def swap : Op α Unit := do
  demand 2
  exchange 0 1

def swapTwo : Op α Unit := do
  demand 4
  exchange 0 2
  exchange 1 3

def swapBelow : Op α Unit := do
  demand 3
  exchange 1 2

def copySecond : Op α Unit := do
  demand 2
  pushCell (← top 1)

def overTwo : Op α Unit := do
  demand 4
  let a ← top 3
  let b ← top 2
  pushCell a
  pushCell b

def nip : Op α Unit := do
  demand 2
  let b ← popCell
  setTop 0 b

def tuck : Op α Unit := do
  demand 2
  let b ← popCell
  let a ← popCell
  pushCell b
  pushCell a
  pushCell b

def rotate : Op α Unit := do
  demand 3
  let a ← top 2
  setTop 2 (← top 1)
  setTop 1 (← top 0)
  setTop 0 a

def demandDepth (depth : Int) : Op α Unit := do
  if depth < 0 ∨ depth ≥ (← height) then stop .underflow

def pickAt (depth : Int) : Op α Unit := do
  demandDepth depth
  pushCell (← top depth)

def shiftDown : Nat → Op α Unit
  | 0 => pure ()
  | depth + 1 => do
    setTop (depth + 1 : Nat) (← top depth)
    shiftDown depth

def rollAt (depth : Int) : Op α Unit := do
  demandDepth depth
  let value ← top depth
  shiftDown depth.toNat
  setTop 0 value

def pick : Op α Unit := do pickAt (Cell.toWord (← popCell))

def roll : Op α Unit := do rollAt (Cell.toWord (← popCell))

def clear : Op α Unit := modify fun machine => { machine with pointer := 0, marked := 0 }

def depth : Op α Unit := do pushCell (Cell.ofNat (← height).toNat)

def mark : Op α Unit := do
  let machine ← get
  if machine.marked ≥ machine.marks.size then stop .markOverflow
  set { machine with
    marks := ← store machine.marks machine.pointer machine.marked
    marked := machine.marked + 1 }

/-- The height at the innermost mark, which is removed; the bottom if there is none. -/
def popMark : Op α Int := do
  let machine ← get
  if machine.marked ≤ 0 then return 0
  set { machine with marked := machine.marked - 1 }
  fetch machine.marks (machine.marked - 1)

def combine : Reduction → α → α → α
  | .add => Cell.binary .add
  | .sub => Cell.binary .sub
  | .mul => Cell.binary .mul
  | .div => Cell.binary .div

/-- What a reduction makes of no cells. -/
def unit : Reduction → α
  | .add | .sub => Cell.ofNat 0
  | .mul | .div => Cell.ofNat 1

/-- Combine a value with `remaining` cells from an index on. -/
def accumulate (which : Reduction) (index : Int) (value : α) : Nat → Op α α
  | 0 => pure value
  | remaining + 1 => do
    let next ← cell index
    accumulate which (index + 1) (combine which value next) remaining

/-- Replace the cells above the innermost mark by their combination. -/
def reduce (which : Reduction) : Op α Unit := do
  let base ← popMark
  let count ← height
  if base > count then stop .underflow
  if base = count then
    pushCell (unit which)
  else
    let value ← accumulate which (base + 1) (← cell base) (count - base - 1).toNat
    setHeight base
    pushCell value

/-- The texts of `remaining` cells from an index on, each with something before it. -/
def texts (before : String) (index : Int) : Nat → Op α String
  | 0 => pure ""
  | remaining + 1 => do
    let value ← cell index
    return before ++ Cell.text value ++ (← texts before (index + 1) remaining)

def printTop (before : String) : Op α Unit := do
  print (before ++ Cell.text (← popCell) ++ "\n")

def printAll : Op α Unit := do
  let text ← texts " " 0 (← height).toNat
  print (String.ofList (text.toList.drop 1) ++ "\n")

def describeAll : Op α Unit := do
  let count ← height
  let text ← texts " real:" 0 count.toNat
  print ("[" ++ toString count ++ "]" ++ text ++ "\n")

/-- Push the next number of the input, or zero if there is none. -/
def read : Op α Unit := do
  let machine ← get
  let (value, rest) : Option α × List Char := Cell.read machine.input
  set { machine with input := rest }
  pushCell (value.getD (Cell.ofNat 0))

def perform : Primitive → Op α Unit
  | .unary which => unary which
  | .binary which => binary which
  | .within => within
  | .push => pure ()
  | .pop | .drop => discard
  | .drop2 => discardTwo
  | .dup => duplicate
  | .dup2 => duplicateTwo
  | .dupd => duplicateBelow
  | .swap => swap
  | .swap2 => swapTwo
  | .swapd => swapBelow
  | .over => copySecond
  | .over2 => overTwo
  | .nip => nip
  | .tuck => tuck
  | .rot => rotate
  | .pick => pick
  | .roll => roll
  | .clear => clear
  | .depth => depth
  | .mark => mark
  | .print => printTop ""
  | .printv => printTop "real:"
  | .prints => printAll
  | .printsv => describeAll
  | .nl => print "\n"
  | .read => read
  | .error => fail

def call (primitive : Primitive) (arguments : List α) : Op α Unit := do
  pushAll arguments
  perform primitive

end StackLang.Machine
