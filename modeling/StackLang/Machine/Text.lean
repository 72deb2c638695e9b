import StackLang.Machine.Basic

/-! Texts on the stack. A text is pushed as its length, a cell for each character and a
zero; it is taken from the top by looking down for a cell that counts the cells passed. -/
namespace StackLang.Machine

variable {α : Type} [Cell α]

/-- The first cell below the top that is equal to the number of cells between it and the
top one, looked for in `remaining` cells from the `passed`th on. -/
def findCount (passed : Nat) : Nat → Op α (Option Nat)
  | 0 => pure none
  | remaining + 1 => do
    if Cell.same (← top (passed + 1)) (Cell.ofNat passed) then return some passed
    findCount (passed + 1) remaining

def setByte (buffer : Array UInt8) (index : Int) (value : UInt8) : Op α (Array UInt8) := do
  store buffer value index

/-- Copy `remaining` cells from an index on into a buffer, from its `copied`th byte on. -/
def copyText (first : Int) (copied : Nat) : Nat → Array UInt8 → Op α (Array UInt8)
  | 0, buffer => pure buffer
  | remaining + 1, buffer => do
    let value ← cell (first + copied)
    let buffer ← setByte buffer copied (Cell.toByte value)
    copyText first (copied + 1) remaining buffer

/-- Take a text from the stack into a buffer, of which `size` bytes may be used, and count
its characters. Without a zero on the top there is no text and the stack stays as it is. -/
def popText (buffer : Array UInt8) (size : Int) : Op α (Nat × Array UInt8) := do
  demand 2
  if !Cell.same (← top 0) (Cell.ofNat 0) then
    return (0, ← setByte buffer 0 0)
  let count ← height
  let some found ← findCount 0 (count - 1).toNat | stop .underflow
  let base := count - 2 - found
  let length := min found (size - 1).toNat
  let buffer ← copyText (base + 1) 0 length buffer
  let buffer ← setByte buffer length 0
  setHeight base
  return (length, buffer)

/-- Stop with the text on the top of the stack as the message, if there is one. -/
def fail : Op α Unit := do
  let machine ← get
  if machine.pointer < 2 then stop (.error [])
  let (length, buffer) ← popText (Array.replicate machine.messageSize 0) machine.messageSize
  stop (.error (buffer.toList.take length))

end StackLang.Machine
