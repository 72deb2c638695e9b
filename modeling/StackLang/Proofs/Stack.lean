import StackLang.Machine.Text

/-! The stack of a machine as a list, the bottom first. An operation that stays inside of the list
is described by what it does to the list. -/
namespace StackLang.Machine

variable {α β γ : Type}

theorem bind_ran {op : Op α β} {next : β → Op α γ} {machine after : Machine α} {value : β}
    (ran : op machine = .ok (value, after)) : (op >>= next) machine = next value after := by
  change (op machine >>= fun pair => next pair.1 pair.2) = _
  rw [ran]
  rfl

theorem take_succ_set {list : List β} {index : Nat} (inside : index < list.length) (value : β) :
    (list.set index value).take (index + 1) = list.take index ++ [value] := by
  rw [List.take_succ_eq_append_getElem (by simpa using inside),
    List.take_set_of_le (Nat.le_refl _), List.getElem_set_self]

theorem store_inside {array : Array β} {index : Nat} (inside : index < array.size) (value : β) :
    store array value (index : Int) = .ok (array.set index value inside) :=
  dif_pos inside

theorem setByte_inside {buffer : Array UInt8} {index : Nat} (inside : index < buffer.size)
    (value : UInt8) :
    setByte buffer index value machine = .ok (buffer.set index value inside, machine) := by
  change (store buffer value index >>= fun stored => .ok (stored, machine)) = _
  rw [store_inside inside]
  rfl

/-- The cells below the pointer, which is inside of the stack. -/
structure Holds (machine : Machine α) (stack : List α) : Prop where
  pointer : machine.pointer = stack.length
  inside : stack.length ≤ machine.cells.size
  cells : machine.cells.toList.take stack.length = stack

namespace Holds

variable {machine : Machine α} {stack : List α}

theorem live (holds : machine.Holds stack) : machine.live = stack := by
  rw [Machine.live, holds.pointer]
  exact holds.cells

theorem of_pointer (low : 0 ≤ machine.pointer) (high : machine.pointer ≤ machine.cells.size) :
    machine.Holds machine.live := by
  have length : machine.live.length = machine.pointer.toNat := by
    rw [Machine.live, List.length_take, Array.length_toList]
    omega
  refine ⟨by omega, by omega, ?_⟩
  rw [length]
  rfl

theorem height (holds : machine.Holds stack) :
    height machine = .ok ((stack.length : Int), machine) := by
  rw [← holds.pointer]
  rfl

theorem cell {index : Nat} {value : α} (holds : machine.Holds stack)
    (found : stack[index]? = some value) : cell index machine = .ok (value, machine) := by
  obtain ⟨below, same⟩ := List.getElem?_eq_some_iff.mp found
  have inside : index < machine.cells.size := Nat.lt_of_lt_of_le below holds.inside
  have stored : machine.cells[index] = value := by
    rw [← same, ← Array.getElem_toList]
    rw [List.getElem_of_eq holds.cells.symm, List.getElem_take]
  change (fetch machine.cells (index : Int) >>= fun value => .ok (value, machine)) = _
  have fetched : fetch machine.cells (index : Int) = .ok value := by
    change (if inside : index < machine.cells.size then _ else _) = _
    rw [dif_pos inside, stored]
  rw [fetched]
  rfl

theorem top {below above : List α} {value : α} (holds : machine.Holds (below ++ value :: above)) :
    top above.length machine = .ok (value, machine) := by
  have place : ((below ++ value :: above).length : Int) - 1 - above.length = below.length := by
    simp
    omega
  rw [Machine.top, bind_ran holds.height, place]
  exact holds.cell (by simp)

theorem pushCell (holds : machine.Holds stack) (value : α)
    (room : stack.length < machine.cells.size) :
    ∃ after : Machine α, pushCell value machine = .ok ((), after) ∧
      after.Holds (stack ++ [value]) ∧ after.cells.size = machine.cells.size := by
  let cells := machine.cells.set stack.length value room
  have written : setCell machine.pointer value machine = .ok ((), { machine with cells }) := by
    change ((store machine.cells value machine.pointer >>= fun cells => .ok (cells, machine)) >>=
      fun pair => .ok ((), { machine with cells := pair.1 })) = _
    rw [holds.pointer, store_inside room]
    rfl
  refine ⟨{ machine with cells, pointer := machine.pointer + 1 }, ?_, ⟨?_, ?_, ?_⟩, ?_⟩
  · have free : ¬machine.pointer ≥ machine.cells.size := by
      rw [holds.pointer]
      omega
    change (if machine.pointer ≥ machine.cells.size then _ else _ : Op α Unit) machine = _
    rw [if_neg free]
    exact bind_ran written
  · change machine.pointer + 1 = _
    rw [holds.pointer]
    simp
  · simpa [cells] using Nat.succ_le_of_lt room
  · rw [List.length_append, List.length_singleton, Array.toList_set,
      take_succ_set (by simpa using room), holds.cells]
  · simp [cells]

theorem pushAll (values : List α) (holds : machine.Holds stack)
    (room : stack.length + values.length ≤ machine.cells.size) :
    ∃ after : Machine α, pushAll values machine = .ok ((), after) ∧
      after.Holds (stack ++ values) ∧ after.cells.size = machine.cells.size := by
  induction values generalizing machine stack with
  | nil => exact ⟨machine, rfl, by simpa using holds, rfl⟩
  | cons value values ih =>
    have next : stack.length < machine.cells.size := by
      simp only [List.length_cons] at room
      omega
    obtain ⟨between, pushed, held, sized⟩ := holds.pushCell value next
    obtain ⟨after, others, holding, same⟩ := ih held (by simp at room ⊢; omega)
    refine ⟨after, ?_, by simpa using holding, same.trans sized⟩
    rw [Machine.pushAll, bind_ran pushed, others]

theorem setHeight {below above : List α} (holds : machine.Holds (below ++ above)) :
    ∃ after : Machine α, setHeight below.length machine = .ok ((), after) ∧ after.Holds below := by
  refine ⟨{ machine with pointer := below.length }, rfl, rfl, ?_, ?_⟩
  · have inside := holds.inside
    simp only [List.length_append] at inside
    exact Nat.le_trans (Nat.le_add_right _ _) inside
  · have cut := congrArg (List.take below.length) holds.cells
    simpa [List.take_take] using cut

end Holds

end StackLang.Machine
