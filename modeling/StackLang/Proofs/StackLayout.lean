import StackLang.Proofs.MachineBounds
import StackLang.Proofs.Stack

/-! A machine laid out as lists. The cells below the pointer are its stack, the bottom first, and
those above are spare. On a machine that is laid out every access is an equation, so that what an
operation does is found by rewriting, the cells that it leaves above the stack included. -/
namespace StackLang.Machine

variable {α β γ : Type} {machine : Machine α} {spare : List α}

theorem bind_stopped {op : Op α β} {next : β → Op α γ} {reason : Stop}
    (stopped : op machine = .error reason) : (op >>= next) machine = .error reason := by
  change (op machine >>= fun pair => next pair.1 pair.2) = _
  rw [stopped]
  rfl

def withStack (machine : Machine α) (stack spare : List α) : Machine α :=
  { machine with cells := (stack ++ spare).toArray, pointer := stack.length }

def free (machine : Machine α) : List α := machine.cells.toList.drop machine.pointer.toNat

theorem Inside.holds_live {limits : Limits} (inside : machine.Inside limits) :
    machine.Holds machine.live := by
  refine .of_pointer inside.low ?_
  rw [inside.cells]
  exact inside.high

theorem Inside.withStack_live_free {limits : Limits} (inside : machine.Inside limits) :
    machine.withStack machine.live machine.free = machine := by
  have whole : machine.live ++ machine.free = machine.cells.toList := List.take_append_drop _ _
  rw [withStack, whole, ← inside.holds_live.pointer]

theorem exists_free (low : 0 ≤ machine.pointer) (room : machine.pointer < machine.cells.size) :
    ∃ old spare, machine.free = old :: spare := by
  apply List.exists_cons_of_length_pos
  rw [free, List.length_drop, Array.length_toList]
  omega

/-- The cell at a place of a stack, with those below it and those above. -/
theorem exists_at_place {stack : List α} {place : Nat} (inside : place < stack.length) :
    ∃ below value above, stack = below ++ value :: above ∧ below.length = place := by
  refine ⟨stack.take place, stack[place], stack.drop (place + 1), ?_, ?_⟩
  · rw [List.getElem_cons_drop, List.take_append_drop]
  · exact List.length_take_of_le (Nat.le_of_lt inside)

theorem holds_withStack (machine : Machine α) (stack spare : List α) :
    (machine.withStack stack spare).Holds stack :=
  ⟨rfl, by simp [withStack], by simp [withStack]⟩

@[simp] theorem live_withStack (machine : Machine α) (stack spare : List α) :
    (machine.withStack stack spare).live = stack :=
  (holds_withStack machine stack spare).live

@[simp] theorem withStack_withStack (machine : Machine α) (stack spare stack' spare' : List α) :
    (machine.withStack stack spare).withStack stack' spare' = machine.withStack stack' spare' := rfl

theorem Inside.withStack {limits : Limits} (inside : machine.Inside limits) {stack : List α}
    (size : stack.length + spare.length = limits.stack) :
    (machine.withStack stack spare).Inside limits where
  cells := by simpa [Machine.withStack] using size
  marks := inside.marks
  message := inside.message
  low := Int.natCast_nonneg _
  high := by
    change (stack.length : Int) ≤ limits.stack
    omega
  markedLow := inside.markedLow
  markedHigh := inside.markedHigh
  recorded := inside.recorded

/-! ### Accesses -/

theorem height_withStack (machine : Machine α) (stack spare : List α) :
    height (machine.withStack stack spare) =
      .ok ((stack.length : Int), machine.withStack stack spare) := rfl

theorem cell_of_cells {front back : List α} {value : α}
    (cells : machine.cells = (front ++ value :: back).toArray) :
    cell front.length machine = .ok (value, machine) := by
  have inside : front.length < (front ++ value :: back).toArray.size := by simp
  change (fetch machine.cells (front.length : Int) >>= fun value => .ok (value, machine)) = _
  have fetched : fetch machine.cells (front.length : Int) = .ok value := by
    rw [cells]
    exact (dif_pos inside).trans (by simp)
  rw [fetched]
  rfl

theorem cell_withStack (below above : List α) (value : α) :
    cell below.length (machine.withStack (below ++ value :: above) spare) =
      .ok (value, machine.withStack (below ++ value :: above) spare) :=
  (holds_withStack _ _ _).cell (by simp)

theorem top_withStack (below above : List α) (value : α) :
    top above.length (machine.withStack (below ++ value :: above) spare) =
      .ok (value, machine.withStack (below ++ value :: above) spare) :=
  (holds_withStack _ _ _).top

theorem setCell_of_cells {front back : List α} {old : α}
    (cells : machine.cells = (front ++ old :: back).toArray) (value : α) :
    setCell front.length value machine =
      .ok ((), { machine with cells := (front ++ value :: back).toArray }) := by
  have inside : front.length < (front ++ old :: back).toArray.size := by simp
  change ((store machine.cells value (front.length : Int) >>= fun cells => .ok (cells, machine)) >>=
    fun pair => .ok ((), { machine with cells := pair.1 })) = _
  rw [cells, store_inside inside]
  simp [bind, Except.bind]

theorem setTop_withStack (below above : List α) (old value : α) :
    setTop above.length value (machine.withStack (below ++ old :: above) spare) =
      .ok ((), machine.withStack (below ++ value :: above) spare) := by
  have place : ((below ++ old :: above).length : Int) - 1 - above.length = below.length := by
    rw [List.length_append, List.length_cons]
    omega
  have cells : (machine.withStack (below ++ old :: above) spare).cells =
      (below ++ old :: (above ++ spare)).toArray := by simp [withStack]
  rw [setTop, bind_ran (height_withStack _ _ _), place, setCell_of_cells cells]
  simp [withStack]

theorem setHeight_withStack (below above : List α) :
    setHeight below.length (machine.withStack (below ++ above) spare) =
      .ok ((), machine.withStack below (above ++ spare)) := by
  change Except.ok ((), { machine.withStack (below ++ above) spare with
    pointer := (below.length : Int) }) = _
  simp [withStack]

/-! ### Pushing and popping -/

theorem pushCell_withStack (stack spare : List α) (old value : α) :
    pushCell value (machine.withStack stack (old :: spare)) =
      .ok ((), machine.withStack (stack ++ [value]) spare) := by
  have room : ¬(stack.length : Int) ≥ (stack ++ old :: spare).toArray.size := by
    rw [List.size_toArray, List.length_append, List.length_cons]
    omega
  -- The free cell is written over where it stands, and then counted to the stack.
  have written := @setCell_of_cells _ (machine.withStack stack (old :: spare)) _ _ _ rfl value
  change (if (stack.length : Int) ≥ (stack ++ old :: spare).toArray.size then _ else _ : Op α Unit)
    (machine.withStack stack (old :: spare)) = _
  rw [if_neg room]
  refine (bind_ran written).trans ?_
  change Except.ok ((), { machine with
    cells := (stack ++ value :: spare).toArray, pointer := (stack.length : Int) + 1 }) = _
  simp [withStack]

theorem pushCell_full (stack : List α) (value : α) :
    pushCell value (machine.withStack stack []) = .error .overflow := by
  have full : (stack.length : Int) ≥ (stack ++ []).toArray.size := by simp
  change (if (stack.length : Int) ≥ (stack ++ []).toArray.size then _ else _ : Op α Unit)
    (machine.withStack stack []) = _
  rw [if_pos full]
  rfl

theorem popCell_withStack (stack spare : List α) (value : α) :
    popCell (machine.withStack (stack ++ [value]) spare) =
      .ok (value, machine.withStack stack (value :: spare)) := by
  have some : ¬((stack ++ [value]).length : Int) ≤ 0 := by simp
  have lowered : ((stack ++ [value]).length : Int) - 1 = stack.length := by simp
  rw [popCell, bind_ran (height_withStack _ _ _), if_neg some, lowered]
  exact (bind_ran (setHeight_withStack stack [value])).trans (cell_of_cells rfl)

/-! ### Guards -/

theorem demand_withStack (stack spare : List α) (count : Int) :
    demand count (machine.withStack stack spare) =
      if stack.length < count then .error .underflow
      else .ok ((), machine.withStack stack spare) := by
  rw [demand, bind_ran (height_withStack _ _ _)]
  split <;> rfl

theorem demandDepth_withStack (stack spare : List α) (depth : Int) :
    demandDepth depth (machine.withStack stack spare) =
      if depth < 0 ∨ stack.length ≤ depth then .error .underflow
      else .ok ((), machine.withStack stack spare) := by
  rw [demandDepth, bind_ran (height_withStack _ _ _)]
  split <;> rfl

end StackLang.Machine
