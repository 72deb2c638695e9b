import StackLang.Machine.Run

/-! The machine stays inside of its arrays. The pointers, the recorded marks and the sizes of the
arrays are an invariant of every operation, and an operation that starts inside of it never reaches
for an element that is not there: it ends inside, or it stops for a reason of its own. -/
namespace StackLang.Machine

variable {α β γ : Type} {limits : Limits} {machine : Machine α}

/-- The arrays have the sizes that were asked for, both pointers are inside of them, and every mark
is a height that the stack can have. -/
structure Inside (limits : Limits) (machine : Machine α) : Prop where
  cells : machine.cells.size = limits.stack
  marks : machine.marks.size = limits.marks
  message : machine.messageSize = limits.message
  low : 0 ≤ machine.pointer
  high : machine.pointer ≤ limits.stack
  markedLow : 0 ≤ machine.marked
  markedHigh : machine.marked ≤ limits.marks
  recorded : ∀ mark ∈ machine.marks, 0 ≤ mark ∧ mark ≤ limits.stack

/-- No array is accessed outside of it, and if an operation does not stop, something holds of its
value and of the machine behind it. -/
def Stays (op : Op α β) (machine : Machine α) (post : β → Machine α → Prop) : Prop :=
  match op machine with
  | .ok (value, after) => post value after
  | .error reason => reason ≠ .outside

section Combinators

variable {post : β → Machine α → Prop}

theorem Stays.bind {op : Op α γ} {next : γ → Op α β} {middle : γ → Machine α → Prop}
    (first : Stays op machine middle)
    (second : ∀ value after, middle value after → Stays (next value) after post) :
    Stays (op >>= next) machine post := by
  unfold Stays at first ⊢
  change match (op machine >>= fun pair => next pair.1 pair.2) with
    | .ok (value, after) => post value after
    | .error reason => reason ≠ .outside
  cases ran : op machine with
  | error reason =>
    rw [ran] at first
    exact first
  | ok pair =>
    rw [ran] at first
    exact second pair.1 pair.2 first

theorem Stays.imp {op : Op α β} {stronger : β → Machine α → Prop}
    (stays : Stays op machine stronger)
    (weaker : ∀ value after, stronger value after → post value after) :
    Stays op machine post := by
  unfold Stays at stays ⊢
  split at stays
  · next value after ran => exact weaker value after stays
  · next reason ran => exact stays

theorem Stays.left {op : Op α β} {other : β → Machine α → Prop}
    (stays : Stays op machine fun value after => post value after ∧ other value after) :
    Stays op machine post :=
  stays.imp fun _ _ both => both.1

theorem stays_pure {value : β} (holds : post value machine) : Stays (pure value) machine post :=
  holds

theorem stays_stop {reason : Stop} (other : reason ≠ .outside) :
    Stays (stop reason : Op α β) machine post :=
  other

theorem stays_stop_bind {reason : Stop} {next : γ → Op α β} (other : reason ≠ .outside) :
    Stays ((stop reason : Op α γ) >>= next) machine post :=
  other

theorem stays_get :
    Stays get machine fun found after => found = machine ∧ after = machine :=
  ⟨rfl, rfl⟩

theorem stays_set (replaced : Machine α) :
    Stays (set replaced) machine fun _ after => after = replaced :=
  rfl

theorem stays_modify (change : Machine α → Machine α) :
    Stays (modify change) machine fun _ after => after = change machine :=
  rfl

theorem stays_lift {outcome : Except Stop β} {value : β} (done : outcome = .ok value) :
    Stays (liftM outcome : Op α β) machine fun found after => found = value ∧ after = machine := by
  subst done
  exact ⟨rfl, rfl⟩

end Combinators

section Accesses

theorem exists_fetch {array : Array β} {index : Int} (low : 0 ≤ index) (high : index < array.size) :
    ∃ value ∈ array, fetch array index = .ok value := by
  obtain ⟨place, rfl⟩ := Int.eq_ofNat_of_zero_le low
  have inside : place < array.size := by omega
  exact ⟨array[place], Array.getElem_mem inside, dif_pos inside⟩

theorem exists_store {array : Array β} {index : Int} (value : β) (low : 0 ≤ index)
    (high : index < array.size) :
    ∃ stored, store array value index = .ok stored ∧ stored.size = array.size ∧
      ∀ element ∈ stored, element ∈ array ∨ element = value := by
  obtain ⟨place, rfl⟩ := Int.eq_ofNat_of_zero_le low
  have inside : place < array.size := by omega
  refine ⟨array.set place value inside, dif_pos inside, Array.size_set _, ?_⟩
  intro element member
  exact Array.mem_or_eq_of_mem_set member

theorem stays_height :
    Stays height machine fun found after => found = machine.pointer ∧ after = machine :=
  ⟨rfl, rfl⟩

theorem Inside.cell (inside : machine.Inside limits) {index : Int} (low : 0 ≤ index)
    (high : index < limits.stack) :
    Stays (Machine.cell index) machine fun _ after => after = machine := by
  obtain ⟨value, _, fetched⟩ := exists_fetch low (by rw [inside.cells]; exact high)
  refine stays_get.bind ?_
  rintro _ _ ⟨rfl, rfl⟩
  exact (stays_lift fetched).imp fun _ _ same => same.2

theorem Inside.setCell (inside : machine.Inside limits) {index : Int} (value : α)
    (low : 0 ≤ index) (high : index < limits.stack) :
    Stays (Machine.setCell index value) machine fun _ after =>
      after.Inside limits ∧ after.pointer = machine.pointer := by
  obtain ⟨stored, storing, size, _⟩ := exists_store value low (by rw [inside.cells]; exact high)
  refine stays_get.bind ?_
  rintro _ _ ⟨rfl, rfl⟩
  refine (stays_lift storing).bind ?_
  rintro _ _ ⟨rfl, rfl⟩
  refine (stays_set _).imp ?_
  rintro _ _ rfl
  exact ⟨{ inside with cells := size.trans inside.cells }, rfl⟩

theorem Inside.setHeight (inside : machine.Inside limits) {height : Int} (low : 0 ≤ height)
    (high : height ≤ limits.stack) :
    Stays (Machine.setHeight height) machine fun _ after =>
      after.Inside limits ∧ after.pointer = height :=
  ⟨{ inside with low, high }, rfl⟩

theorem Inside.top (inside : machine.Inside limits) {depth : Int} (low : 0 ≤ depth)
    (below : depth < machine.pointer) :
    Stays (Machine.top depth) machine fun _ after => after = machine := by
  have high := inside.high
  refine stays_height.bind ?_
  rintro _ _ ⟨rfl, rfl⟩
  exact inside.cell (by omega) (by omega)

theorem Inside.setTop (inside : machine.Inside limits) {depth : Int} (value : α)
    (low : 0 ≤ depth) (below : depth < machine.pointer) :
    Stays (Machine.setTop depth value) machine fun _ after =>
      after.Inside limits ∧ after.pointer = machine.pointer := by
  have high := inside.high
  refine stays_height.bind ?_
  rintro _ _ ⟨rfl, rfl⟩
  exact inside.setCell value (by omega) (by omega)

theorem stays_demand (count : Int) :
    Stays (demand count) machine fun _ after => after = machine ∧ count ≤ machine.pointer := by
  refine stays_height.bind ?_
  rintro _ _ ⟨rfl, rfl⟩
  split
  · exact stays_stop (by simp)
  · next enough => exact stays_pure ⟨rfl, by omega⟩

theorem Inside.pushCell (inside : machine.Inside limits) (value : α) :
    Stays (Machine.pushCell value) machine fun _ after =>
      after.Inside limits ∧ after.pointer = machine.pointer + 1 := by
  have low := inside.low
  refine stays_get.bind ?_
  rintro _ _ ⟨rfl, rfl⟩
  split
  · exact stays_stop_bind (by simp)
  · next room =>
    rw [inside.cells] at room
    refine (inside.setCell value low (by omega)).bind fun _ _ ⟨written, _⟩ => ?_
    exact written.setHeight (by omega) (by omega)

theorem Inside.popCell (inside : machine.Inside limits) :
    Stays Machine.popCell machine fun _ after =>
      after.Inside limits ∧ after.pointer = machine.pointer - 1 := by
  have high := inside.high
  refine stays_height.bind ?_
  rintro _ _ ⟨rfl, rfl⟩
  split
  · exact stays_stop_bind (by simp)
  · next some =>
    refine (inside.setHeight (by omega) (by omega)).bind fun _ _ ⟨lowered, pointer⟩ => ?_
    refine (lowered.cell (by omega) (by omega)).imp ?_
    rintro _ _ rfl
    exact ⟨lowered, pointer⟩

theorem Inside.pushAll (inside : machine.Inside limits) (values : List α) :
    Stays (Machine.pushAll values) machine fun _ after => after.Inside limits := by
  induction values generalizing machine with
  | nil => exact stays_pure inside
  | cons value values ih =>
    exact (inside.pushCell value).bind fun _ _ ⟨pushed, _⟩ => ih pushed

theorem Inside.print (inside : machine.Inside limits) (text : String) :
    Stays (Machine.print text) machine fun _ after => after.Inside limits :=
  { inside with }

end Accesses

section Moves

theorem Inside.discard (inside : machine.Inside limits) :
    Stays Machine.discard machine fun _ after => after.Inside limits :=
  inside.popCell.bind fun _ _ ⟨popped, _⟩ => stays_pure popped

theorem Inside.discardTwo (inside : machine.Inside limits) :
    Stays Machine.discardTwo machine fun _ after => after.Inside limits := by
  have high := inside.high
  refine (stays_demand 2).bind ?_
  rintro _ _ ⟨rfl, enough⟩
  refine stays_height.bind ?_
  rintro _ _ ⟨rfl, rfl⟩
  exact (inside.setHeight (by omega) (by omega)).left

theorem Inside.duplicate (inside : machine.Inside limits) :
    Stays Machine.duplicate machine fun _ after => after.Inside limits := by
  refine (stays_demand 1).bind ?_
  rintro _ _ ⟨rfl, enough⟩
  refine (inside.top (by omega) (by omega)).bind ?_
  rintro _ _ rfl
  exact (inside.pushCell _).left

/-- Two cells are copied to the top, the deeper one first. -/
theorem Inside.copyTwo (inside : machine.Inside limits) (depth : Nat)
    (enough : depth + 2 ≤ machine.pointer) :
    Stays (do
      let a ← Machine.top (depth + 1 : Int)
      let b ← Machine.top depth
      Machine.pushCell a
      Machine.pushCell b) machine fun _ after => after.Inside limits := by
  refine (inside.top (by omega) (by omega)).bind ?_
  rintro first _ rfl
  refine (inside.top (by omega) (by omega)).bind ?_
  rintro second _ rfl
  refine (inside.pushCell first).bind fun _ _ ⟨pushed, _⟩ => ?_
  exact (pushed.pushCell second).left

theorem Inside.duplicateTwo (inside : machine.Inside limits) :
    Stays Machine.duplicateTwo machine fun _ after => after.Inside limits := by
  refine (stays_demand 2).bind ?_
  rintro _ _ ⟨rfl, enough⟩
  exact inside.copyTwo 0 enough

theorem Inside.overTwo (inside : machine.Inside limits) :
    Stays Machine.overTwo machine fun _ after => after.Inside limits := by
  refine (stays_demand 4).bind ?_
  rintro _ _ ⟨rfl, enough⟩
  exact inside.copyTwo 2 enough

theorem Inside.duplicateBelow (inside : machine.Inside limits) :
    Stays Machine.duplicateBelow machine fun _ after => after.Inside limits := by
  refine (stays_demand 2).bind ?_
  rintro _ _ ⟨rfl, enough⟩
  refine inside.popCell.bind fun last _ ⟨popped, pointer⟩ => ?_
  refine (popped.top (by omega) (by omega)).bind ?_
  rintro second _ rfl
  refine (popped.pushCell second).bind fun _ _ ⟨pushed, _⟩ => ?_
  exact (pushed.pushCell last).left

theorem Inside.exchange (inside : machine.Inside limits) {first second : Int} (low : 0 ≤ first)
    (low' : 0 ≤ second) (below : first < machine.pointer) (below' : second < machine.pointer) :
    Stays (Machine.exchange first second) machine fun _ after =>
      after.Inside limits ∧ after.pointer = machine.pointer := by
  refine (inside.top low below).bind ?_
  rintro held _ rfl
  refine (inside.top low' below').bind ?_
  rintro value _ rfl
  refine (inside.setTop value low below).bind fun _ _ ⟨written, pointer⟩ => ?_
  refine (written.setTop held low' (by omega)).imp fun _ _ ⟨kept, same⟩ => ?_
  exact ⟨kept, same.trans pointer⟩

theorem Inside.swap (inside : machine.Inside limits) :
    Stays Machine.swap machine fun _ after => after.Inside limits := by
  refine (stays_demand 2).bind ?_
  rintro _ _ ⟨rfl, enough⟩
  refine (inside.exchange ?_ ?_ ?_ ?_).left
  all_goals omega

theorem Inside.swapTwo (inside : machine.Inside limits) :
    Stays Machine.swapTwo machine fun _ after => after.Inside limits := by
  refine (stays_demand 4).bind ?_
  rintro _ here ⟨rfl, enough⟩
  have first : Stays (Machine.exchange 0 2) here fun _ after =>
      after.Inside limits ∧ after.pointer = here.pointer := by
    apply inside.exchange <;> omega
  refine first.bind fun _ _ ⟨kept, pointer⟩ => ?_
  refine (kept.exchange ?_ ?_ ?_ ?_).left
  all_goals omega

theorem Inside.swapBelow (inside : machine.Inside limits) :
    Stays Machine.swapBelow machine fun _ after => after.Inside limits := by
  refine (stays_demand 3).bind ?_
  rintro _ _ ⟨rfl, enough⟩
  refine (inside.exchange ?_ ?_ ?_ ?_).left
  all_goals omega

theorem Inside.copySecond (inside : machine.Inside limits) :
    Stays Machine.copySecond machine fun _ after => after.Inside limits := by
  refine (stays_demand 2).bind ?_
  rintro _ _ ⟨rfl, enough⟩
  refine (inside.top (by omega) (by omega)).bind ?_
  rintro _ _ rfl
  exact (inside.pushCell _).left

theorem Inside.nip (inside : machine.Inside limits) :
    Stays Machine.nip machine fun _ after => after.Inside limits := by
  refine (stays_demand 2).bind ?_
  rintro _ _ ⟨rfl, enough⟩
  refine inside.popCell.bind fun last _ ⟨popped, pointer⟩ => ?_
  exact (popped.setTop last (by omega) (by omega)).left

theorem Inside.tuck (inside : machine.Inside limits) :
    Stays Machine.tuck machine fun _ after => after.Inside limits := by
  refine (stays_demand 2).bind ?_
  rintro _ _ ⟨rfl, enough⟩
  refine inside.popCell.bind fun last _ ⟨popped, _⟩ => ?_
  refine popped.popCell.bind fun second _ ⟨popped, _⟩ => ?_
  refine (popped.pushCell last).bind fun _ _ ⟨pushed, _⟩ => ?_
  refine (pushed.pushCell second).bind fun _ _ ⟨pushed, _⟩ => ?_
  exact (pushed.pushCell last).left

theorem Inside.rotate (inside : machine.Inside limits) :
    Stays Machine.rotate machine fun _ after => after.Inside limits := by
  refine (stays_demand 3).bind ?_
  rintro _ _ ⟨rfl, enough⟩
  refine (inside.top (by omega) (by omega)).bind ?_
  rintro third _ rfl
  refine (inside.top (by omega) (by omega)).bind ?_
  rintro second _ rfl
  refine (inside.setTop second (by omega) (by omega)).bind fun _ _ ⟨written, sameHeight⟩ => ?_
  refine (written.top (by omega) (by omega)).bind ?_
  rintro first _ rfl
  refine (written.setTop first (by omega) (by omega)).bind fun _ _ ⟨rewritten, stillSame⟩ => ?_
  exact (rewritten.setTop third (by omega) (by omega)).left

/-- Whatever whole number a cell counts, the depths of the stack are the only ones let through. -/
theorem stays_demandDepth (depth : Int) :
    Stays (demandDepth depth) machine fun _ after =>
      after = machine ∧ 0 ≤ depth ∧ depth < machine.pointer := by
  refine stays_height.bind ?_
  rintro _ _ ⟨rfl, rfl⟩
  split
  · exact stays_stop (by simp)
  · next within => exact stays_pure ⟨rfl, by omega, by omega⟩

theorem Inside.pickAt (inside : machine.Inside limits) (depth : Int) :
    Stays (Machine.pickAt depth) machine fun _ after => after.Inside limits := by
  refine (stays_demandDepth depth).bind ?_
  rintro _ _ ⟨rfl, low, below⟩
  refine (inside.top low below).bind ?_
  rintro _ _ rfl
  exact (inside.pushCell _).left

theorem Inside.shiftDown (inside : machine.Inside limits) (depth : Nat)
    (below : depth < machine.pointer) :
    Stays (Machine.shiftDown depth) machine fun _ after =>
      after.Inside limits ∧ after.pointer = machine.pointer := by
  induction depth generalizing machine with
  | zero => exact stays_pure ⟨inside, rfl⟩
  | succ depth ih =>
    refine (inside.top (by omega) (by omega)).bind ?_
    rintro _ _ rfl
    refine (inside.setTop _ (by omega) (by omega)).bind fun _ _ ⟨written, pointer⟩ => ?_
    refine (ih written (by omega)).imp fun _ _ ⟨kept, same⟩ => ?_
    exact ⟨kept, same.trans pointer⟩

theorem Inside.rollAt (inside : machine.Inside limits) (depth : Int) :
    Stays (Machine.rollAt depth) machine fun _ after => after.Inside limits := by
  refine (stays_demandDepth depth).bind ?_
  rintro _ _ ⟨rfl, low, below⟩
  refine (inside.top low below).bind ?_
  rintro value _ rfl
  refine (inside.shiftDown depth.toNat (by omega)).bind fun _ _ ⟨shifted, pointer⟩ => ?_
  exact (shifted.setTop value (by omega) (by omega)).left

theorem Inside.clear (inside : machine.Inside limits) :
    Stays Machine.clear machine fun _ after => after.Inside limits := by
  refine (stays_modify _).imp ?_
  rintro _ _ rfl
  exact { inside with
    low := Int.le_refl 0
    high := Int.natCast_nonneg _
    markedLow := Int.le_refl 0
    markedHigh := Int.natCast_nonneg _ }

theorem Inside.mark (inside : machine.Inside limits) :
    Stays Machine.mark machine fun _ after => after.Inside limits := by
  have low := inside.markedLow
  refine stays_get.bind ?_
  rintro _ here ⟨rfl, rfl⟩
  split
  · exact stays_stop_bind (by simp)
  · next room =>
    have free : here.marked < here.marks.size := by omega
    obtain ⟨stored, storing, size, elements⟩ := exists_store here.pointer low free
    refine (stays_lift storing).bind ?_
    rintro _ _ ⟨rfl, rfl⟩
    refine (stays_set _).imp ?_
    rintro _ _ rfl
    rw [inside.marks] at room
    refine { inside with
      marks := size.trans inside.marks
      markedLow := by dsimp only; omega
      markedHigh := by dsimp only; omega
      recorded := ?_ }
    intro mark member
    rcases elements mark member with old | rfl
    · exact inside.recorded mark old
    · exact ⟨inside.low, inside.high⟩

theorem Inside.popMark (inside : machine.Inside limits) :
    Stays Machine.popMark machine fun base after =>
      after.Inside limits ∧ after.pointer = machine.pointer ∧ 0 ≤ base ∧ base ≤ limits.stack := by
  have low := inside.markedLow
  have high := inside.markedHigh
  refine stays_get.bind ?_
  rintro _ here ⟨rfl, rfl⟩
  split
  · exact stays_pure ⟨inside, rfl, by omega, Int.natCast_nonneg _⟩
  · next some =>
    obtain ⟨base, among, fetched⟩ : ∃ base ∈ here.marks,
        fetch here.marks (here.marked - 1) = .ok base :=
      exists_fetch (by omega) (by rw [inside.marks]; omega)
    refine (stays_set _).bind ?_
    rintro _ _ rfl
    refine (stays_lift fetched).imp ?_
    rintro _ _ ⟨rfl, rfl⟩
    refine ⟨{ inside with markedLow := ?_, markedHigh := ?_ }, rfl, inside.recorded _ among⟩
    · dsimp only
      omega
    · dsimp only
      omega

end Moves

section Words

variable [Cell α]

theorem Inside.unary (inside : machine.Inside limits) (which : Unary) :
    Stays (Machine.unary which) machine fun _ after => after.Inside limits := by
  refine (stays_demand 1).bind ?_
  rintro _ _ ⟨rfl, enough⟩
  refine (inside.top (by omega) (by omega)).bind ?_
  rintro _ _ rfl
  exact (inside.setTop _ (by omega) (by omega)).left

theorem Inside.binary (inside : machine.Inside limits) (which : Binary) :
    Stays (Machine.binary which) machine fun _ after => after.Inside limits := by
  refine (stays_demand 2).bind ?_
  rintro _ _ ⟨rfl, enough⟩
  refine inside.popCell.bind fun _ _ ⟨popped, pointer⟩ => ?_
  refine (popped.top (by omega) (by omega)).bind ?_
  rintro _ _ rfl
  exact (popped.setTop _ (by omega) (by omega)).left

theorem Inside.within (inside : machine.Inside limits) :
    Stays Machine.within machine fun _ after => after.Inside limits := by
  refine (stays_demand 3).bind ?_
  rintro _ _ ⟨rfl, enough⟩
  refine inside.popCell.bind fun _ _ ⟨popped, first⟩ => ?_
  refine popped.popCell.bind fun _ _ ⟨popped, second⟩ => ?_
  refine (popped.top (by omega) (by omega)).bind ?_
  rintro _ _ rfl
  exact (popped.setTop _ (by omega) (by omega)).left

theorem Inside.pick (inside : machine.Inside limits) :
    Stays Machine.pick machine fun _ after => after.Inside limits :=
  inside.popCell.bind fun _ _ ⟨popped, _⟩ => popped.pickAt _

theorem Inside.roll (inside : machine.Inside limits) :
    Stays Machine.roll machine fun _ after => after.Inside limits :=
  inside.popCell.bind fun _ _ ⟨popped, _⟩ => popped.rollAt _

theorem Inside.depth (inside : machine.Inside limits) :
    Stays Machine.depth machine fun _ after => after.Inside limits := by
  refine stays_height.bind ?_
  rintro _ _ ⟨rfl, rfl⟩
  exact (inside.pushCell _).left

theorem Inside.accumulate (inside : machine.Inside limits) (which : Reduction) (index : Int)
    (value : α) (remaining : Nat) (low : 0 ≤ index) (high : index + remaining ≤ limits.stack) :
    Stays (Machine.accumulate which index value remaining) machine fun _ after =>
      after = machine := by
  induction remaining generalizing index value with
  | zero => exact stays_pure rfl
  | succ remaining ih =>
    refine (inside.cell low (by omega)).bind ?_
    rintro _ _ rfl
    exact ih (index + 1) _ (by omega) (by omega)

theorem Inside.reduce (inside : machine.Inside limits) (which : Reduction) :
    Stays (Machine.reduce which) machine fun _ after => after.Inside limits := by
  refine inside.popMark.bind fun base _ ⟨unmarked, pointer, low, _⟩ => ?_
  have high := unmarked.high
  refine stays_height.bind ?_
  rintro _ here ⟨rfl, rfl⟩
  -- A mark above the stack is left from cells that are gone.
  by_cases stale : base > here.pointer
  · rw [if_pos stale]
    exact stays_stop_bind (by simp)
  rw [if_neg stale]
  by_cases empty : base = here.pointer
  · rw [if_pos empty]
    exact (unmarked.pushCell _).left
  · rw [if_neg empty]
    refine (unmarked.cell low (by omega)).bind ?_
    rintro first _ rfl
    refine (unmarked.accumulate which _ first _ (by omega) (by omega)).bind ?_
    rintro value _ rfl
    refine (unmarked.setHeight low (by omega)).bind fun _ _ ⟨lowered, _⟩ => ?_
    exact (lowered.pushCell value).left

theorem Inside.texts (inside : machine.Inside limits) (before : String) (index : Int)
    (remaining : Nat) (low : 0 ≤ index) (high : index + remaining ≤ limits.stack) :
    Stays (Machine.texts before index remaining) machine fun _ after => after = machine := by
  induction remaining generalizing index with
  | zero => exact stays_pure rfl
  | succ remaining ih =>
    refine (inside.cell low (by omega)).bind ?_
    rintro _ _ rfl
    refine (ih (index + 1) (by omega) (by omega)).bind ?_
    rintro _ _ rfl
    exact stays_pure rfl

theorem Inside.printTop (inside : machine.Inside limits) (before : String) :
    Stays (Machine.printTop before) machine fun _ after => after.Inside limits :=
  inside.popCell.bind fun _ _ ⟨popped, _⟩ => popped.print _

theorem Inside.printAll (inside : machine.Inside limits) :
    Stays Machine.printAll machine fun _ after => after.Inside limits := by
  have low := inside.low
  have high := inside.high
  refine stays_height.bind ?_
  rintro _ _ ⟨rfl, rfl⟩
  refine (inside.texts " " 0 _ (by omega) (by omega)).bind ?_
  rintro _ _ rfl
  exact inside.print _

theorem Inside.describeAll (inside : machine.Inside limits) :
    Stays Machine.describeAll machine fun _ after => after.Inside limits := by
  have low := inside.low
  have high := inside.high
  refine stays_height.bind ?_
  rintro _ _ ⟨rfl, rfl⟩
  refine (inside.texts " real:" 0 _ (by omega) (by omega)).bind ?_
  rintro _ _ rfl
  exact inside.print _

theorem Inside.read (inside : machine.Inside limits) :
    Stays Machine.read machine fun _ after => after.Inside limits := by
  refine stays_get.bind ?_
  rintro _ here ⟨rfl, rfl⟩
  refine (stays_set _).bind ?_
  rintro _ _ rfl
  refine Stays.left (Inside.pushCell ?_ _)
  exact { inside with }

end Words

section Texts

theorem stays_setByte (buffer : Array UInt8) {index : Int} (value : UInt8) (low : 0 ≤ index)
    (high : index < buffer.size) :
    Stays (setByte buffer index value) machine fun stored after =>
      after = machine ∧ stored.size = buffer.size := by
  obtain ⟨stored, storing, size, _⟩ := exists_store value low high
  refine (stays_lift storing).imp ?_
  rintro _ _ ⟨rfl, rfl⟩
  exact ⟨rfl, size⟩

variable [Cell α]

theorem Inside.findCount (inside : machine.Inside limits) (passed remaining : Nat)
    (below : passed + remaining < machine.pointer) :
    Stays (Machine.findCount passed remaining) machine fun found after =>
      after = machine ∧ ∀ count ∈ found, count < passed + remaining := by
  induction remaining generalizing passed with
  | zero => exact stays_pure ⟨rfl, by simp⟩
  | succ remaining ih =>
    refine (inside.top (by omega) (by omega)).bind ?_
    rintro _ _ rfl
    split
    · refine stays_pure ⟨rfl, ?_⟩
      rintro _ ⟨⟩
      omega
    · refine (ih (passed + 1) (by omega)).imp fun found _ ⟨same, bounded⟩ => ⟨same, ?_⟩
      intro count member
      have bound := bounded count member
      omega

theorem Inside.copyText (inside : machine.Inside limits) (first : Int) (copied remaining : Nat)
    (buffer : Array UInt8) (low : 0 ≤ first) (high : first + copied + remaining ≤ limits.stack)
    (room : copied + remaining ≤ buffer.size) :
    Stays (Machine.copyText first copied remaining buffer) machine fun stored after =>
      after = machine ∧ stored.size = buffer.size := by
  induction remaining generalizing copied buffer with
  | zero => exact stays_pure ⟨rfl, rfl⟩
  | succ remaining ih =>
    refine (inside.cell (by omega) (by omega)).bind ?_
    rintro value _ rfl
    refine (stays_setByte buffer _ (by omega) (by omega)).bind ?_
    rintro stored _ ⟨rfl, size⟩
    refine (ih (copied + 1) stored (by omega) (by omega)).imp fun _ _ ⟨same, kept⟩ => ?_
    exact ⟨same, kept.trans size⟩

/-- The size of the buffer leaves room for the end of the text. -/
theorem Inside.popText (inside : machine.Inside limits) (buffer : Array UInt8)
    (room : 0 < buffer.size) :
    Stays (Machine.popText buffer buffer.size) machine fun _ after => after.Inside limits := by
  have high := inside.high
  refine (stays_demand 2).bind ?_
  rintro _ _ ⟨rfl, enough⟩
  refine (inside.top (by omega) (by omega)).bind ?_
  rintro _ _ rfl
  split
  · refine (stays_setByte buffer _ (by omega) (by omega)).bind ?_
    rintro _ _ ⟨rfl, _⟩
    exact stays_pure inside
  · refine stays_height.bind ?_
    rintro _ _ ⟨rfl, rfl⟩
    refine (inside.findCount 0 _ (by omega)).bind ?_
    rintro found _ ⟨rfl, bounded⟩
    cases found with
    | none => exact stays_stop (by simp)
    | some count =>
      have counted := bounded count rfl
      refine (inside.copyText _ 0 _ buffer (by omega) (by omega) (by omega)).bind ?_
      rintro copied _ ⟨rfl, size⟩
      refine (stays_setByte copied _ (by omega) (by omega)).bind ?_
      rintro _ _ ⟨rfl, _⟩
      refine (inside.setHeight (by omega) (by omega)).bind fun _ _ ⟨lowered, _⟩ => ?_
      exact stays_pure lowered

theorem Inside.fail (inside : machine.Inside limits) (room : 0 < limits.message) :
    Stays Machine.fail machine fun _ after => after.Inside limits := by
  refine stays_get.bind ?_
  rintro _ here ⟨rfl, rfl⟩
  split
  · exact stays_stop_bind (by simp)
  · have size : (Array.replicate here.messageSize (0 : UInt8)).size = here.messageSize :=
      Array.size_replicate
    have popped := inside.popText (Array.replicate here.messageSize 0)
      (by rw [size, inside.message]; exact room)
    rw [size] at popped
    refine popped.bind fun _ _ _ => ?_
    exact stays_stop (by simp)

end Texts

section Runs

/-- What a program can do to the machine. A text is taken into a buffer that has room for its end,
and a word that counts may count any whole number, whatever the cell was. -/
inductive Operation (α : Type) where
  | call (primitive : Primitive) (arguments : List α)
  | pick (depth : Int) (arguments : List α)
  | roll (depth : Int) (arguments : List α)
  | reduce (which : Reduction)
  | popText (buffer : Array UInt8) (room : 0 < buffer.size)
  | push (value : α)
  | pop

variable [Cell α]

def Operation.run : Operation α → Op α Unit
  | .call primitive arguments => Machine.call primitive arguments
  | .pick depth arguments => do
    pushAll arguments
    discard
    pickAt depth
  | .roll depth arguments => do
    pushAll arguments
    discard
    rollAt depth
  | .reduce which => Machine.reduce which
  | .popText buffer _ => do
    let _ ← Machine.popText buffer buffer.size
  | .push value => pushCell value
  | .pop => discard

def runAll : List (Operation α) → Op α Unit
  | [] => pure ()
  | operation :: operations => do
    operation.run
    runAll operations

theorem Inside.perform (inside : machine.Inside limits) (room : 0 < limits.message)
    (primitive : Primitive) :
    Stays (Machine.perform primitive) machine fun _ after => after.Inside limits := by
  cases primitive with
  | unary which => exact inside.unary which
  | binary which => exact inside.binary which
  | within => exact inside.within
  | push => exact stays_pure inside
  | pop => exact inside.discard
  | drop => exact inside.discard
  | drop2 => exact inside.discardTwo
  | dup => exact inside.duplicate
  | dup2 => exact inside.duplicateTwo
  | dupd => exact inside.duplicateBelow
  | swap => exact inside.swap
  | swap2 => exact inside.swapTwo
  | swapd => exact inside.swapBelow
  | «over» => exact inside.copySecond
  | over2 => exact inside.overTwo
  | nip => exact inside.nip
  | tuck => exact inside.tuck
  | rot => exact inside.rotate
  | pick => exact inside.pick
  | roll => exact inside.roll
  | clear => exact inside.clear
  | depth => exact inside.depth
  | mark => exact inside.mark
  | print => exact inside.printTop ""
  | printv => exact inside.printTop "real:"
  | prints => exact inside.printAll
  | printsv => exact inside.describeAll
  | nl => exact inside.print "\n"
  | read => exact inside.read
  | error => exact inside.fail room

theorem Inside.run (inside : machine.Inside limits) (room : 0 < limits.message)
    (operation : Operation α) :
    Stays operation.run machine fun _ after => after.Inside limits := by
  cases operation with
  | call primitive arguments =>
    exact (inside.pushAll arguments).bind fun _ _ pushed => pushed.perform room primitive
  | pick depth arguments =>
    refine (inside.pushAll arguments).bind fun _ _ pushed => ?_
    exact pushed.discard.bind fun _ _ popped => popped.pickAt depth
  | roll depth arguments =>
    refine (inside.pushAll arguments).bind fun _ _ pushed => ?_
    exact pushed.discard.bind fun _ _ popped => popped.rollAt depth
  | reduce which => exact inside.reduce which
  | popText buffer some =>
    exact (inside.popText buffer some).bind fun _ _ taken => stays_pure taken
  | push value => exact (inside.pushCell value).left
  | pop => exact inside.discard

theorem Inside.runAll (inside : machine.Inside limits) (room : 0 < limits.message)
    (operations : List (Operation α)) :
    Stays (Machine.runAll operations) machine fun _ after => after.Inside limits := by
  induction operations generalizing machine with
  | nil => exact stays_pure inside
  | cons operation operations ih =>
    exact (inside.run room operation).bind fun _ _ kept => ih kept

theorem inside_fresh (limits : Limits) (input : List Char) :
    (fresh limits input : Machine α).Inside limits where
  cells := Array.size_replicate
  marks := Array.size_replicate
  message := rfl
  low := Int.le_refl 0
  high := Int.natCast_nonneg _
  markedLow := Int.le_refl 0
  markedHigh := Int.natCast_nonneg _
  recorded := by
    intro mark member
    have zero : mark = 0 := (Array.mem_replicate.mp member).2
    rw [zero]
    exact ⟨Int.le_refl 0, Int.natCast_nonneg _⟩

end Runs

end StackLang.Machine
