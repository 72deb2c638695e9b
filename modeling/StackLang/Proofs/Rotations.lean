import Mathlib.Data.List.Rotate
import StackLang.Proofs.StackLayout

/-! Rolling is rotating. A cell that is rolled to the top leaves the cells above it one lower, which
turns the end of the stack around by one place; so as many rolls as there are cells in that end are
none at all. The words that move a fixed number of cells are rolls and picks of a fixed depth. -/
namespace StackLang.Machine

variable {α : Type} {machine : Machine α} {spare : List α}

/-! ### Rolling and picking -/

/-- Each cell above a depth is written over the one below it, and the top one stays where it is. -/
theorem shiftDown_withStack (below above : List α) (value : α) :
    shiftDown above.length (machine.withStack (below ++ value :: above) spare) =
      .ok ((), machine.withStack (below ++ above ++ [above.getLastD value]) spare) := by
  induction above generalizing below value with
  | nil =>
    rw [List.append_nil]
    rfl
  | cons next above ih =>
    -- The next cell then stands twice, and the loop goes on from its upper copy.
    have moved := @top_withStack _ machine spare (below ++ [value]) above next
    have written := @setTop_withStack _ machine spare below (next :: above) value next
    have others := ih (below ++ [next]) next
    rw [List.append_assoc, List.singleton_append] at moved others
    rw [List.length_cons] at written
    rw [List.length_cons, shiftDown, bind_ran moved, bind_ran written, others, List.getLastD_cons]
    simp

theorem demandDepth_inside (below above : List α) (value : α) :
    demandDepth above.length (machine.withStack (below ++ value :: above) spare) =
      .ok ((), machine.withStack (below ++ value :: above) spare) := by
  rw [demandDepth_withStack, if_neg]
  rw [List.length_append, List.length_cons]
  omega

theorem rollAt_withStack (below above : List α) (value : α) :
    rollAt above.length (machine.withStack (below ++ value :: above) spare) =
      .ok ((), machine.withStack (below ++ (above ++ [value])) spare) := by
  have placed := @setTop_withStack _ machine spare (below ++ above) [] (above.getLastD value) value
  rw [rollAt, bind_ran (demandDepth_inside _ _ _), bind_ran (top_withStack _ _ _), Int.toNat_natCast,
    bind_ran (shiftDown_withStack _ _ _), ← List.append_assoc]
  exact placed

theorem pickAt_withStack (below above : List α) (value : α) :
    pickAt above.length (machine.withStack (below ++ value :: above) spare) =
      pushCell value (machine.withStack (below ++ value :: above) spare) := by
  rw [pickAt, bind_ran (demandDepth_inside _ _ _), bind_ran (top_withStack _ _ _)]

section Outside

variable {stack : List α} {depth : Int} (outside : ¬(0 ≤ depth ∧ depth < stack.length))

include outside

theorem demandDepth_outside :
    demandDepth depth (machine.withStack stack spare) = .error .underflow := by
  rw [demandDepth_withStack, if_pos (by omega)]

theorem rollAt_outside : rollAt depth (machine.withStack stack spare) = .error .underflow :=
  bind_stopped (demandDepth_outside outside)

theorem pickAt_outside : pickAt depth (machine.withStack stack spare) = .error .underflow :=
  bind_stopped (demandDepth_outside outside)

end Outside

/-- The cell at a depth, with those below it and those above. -/
theorem exists_at_depth {stack : List α} {depth : Nat} (inside : depth < stack.length) :
    ∃ below value above, stack = below ++ value :: above ∧ above.length = depth := by
  have inside' : stack.length - 1 - depth < stack.length := by omega
  obtain ⟨below, value, above, rfl, place⟩ := exists_at_place inside'
  refine ⟨below, value, above, rfl, ?_⟩
  simp only [List.length_append, List.length_cons] at place inside
  omega

/-- An index is pushed into a cell that was free. -/
theorem pushAll_index (stack spare : List α) (old index : α) :
    pushAll [index] (machine.withStack stack (old :: spare)) =
      .ok ((), machine.withStack (stack ++ [index]) spare) := by
  rw [pushAll, bind_ran (pushCell_withStack _ _ _ _)]
  rfl

def repeated (op : Op α Unit) : Nat → Op α Unit
  | 0 => pure ()
  | count + 1 => do
    op
    repeated op count

/-! ### What is seen of a machine -/

/-- The machine without its free cells. -/
def seen (machine : Machine α) : Machine α := machine.withStack machine.live []

@[simp] theorem seen_withStack (machine : Machine α) (stack spare : List α) :
    (machine.withStack stack spare).seen = machine.withStack stack [] := by
  rw [seen, live_withStack, withStack_withStack]

def outcome (op : Op α Unit) (machine : Machine α) : Except Stop (Machine α) :=
  (op machine).map fun result => result.2.seen

theorem outcome_ran {op : Op α Unit} {stack spare : List α} {before : Machine α}
    (ran : op before = .ok ((), machine.withStack stack spare)) :
    outcome op before = .ok (machine.withStack stack []) := by
  rw [outcome, ran]
  exact congrArg Except.ok (seen_withStack machine stack spare)

theorem outcome_stopped {op : Op α Unit} {before : Machine α} {reason : Stop}
    (stopped : op before = .error reason) : outcome op before = .error reason := by
  rw [outcome, stopped]
  rfl

section Words

variable [Cell α] {index : α}

/-! ### Words with an index -/

theorem roll_withStack (stack spare : List α) (index : α) :
    roll (machine.withStack (stack ++ [index]) spare) =
      rollAt (Cell.toWord index) (machine.withStack stack (index :: spare)) := by
  rw [roll, bind_ran (popCell_withStack _ _ _)]

theorem pick_withStack (stack spare : List α) (index : α) :
    pick (machine.withStack (stack ++ [index]) spare) =
      pickAt (Cell.toWord index) (machine.withStack stack (index :: spare)) := by
  rw [pick, bind_ran (popCell_withStack _ _ _)]

theorem call_roll (stack spare : List α) (old : α) :
    call .roll [index] (machine.withStack stack (old :: spare)) =
      rollAt (Cell.toWord index) (machine.withStack stack (index :: spare)) := by
  rw [call, bind_ran (pushAll_index _ _ _ _)]
  exact roll_withStack stack spare index

theorem call_pick (stack spare : List α) (old : α) :
    call .pick [index] (machine.withStack stack (old :: spare)) =
      pickAt (Cell.toWord index) (machine.withStack stack (index :: spare)) := by
  rw [call, bind_ran (pushAll_index _ _ _ _)]
  exact pick_withStack stack spare index

theorem call_roll_rotates {ending : List α} {depth : Nat} (counts : Cell.toWord index = depth)
    (long : ending.length = depth + 1) (below spare : List α) (old : α) :
    call .roll [index] (machine.withStack (below ++ ending) (old :: spare)) =
      .ok ((), machine.withStack (below ++ ending.rotate 1) (index :: spare)) := by
  obtain ⟨value, above, rfl⟩ := List.exists_cons_of_length_eq_add_one long
  obtain rfl : above.length = depth := Nat.succ.inj long
  rw [call_roll, counts, rollAt_withStack, List.rotate_cons_succ, List.rotate_zero]

theorem repeated_roll_rotates {ending : List α} {depth : Nat} (counts : Cell.toWord index = depth)
    (long : ending.length = depth + 1) (below spare : List α) (old : α) (count : Nat) :
    ∃ left, repeated (call .roll [index]) count
        (machine.withStack (below ++ ending) (old :: spare)) =
      .ok ((), machine.withStack (below ++ ending.rotate count) (left :: spare)) := by
  induction count generalizing ending old with
  | zero =>
    rw [List.rotate_zero]
    exact ⟨old, rfl⟩
  | succ count ih =>
    obtain ⟨left, others⟩ := ih ((List.length_rotate ending 1).trans long) index
    refine ⟨left, ?_⟩
    rw [repeated, bind_ran (call_roll_rotates counts long below spare old), others,
      List.rotate_rotate, Nat.add_comm]

theorem outcome_repeated_roll {depth : Nat} (counts : Cell.toWord index = depth) {stack : List α}
    (inside : depth < stack.length) (spare : List α) (old : α) :
    outcome (repeated (call .roll [index]) (depth + 1)) (machine.withStack stack (old :: spare)) =
      .ok (machine.withStack stack []) := by
  obtain ⟨below, value, above, rfl, rfl⟩ := exists_at_depth inside
  obtain ⟨left, turned⟩ := @repeated_roll_rotates _ machine _ index (value :: above) _ counts rfl
    below spare old (above.length + 1)
  rw [← List.length_cons, List.rotate_length] at turned
  exact outcome_ran turned

/-! ### Words without one -/

omit [Cell α] in
theorem demand_enough (below ending : List α) :
    demand ending.length (machine.withStack (below ++ ending) spare) =
      .ok ((), machine.withStack (below ++ ending) spare) := by
  rw [demand_withStack, if_neg]
  rw [List.length_append]
  omega

omit [Cell α] in
theorem demand_short {stack : List α} {count : Int} (short : stack.length < count) :
    demand count (machine.withStack stack spare) = .error .underflow := by
  rw [demand_withStack, if_pos short]

omit [Cell α] in
theorem swap_withStack (below : List α) (first second : α) :
    swap (machine.withStack (below ++ [first, second]) spare) =
      .ok ((), machine.withStack (below ++ [second, first]) spare) := by
  have enough := @demand_enough _ machine spare below [first, second]
  have held := @top_withStack _ machine spare (below ++ [first]) [] second
  have other := @top_withStack _ machine spare below [second] first
  have raised := @setTop_withStack _ machine spare (below ++ [first]) [] second first
  have lowered := @setTop_withStack _ machine spare below [first] first second
  simp only [List.append_assoc, List.singleton_append] at held raised
  refine (bind_ran enough).trans ((bind_ran held).trans ((bind_ran other).trans ?_))
  exact (bind_ran raised).trans lowered

omit [Cell α] in
theorem rotate_withStack (below : List α) (first second third : α) :
    rotate (machine.withStack (below ++ [first, second, third]) spare) =
      .ok ((), machine.withStack (below ++ [second, third, first]) spare) := by
  have enough := @demand_enough _ machine spare below [first, second, third]
  have deepest := @top_withStack _ machine spare below [second, third] first
  have middle := @top_withStack _ machine spare (below ++ [first]) [third] second
  have lowered := @setTop_withStack _ machine spare below [second, third] first second
  have highest := @top_withStack _ machine spare (below ++ [second, second]) [] third
  have lowered' := @setTop_withStack _ machine spare (below ++ [second]) [third] second third
  have raised := @setTop_withStack _ machine spare (below ++ [second, third]) [] third first
  simp only [List.append_assoc, List.cons_append, List.nil_append]
    at middle highest lowered' raised
  refine (bind_ran enough).trans ((bind_ran deepest).trans ((bind_ran middle).trans ?_))
  refine (bind_ran lowered).trans ((bind_ran highest).trans ?_)
  exact (bind_ran lowered').trans raised

/-- An operation that brings the cell at a depth to the top is a roll. -/
theorem outcome_eq_roll {op : Op α Unit} (depth : Nat) (counts : Cell.toWord index = depth)
    (short : ∀ stack spare, stack.length ≤ depth →
      op (machine.withStack stack spare) = .error .underflow)
    (moves : ∀ below value above spare, above.length = depth →
      op (machine.withStack (below ++ value :: above) spare) =
        .ok ((), machine.withStack (below ++ (above ++ [value])) spare))
    (stack spare : List α) (old : α) :
    outcome op (machine.withStack stack (old :: spare)) =
      outcome (call .roll [index]) (machine.withStack stack (old :: spare)) := by
  by_cases inside : depth < stack.length
  · obtain ⟨below, value, above, rfl, rfl⟩ := exists_at_depth inside
    have rolled := @call_roll _ machine _ index (below ++ value :: above) spare old
    rw [counts, rollAt_withStack] at rolled
    rw [outcome_ran (moves below value above _ rfl), outcome_ran rolled]
  · have stopped := @rollAt_outside _ machine (index :: spare) stack depth (by omega)
    have rolled := @call_roll _ machine _ index stack spare old
    rw [counts, stopped] at rolled
    rw [outcome_stopped (short stack _ (by omega)), outcome_stopped rolled]

/-- An operation that copies the cell at a depth to the top is a pick. -/
theorem outcome_eq_pick {op : Op α Unit} (depth : Nat) (counts : Cell.toWord index = depth)
    (short : ∀ stack spare, stack.length ≤ depth →
      op (machine.withStack stack spare) = .error .underflow)
    (copies : ∀ below value above spare, above.length = depth →
      op (machine.withStack (below ++ value :: above) spare) =
        pushCell value (machine.withStack (below ++ value :: above) spare))
    (stack spare : List α) (old : α) :
    outcome op (machine.withStack stack (old :: spare)) =
      outcome (call .pick [index]) (machine.withStack stack (old :: spare)) := by
  by_cases inside : depth < stack.length
  · obtain ⟨below, value, above, rfl, rfl⟩ := exists_at_depth inside
    have copied := copies below value above (old :: spare) rfl
    have picked := @call_pick _ machine _ index (below ++ value :: above) spare old
    rw [pushCell_withStack] at copied
    rw [counts, pickAt_withStack, pushCell_withStack] at picked
    rw [outcome_ran copied, outcome_ran picked]
  · have stopped := @pickAt_outside _ machine (index :: spare) stack depth (by omega)
    have picked := @call_pick _ machine _ index stack spare old
    rw [counts, stopped] at picked
    rw [outcome_stopped (short stack _ (by omega)), outcome_stopped picked]

theorem outcome_swap (counts : Cell.toWord index = 1) (stack spare : List α) (old : α) :
    outcome swap (machine.withStack stack (old :: spare)) =
      outcome (call .roll [index]) (machine.withStack stack (old :: spare)) := by
  refine outcome_eq_roll 1 counts (fun stack spare short => ?_)
    (fun below value above spare one => ?_) stack spare old
  · exact bind_stopped (demand_short (by omega))
  · obtain ⟨second, rfl⟩ := List.length_eq_one_iff.mp one
    exact swap_withStack below value second

theorem outcome_rotate (counts : Cell.toWord index = 2) (stack spare : List α) (old : α) :
    outcome rotate (machine.withStack stack (old :: spare)) =
      outcome (call .roll [index]) (machine.withStack stack (old :: spare)) := by
  refine outcome_eq_roll 2 counts (fun stack spare short => ?_)
    (fun below value above spare two => ?_) stack spare old
  · exact bind_stopped (demand_short (by omega))
  · obtain ⟨second, third, rfl⟩ := List.length_eq_two.mp two
    exact rotate_withStack below value second third

theorem outcome_duplicate (counts : Cell.toWord index = 0) (stack spare : List α) (old : α) :
    outcome duplicate (machine.withStack stack (old :: spare)) =
      outcome (call .pick [index]) (machine.withStack stack (old :: spare)) := by
  refine outcome_eq_pick 0 counts (fun stack spare short => ?_)
    (fun below value above spare none => ?_) stack spare old
  · exact bind_stopped (demand_short (by omega))
  · obtain rfl := List.eq_nil_of_length_eq_zero none
    have enough := @demand_enough _ machine spare below [value]
    exact (bind_ran enough).trans (bind_ran (top_withStack below [] value))

theorem outcome_copySecond (counts : Cell.toWord index = 1) (stack spare : List α) (old : α) :
    outcome copySecond (machine.withStack stack (old :: spare)) =
      outcome (call .pick [index]) (machine.withStack stack (old :: spare)) := by
  refine outcome_eq_pick 1 counts (fun stack spare short => ?_)
    (fun below value above spare one => ?_) stack spare old
  · exact bind_stopped (demand_short (by omega))
  · obtain ⟨second, rfl⟩ := List.length_eq_one_iff.mp one
    have enough := @demand_enough _ machine spare below [value, second]
    exact (bind_ran enough).trans (bind_ran (top_withStack below [second] value))

/-- A roll brings the cell at its depth to the top and moves those above it one down, or it stops if
there is no such cell. As many rolls as there are cells in that end of the stack change nothing, and
the words for fixed depths do what a roll or a pick of that depth does, stopping included. -/
theorem rolls_rotate_and_shuffles_are_rolls {limits : Limits} (inside : machine.Inside limits) :
    (∀ stack index, machine.live = stack ++ [index] →
      (∀ below value above, stack = below ++ value :: above → Cell.toWord index = above.length →
        call .roll [] machine =
          .ok ((), machine.withStack (below ++ above ++ [value]) (index :: machine.free))) ∧
      (¬(0 ≤ Cell.toWord index ∧ Cell.toWord index < stack.length) →
        call .roll [] machine = .error .underflow)) ∧
    (machine.pointer < machine.cells.size → ∀ index,
      (0 ≤ Cell.toWord index → Cell.toWord index < machine.pointer →
        outcome (repeated (call .roll [index]) ((Cell.toWord index).toNat + 1)) machine =
          .ok machine.seen) ∧
      (Cell.toWord index = 1 →
        outcome (call .swap []) machine = outcome (call .roll [index]) machine) ∧
      (Cell.toWord index = 2 →
        outcome (call .rot []) machine = outcome (call .roll [index]) machine) ∧
      (Cell.toWord index = 0 →
        outcome (call .dup []) machine = outcome (call .pick [index]) machine) ∧
      (Cell.toWord index = 1 →
        outcome (call .over []) machine = outcome (call .pick [index]) machine)) := by
  have whole := inside.withStack_live_free
  constructor
  · intro stack index live
    have called : call .roll [] machine = rollAt (Cell.toWord index)
        (machine.withStack stack (index :: machine.free)) := by
      rw [← roll_withStack, ← live, whole]
      rfl
    rw [called]
    constructor
    · rintro below value above rfl counts
      rw [counts, rollAt_withStack, List.append_assoc]
    · exact rollAt_outside
  · intro room index
    obtain ⟨old, spare, shape⟩ := exists_free inside.low room
    rw [shape] at whole
    refine ⟨?_, ?_, ?_, ?_, ?_⟩
    · intro low below
      obtain ⟨depth, counts⟩ := Int.eq_ofNat_of_zero_le low
      have height := inside.holds_live.pointer
      have turned := @outcome_repeated_roll _ machine _ index depth counts machine.live (by omega)
        spare old
      rw [whole] at turned
      rw [counts, Int.toNat_natCast]
      exact turned
    all_goals
      intro counts
      rw [← whole]
    · exact outcome_swap counts _ _ _
    · exact outcome_rotate counts _ _ _
    · exact outcome_duplicate counts _ _ _
    · exact outcome_copySecond counts _ _ _

theorem second_cell_is_rolled_to_the_top :
    let machine : Machine Float :=
      (fresh { stack := 5, marks := 1, message := 1 } []).withStack [10, 20, 30, 1] [0]
    machine.Inside { stack := 5, marks := 1, message := 1 } ∧
      call .roll [] machine = .ok ((), machine.withStack [10, 30, 20] [1, 0]) ∧
      outcome (repeated (call .roll [3]) 4) machine = .ok machine.seen ∧
      outcome (call .swap []) machine = outcome (call .roll [1]) machine ∧
      outcome (call .dup []) machine = outcome (call .pick [0]) machine := by
  intro machine
  have inside : machine.Inside { stack := 5, marks := 1, message := 1 } :=
    (inside_fresh _ []).withStack rfl
  have live : machine.live = [10, 20, 30] ++ [1] := live_withStack _ _ _
  obtain ⟨rolls, words⟩ := rolls_rotate_and_shuffles_are_rolls inside
  have room : machine.pointer < machine.cells.size := by decide
  have zero : Cell.toWord (0 : Float) = 0 := by decide +kernel
  have one : Cell.toWord (1 : Float) = 1 := by rfl
  have three : Cell.toWord (3 : Float) = 3 := by rfl
  have turned := (words room 3).1 (by rw [three]; decide) (by rw [three]; decide)
  rw [three] at turned
  exact ⟨inside, (rolls _ _ live).1 [10] 20 [30] rfl one, turned, (words room 1).2.1 one,
    (words room 0).2.2.2.1 zero⟩

end Words

end StackLang.Machine
