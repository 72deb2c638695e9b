import StackLang.Proofs.StackLayout

/-! Reductions. The marks that are set are heights of the stack, the innermost last, and some of
them may be higher than the stack has become. A reduction takes the innermost mark away and puts one
cell in place of all cells above it: their combination from the left, or a fixed number if there are
none. -/
namespace StackLang.Machine

variable {α : Type} {machine : Machine α} {spare : List α}

/-! ### Marks -/

def setMarks (machine : Machine α) : List Int := machine.marks.toList.take machine.marked.toNat

/-- The height above which a reduction takes the cells: the innermost mark, or else the bottom. -/
def base (machine : Machine α) : Int := machine.setMarks.getLast?.getD 0

def unmarked (machine : Machine α) : Machine α :=
  { machine with marked := machine.setMarks.dropLast.length }

theorem setMarks_unmarked (machine : Machine α) :
    machine.unmarked.setMarks = machine.setMarks.dropLast := by
  have front : machine.setMarks.dropLast <+: machine.marks.toList :=
    (List.dropLast_prefix _).trans (List.take_prefix _ _)
  exact (List.prefix_iff_eq_take.mp front).symm

theorem popMark_eq (low : 0 ≤ machine.marked) (high : machine.marked ≤ machine.marks.size) :
    popMark machine = .ok (machine.base, machine.unmarked) := by
  by_cases none : machine.marked ≤ 0
  · have zero : machine.marked = 0 := by omega
    have unset : machine.setMarks = [] := by rw [setMarks, zero]; rfl
    have same : machine.unmarked = machine := by
      rw [unmarked, unset]
      change { machine with marked := 0 } = machine
      rw [← zero]
    change (if machine.marked ≤ 0 then _ else _ : Op α Int) machine = _
    rw [if_pos none, same, base, unset]
    rfl
  · obtain ⟨count, counted⟩ : ∃ count : Nat, machine.marked = count + 1 :=
      ⟨(machine.marked - 1).toNat, by omega⟩
    have inside : count < machine.marks.toList.length := by
      rw [Array.length_toList]
      omega
    have marks : machine.setMarks =
        machine.marks.toList.take count ++ [machine.marks.toList[count]] := by
      rw [setMarks, counted]
      exact List.take_succ_eq_append_getElem inside
    have last : machine.base = machine.marks.toList[count] := by
      rw [base, marks, List.getLast?_concat, Option.getD_some]
    have left : machine.unmarked = { machine with marked := machine.marked - 1 } := by
      rw [unmarked, marks, List.dropLast_concat, List.length_take,
        Nat.min_eq_left (Nat.le_of_lt inside), counted, Int.add_sub_cancel]
    -- The innermost mark is the one right below the counter.
    have fetched : fetch machine.marks (machine.marked - 1) = .ok machine.base := by
      rw [counted, Int.add_sub_cancel, last]
      exact dif_pos (by simpa using inside)
    change (if machine.marked ≤ 0 then _ else _ : Op α Int) machine = _
    rw [if_neg none, left]
    change (fetch machine.marks (machine.marked - 1) >>= fun base =>
      .ok (base, { machine with marked := machine.marked - 1 })) = _
    rw [fetched]
    rfl

theorem Inside.base_nonneg {limits : Limits} (inside : machine.Inside limits) :
    0 ≤ machine.base := by
  rw [base]
  cases last : machine.setMarks.getLast? with
  | none => exact Int.le_refl 0
  | some mark =>
    have among : mark ∈ machine.marks.toList :=
      List.mem_of_mem_take (List.mem_of_getLast? last)
    exact (inside.recorded mark (Array.mem_toList_iff.mp among)).1

/-! ### Cells above a mark -/

variable [Cell α]

theorem accumulate_withStack (which : Reduction) (below values : List α) (value : α) :
    accumulate which below.length value values.length (machine.withStack (below ++ values) spare) =
      .ok (values.foldl (combine which) value, machine.withStack (below ++ values) spare) := by
  induction values generalizing below value with
  | nil => rfl
  | cons next values ih =>
    have shape : below ++ next :: values = (below ++ [next]) ++ values := by simp
    have place : (below.length : Int) + 1 = (below ++ [next]).length := by simp
    rw [List.length_cons, accumulate, bind_ran (cell_withStack _ _ _), place, shape, ih,
      List.foldl_cons]

section Cases

variable {stack : List α} {base : Int} (which : Reduction)
  (marked : popMark machine = .ok (base, machine.unmarked.withStack stack spare))

include marked

theorem reduce_stale (stale : stack.length < base) : reduce which machine = .error .underflow := by
  rw [reduce, bind_ran marked, bind_ran (height_withStack _ _ _), if_pos stale]
  rfl

theorem reduce_empty (empty : base = stack.length) :
    reduce which machine = pushCell (unit which) (machine.unmarked.withStack stack spare) := by
  rw [reduce, bind_ran marked, bind_ran (height_withStack _ _ _), if_neg (by omega), if_pos empty]

end Cases

theorem reduce_cells (which : Reduction) {below others : List α} {first : α}
    (marked : popMark machine = .ok ((below.length : Int),
      machine.unmarked.withStack (below ++ first :: others) spare)) :
    reduce which machine = .ok ((), machine.unmarked.withStack
      (below ++ [others.foldl (combine which) first]) (others ++ spare)) := by
  have height : (below ++ first :: others).length = below.length + 1 + others.length := by
    rw [List.length_append, List.length_cons]
    omega
  have folded := @accumulate_withStack _ machine.unmarked spare _ which (below ++ [first]) others
    first
  have count : ((below ++ first :: others).length - (below.length : Int) - 1).toNat =
      others.length := by omega
  rw [List.append_assoc, List.singleton_append, List.length_append, List.length_singleton] at folded
  rw [reduce, bind_ran marked, bind_ran (height_withStack _ _ _), if_neg (by omega),
    if_neg (by omega)]
  dsimp only
  rw [bind_ran (cell_withStack _ _ _), count]
  refine (bind_ran folded).trans ((bind_ran (setHeight_withStack _ _)).trans ?_)
  exact pushCell_withStack _ _ _ _

theorem unit_eq (which : Reduction) :
    (unit which : α) = Cell.ofNat (if which = .add ∨ which = .sub then 0 else 1) := by
  cases which <;> rfl

/-! ### All reductions -/

/-- The machine behind a reduction: another stack, the innermost mark gone, and all else as it
was. -/
structure Reduced (machine : Machine α) (stack : List α) (after : Machine α) : Prop where
  live : after.live = stack
  height : after.pointer = stack.length
  marks : after.setMarks = machine.setMarks.dropLast
  others : after = { machine with
    cells := after.cells, pointer := after.pointer, marked := after.marked }

omit [Cell α] in
theorem reduced_withStack (machine : Machine α) (stack spare : List α) :
    machine.Reduced stack (machine.unmarked.withStack stack spare) :=
  ⟨live_withStack _ _ _, rfl, setMarks_unmarked machine, rfl⟩

/-- A reduction puts the combination of all cells above the innermost mark in their place, and only
the mark is gone besides. It stops for want of cells if the mark is above the stack, and for want of
room if there are no cells to take and none is free. -/
theorem reduce_combines_the_cells_above_the_innermost_mark {limits : Limits}
    (inside : machine.Inside limits) (which : Reduction) :
    (machine.base > machine.pointer → reduce which machine = .error .underflow) ∧
    (machine.base = machine.pointer →
      (machine.pointer = machine.cells.size → reduce which machine = .error .overflow) ∧
      (machine.pointer < machine.cells.size → ∃ after, reduce which machine = .ok ((), after) ∧
        machine.Reduced
          (machine.live ++ [Cell.ofNat (if which = .add ∨ which = .sub then 0 else 1)]) after)) ∧
    (machine.base < machine.pointer → ∃ below first others after,
      machine.live = below ++ first :: others ∧ below.length = machine.base ∧
      reduce which machine = .ok ((), after) ∧
      machine.Reduced (below ++ [others.foldl (combine which) first]) after) := by
  have height := inside.holds_live.pointer
  have whole := inside.withStack_live_free
  have marked : popMark machine =
      .ok (machine.base, machine.unmarked.withStack machine.live machine.free) := by
    have same : machine.unmarked.withStack machine.live machine.free = machine.unmarked :=
      congrArg unmarked whole
    rw [same]
    exact popMark_eq inside.markedLow (by rw [inside.marks]; exact inside.markedHigh)
  refine ⟨fun stale => reduce_stale which marked (by omega), fun empty => ⟨?_, ?_⟩, fun some => ?_⟩
  · intro full
    have none : machine.free = [] := by
      rw [free, List.drop_eq_nil_iff, Array.length_toList]
      omega
    rw [reduce_empty which marked (by omega), none, pushCell_full]
  · intro room
    obtain ⟨old, spare, shape⟩ := exists_free inside.low room
    refine ⟨machine.unmarked.withStack (machine.live ++ [unit which]) spare, ?_, ?_⟩
    · rw [reduce_empty which marked (by omega), shape, pushCell_withStack]
    · rw [← unit_eq]
      exact reduced_withStack _ _ _
  · obtain ⟨count, counted⟩ := Int.eq_ofNat_of_zero_le inside.base_nonneg
    have above : count < machine.live.length := by omega
    obtain ⟨below, first, others, parts, rfl⟩ := exists_at_place above
    rw [parts, counted] at marked
    exact ⟨below, first, others, _, parts, counted.symm, reduce_cells which marked,
      reduced_withStack _ _ _⟩

/-- Of two marks the inner one is taken, and the cells above it are subtracted from the left. -/
theorem cells_above_the_inner_mark_are_subtracted :
    let limits : Limits := { stack := 6, marks := 2, message := 1 }
    let machine : Machine Float :=
      { (fresh limits []).withStack [10, 20, 30, 4, 5] [0] with marks := #[1, 2], marked := 2 }
    machine.Inside limits ∧ machine.base = 2 ∧
      ∃ after, reduce .sub machine = .ok ((), after) ∧ after.live = [10, 20, (30 - 4) - 5] ∧
        after.setMarks = [1] := by
  intro limits machine
  have inside : machine.Inside limits := by
    refine ⟨rfl, rfl, rfl, by decide, by decide, by decide, by decide, ?_⟩
    intro mark member
    have listed : mark = 1 ∨ mark = 2 := by simpa [machine] using member
    rcases listed with rfl | rfl <;> decide
  have base : machine.base = 2 := rfl
  obtain ⟨_, _, cells⟩ := reduce_combines_the_cells_above_the_innermost_mark inside .sub
  obtain ⟨below, first, others, after, parts, height, reduced, made⟩ := cells (by decide)
  have live : [10, 20] ++ [30, 4, 5] = below ++ first :: others := parts
  have two : [(10 : Float), 20].length = below.length := by
    rw [base] at height
    exact (Int.ofNat.inj height).symm
  obtain ⟨rfl, split⟩ := List.append_inj live two
  obtain ⟨rfl, rfl⟩ := List.cons.inj split
  exact ⟨inside, base, after, reduced, made.live, made.marks⟩

end StackLang.Machine
