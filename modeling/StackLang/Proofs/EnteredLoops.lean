import StackLang.Proofs.FunctionScopes

/-! Jumps into loops. The count of a loop is set where the loop is entered from its front, and a jump
may lead to a label inside of a loop from outside, as only the name of the label is looked up. Along the
flow of control of a body this module follows the counts that are set. They are all those of the loops
around, unless a jump is reached that enters a loop. -/
namespace StackLang

open StackLang.Outcome

/-! ### Flow of control -/

inductive Control where
  | passes
  | opens (counted : Bool)
  | closes
  | breaks
  | continues
  | leaves
  | jumps (which : Jump) (target : String)
  | marks (label : String)
  deriving DecidableEq

def Action.control : Action → Control
  | .label name => .marks name
  | .jump which target => .jumps which target
  | .countedLoop _ _ _ => .opens true
  | .endlessLoop => .opens false
  | .endLoop => .closes
  | .breakLoop => .breaks
  | .continueLoop => .continues
  | .leave => .leaves
  | _ => .passes

def Step.control : Step → Control
  | .label name => .marks name
  | .jump which target => .jumps which target
  | .openCounted _ _ _ _ => .opens true
  | .openEndless _ => .opens false
  | .close => .closes
  | .breakLoop => .breaks
  | .continueLoop => .continues
  | .leave _ => .leaves
  | _ => .passes

def Function.flow (function : Function) : List Control :=
  function.statements.map fun statement => statement.action.control

theorem Frame.Lowers.control {frame : Frame} {depth inner : Nat} {action : Action} {code : Step}
    (lowers : frame.Lowers depth action code inner) : action.control = code.control := by
  cases lowers <;> rfl

/-- The code of a body has the flow of its statements. -/
theorem control_of_steps {frame : Frame} {depth : Nat} {statements : List Statement}
    {steps : List Step} (done : frame.steps depth statements = .ok steps) :
    (statements.map fun statement => statement.action.control) = steps.map Step.control := by
  rw [← List.forall₂_eq_eq_eq, List.forall₂_map_left_iff, List.forall₂_map_right_iff]
  apply (Frame.lowers_of_steps done).imp
  rintro statement step ⟨around, inner, lowers⟩
  exact lowers.control

/-- Whether the next statement can follow, apart from the statements that close a loop. -/
def Control.falls : Control → Bool
  | .passes | .opens _ | .marks _ => true
  | .jumps which _ => which ≠ .jmp
  | .closes | .breaks | .continues | .leaves => false

/-- The loops around the next statement, named by the places that open them, the innermost first. -/
def Control.around (loops : List Nat) (place : Nat) : Control → List Nat
  | .opens _ => place :: loops
  | .closes => loops.tail
  | _ => loops

def loopsAt (flow : List Control) : Nat → List Nat
  | 0 => []
  | place + 1 =>
    match flow[place]? with
    | some control => control.around (loopsAt flow place) place
    | none => loopsAt flow place

structure LoopEnds (flow : List Control) (first last : Nat) : Prop where
  closes : flow[last]? = some .closes
  innermost : (loopsAt flow last).head? = some first

/-- The place that control can go to from another. Whether a condition holds is left open. -/
inductive Goes (flow : List Control) : Nat → Nat → Prop
  | next {place : Nat} {control : Control} (here : flow[place]? = some control)
    (falls : control.falls = true) : Goes flow place (place + 1)
  /-- A loop that has no turn. -/
  | skip {first last : Nat} (counted : flow[first]? = some (.opens true))
    (ends : LoopEnds flow first last) : Goes flow first (last + 1)
  | again {place first : Nat}
    (turns : flow[place]? = some .closes ∨ flow[place]? = some .continues)
    (inside : (loopsAt flow place).head? = some first) : Goes flow place (first + 1)
  | finish {place first last : Nat}
    (turns : flow[place]? = some .closes ∨ flow[place]? = some .continues)
    (inside : (loopsAt flow place).head? = some first)
    (counted : flow[first]? = some (.opens true)) (ends : LoopEnds flow first last) :
    Goes flow place (last + 1)
  | stop {place first last : Nat} (here : flow[place]? = some .breaks)
    (inside : (loopsAt flow place).head? = some first) (ends : LoopEnds flow first last) :
    Goes flow place (last + 1)
  | jump {place label : Nat} {which : Jump} {target : String}
    (here : flow[place]? = some (.jumps which target)) (there : flow[label]? = some (.marks target)) :
    Goes flow place label

/-! ### Loops around a place -/

theorem loopsAt_succ {flow : List Control} {place : Nat} {control : Control}
    (here : flow[place]? = some control) :
    loopsAt flow (place + 1) = control.around (loopsAt flow place) place := by
  rw [loopsAt, here]

/-- The loops around a loop are those around the place where it opens. -/
theorem loopsAt_outer {flow : List Control} {place loop : Nat} {inner outer : List Nat}
    (parted : loopsAt flow place = inner ++ loop :: outer) :
    outer = loopsAt flow loop ∧ ∃ counted, flow[loop]? = some (.opens counted) := by
  induction place generalizing inner with
  | zero => simp [loopsAt] at parted
  | succ place ih =>
    cases here : flow[place]? with
    | none =>
      rw [loopsAt, here] at parted
      exact ih parted
    | some control =>
      rw [loopsAt_succ here] at parted
      cases control with
      | opens counted =>
        cases inner with
        | nil =>
          obtain ⟨rfl, rfl⟩ := List.cons.inj parted
          exact ⟨rfl, counted, here⟩
        | cons _ inner => exact ih (List.cons.inj parted).2
      | closes =>
        cases around : loopsAt flow place with
        | nil => simp [Control.around, around] at parted
        | cons first others =>
          rw [Control.around, around, List.tail_cons] at parted
          apply @ih (first :: inner)
          rw [around, parted, List.cons_append]
      | passes | breaks | continues | leaves | jumps | marks => exact ih parted

theorem opens_of_mem {flow : List Control} {place loop : Nat} (around : loop ∈ loopsAt flow place) :
    ∃ counted, flow[loop]? = some (.opens counted) := by
  obtain ⟨inner, outer, parted⟩ := List.append_of_mem around
  exact (loopsAt_outer parted).2

theorem loopsAt_of_head {flow : List Control} {place loop : Nat}
    (inside : (loopsAt flow place).head? = some loop) :
    loopsAt flow place = loop :: loopsAt flow loop ∧
      loopsAt flow (loop + 1) = loop :: loopsAt flow loop := by
  obtain ⟨outer, parted⟩ := List.head?_eq_some_iff.mp inside
  obtain ⟨rfl, counted, opened⟩ := loopsAt_outer (parted.trans (List.nil_append _).symm)
  exact ⟨parted, loopsAt_succ opened⟩

theorem LoopEnds.behind {flow : List Control} {first last : Nat} (ends : LoopEnds flow first last) :
    loopsAt flow (last + 1) = loopsAt flow first := by
  rw [loopsAt_succ ends.closes, Control.around, (loopsAt_of_head ends.innermost).1, List.tail_cons]

/-- Control stays inside of the loops around it or enters one from its front, unless it jumps. -/
theorem Goes.loops {flow : List Control} {place following : Nat} (goes : Goes flow place following) :
    (∀ loop ∈ loopsAt flow following,
      loop ∈ loopsAt flow place ∨ loop = place ∧ following = place + 1) ∨
    ∃ which target, flow[place]? = some (.jumps which target) ∧
      flow[following]? = some (.marks target) := by
  cases goes with
  | @next control here falls =>
    apply Or.inl
    rw [loopsAt_succ here]
    intro loop around
    cases control with
    | opens => exact (List.mem_cons.mp around).elim (fun same => .inr ⟨same, rfl⟩) .inl
    | closes => cases falls
    | passes | breaks | continues | leaves | jumps | marks => exact .inl around
  | skip counted ends =>
    rw [ends.behind]
    exact .inl fun _ => .inl
  | again _ inside =>
    obtain ⟨here, turn⟩ := loopsAt_of_head inside
    rw [turn, ← here]
    exact .inl fun _ => .inl
  | finish _ inside _ ends | stop _ inside ends =>
    rw [ends.behind, (loopsAt_of_head inside).1]
    exact .inl fun _ around => .inl (List.mem_cons_of_mem _ around)
  | jump here there => exact .inr ⟨_, _, here, there⟩

/-! ### Counts that are set -/

/-- The place of control, and the loops around it with a count that is set. -/
structure LoopState where
  place : Nat
  set : List Nat

namespace LoopState

/-- Going on from the place where a loop opens sets its count; and outside of its loop a count is
gone. -/
def moved (flow : List Control) (state : LoopState) (place : Nat) : LoopState :=
  let entered := if place = state.place + 1 then [state.place] else []
  ⟨place, (entered ++ state.set).filter fun loop => loop ∈ loopsAt flow place⟩

/-- The counts of all loops around are set. -/
def Complete (flow : List Control) (state : LoopState) : Prop :=
  ∀ loop ∈ loopsAt flow state.place, loop ∈ state.set

theorem mem_moved {flow : List Control} {state : LoopState} {place loop : Nat} :
    loop ∈ (state.moved flow place).set ↔
      (loop = state.place ∧ place = state.place + 1 ∨ loop ∈ state.set) ∧
        loop ∈ loopsAt flow place := by
  unfold moved
  split <;> simp_all

theorem Complete.moved {flow : List Control} {state : LoopState} {place : Nat}
    (complete : state.Complete flow)
    (stays : ∀ loop ∈ loopsAt flow place,
      loop ∈ loopsAt flow state.place ∨ loop = state.place ∧ place = state.place + 1) :
    (state.moved flow place).Complete flow := by
  intro loop around
  refine mem_moved.mpr ⟨?_, around⟩
  exact (stays loop around).elim (fun outer => .inr (complete loop outer)) .inl

/-- The states that control can come to from the front of a body. -/
inductive Reached (flow : List Control) : LoopState → Prop
  | start : Reached flow ⟨0, []⟩
  | move {state : LoopState} {place : Nat} (before : Reached flow state)
    (goes : Goes flow state.place place) : Reached flow (state.moved flow place)

theorem Reached.around {flow : List Control} {state : LoopState} (reached : Reached flow state) :
    ∀ loop ∈ state.set, loop ∈ loopsAt flow state.place := by
  cases reached with
  | start => exact List.forall_mem_nil _
  | move => exact fun loop set => (mem_moved.mp set).2

end LoopState

/-- All counts are set as long as no jump is reached that enters a loop. -/
theorem complete_iff_no_entry (flow : List Control) :
    (∀ state : LoopState, state.Reached flow → state.Complete flow) ↔
      ∀ (state : LoopState) label which target, state.Reached flow →
        flow[state.place]? = some (.jumps which target) → flow[label]? = some (.marks target) →
        loopsAt flow label ⊆ loopsAt flow state.place := by
  constructor
  · intro complete state label which target reached here there loop around
    have set := complete _ (.move reached (.jump here there)) loop around
    rcases (LoopState.mem_moved.mp set).1 with ⟨rfl, _⟩ | kept
    · obtain ⟨counted, opened⟩ := opens_of_mem around
      rw [here] at opened
      cases opened
    · exact reached.around loop kept
  · intro stays state reached
    induction reached with
    | start => exact fun _ around => around
    | @move state place before goes ih =>
      apply ih.moved
      rcases goes.loops with inside | ⟨which, target, here, there⟩
      · exact inside
      · exact fun loop around => .inl (stays state place which target before here there around)

/-! ### Counts that are read -/

/-- The counts that code leaves open are those of the loops around the next place. -/
theorem openLoops_take (steps : List Step) (place : Nat) :
    List.Forall₂ (fun loop count => ∃ opening, steps[loop]? = some opening ∧
      opening.opened? = some count)
      (loopsAt (steps.map Step.control) place) (openLoops [] (steps.take place)) := by
  induction place with
  | zero => exact .nil
  | succ place ih =>
    rw [List.take_add_one, openLoops, List.foldl_append]
    cases here : steps[place]? with
    | none =>
      rw [loopsAt, List.getElem?_map, here]
      exact ih
    | some step =>
      rw [loopsAt_succ (by rw [List.getElem?_map, here]; rfl)]
      cases step with
      | openCounted | openEndless => exact .cons ⟨_, here, rfl⟩ ih
      | close =>
        have outer := List.forall₂_drop 1 ih
        rwa [List.drop_one, List.drop_one] at outer
      | call | verbatim | take | label | jump | breakLoop | continueLoop | pushIterator | leave
      | reduce => exact ih

theorem count_marks (statements : List Statement) (target : String) :
    (statements.map fun statement => statement.action.control).count (.marks target) =
      (statements.filterMap fun statement => statement.action.label?).count target := by
  induction statements with
  | nil => rfl
  | cons statement statements ih =>
    rw [List.map_cons, List.filterMap_cons, List.count_cons, ih]
    cases statement.action with
    | label name => simp [Action.control, Action.label?, List.count_cons]
    | _ => rfl

theorem jump_of_control {action : Action} {which : Jump} {target : String}
    (jumps : action.control = .jumps which target) : action = .jump which target := by
  cases action <;> cases jumps
  rfl

/-- The count that a step reads is that of a loop around it. -/
theorem loop_of_iterator {frame : Frame} {statements : List Statement} {steps : List Step}
    (done : frame.steps 0 statements = .ok steps) {place : Nat} {step : Step}
    (here : steps[place]? = some step) {count : Nat} (read : count ∈ step.iterators) :
    ∃ loop ∈ loopsAt (steps.map Step.control) place, ∃ opening, steps[loop]? = some opening ∧
      opening.opened? = some count := by
  obtain ⟨bound, rfl⟩ := List.getElem?_eq_some_iff.mp here
  have parted : steps = steps.take place ++ steps[place] :: steps.drop (place + 1) := by
    rw [← List.drop_eq_getElem_cons bound, List.take_append_drop]
  have inside := (Frame.inLoops_of_steps done).1 _ _ _ parted
  exact exists_of_forall₂ (openLoops_take steps place) (inside.uses count read)

theorem count_label_of_jump {units : List SourceUnit} (compiled : ∀ unit ∈ units, unit.Compiled)
    {table : SymbolTable} (analyzed : analyze units = .ok table) {unit : SourceUnit}
    {function : Function} (among : (unit, function) ∈ functionsIn units) {which : Jump}
    {target : String} (jumps : .jumps which target ∈ function.flow) :
    function.flow.count (.marks target) = 1 := by
  obtain ⟨statement, inBody, controls⟩ := List.mem_map.mp jumps
  obtain ⟨_, labelled⟩ :=
    label_of_jump compiled analyzed among inBody (jump_of_control controls)
  rw [Function.flow, count_marks]
  exact List.count_eq_one_of_mem (nodup_labels compiled analyzed among) labelled

/-- Loops and jumps of the functions of generated code. The code of a body has the same flow of
control, and every jump of it has one label. The counts of all loops around are set wherever control
comes to, exactly if no jump is reached whose label is inside of a loop that the jump is outside of;
and where they are set, so is every count that is read. -/
theorem counts_are_set_iff_no_jump_enters_a_loop {units : List SourceUnit}
    (compiled : ∀ unit ∈ units, unit.Compiled) {table : SymbolTable}
    (analyzed : analyze units = .ok table) {unit : SourceUnit} (member : unit ∈ units)
    {settings : RuntimeSettings} {generated : GeneratedUnit}
    (done : generate settings unit table = .ok generated) :
    ∃ code, UnitCode.ofUnit unit table = .ok code ∧ generated = code.files settings ∧
      ∀ heading parameters steps, .function heading parameters steps ∈ code.definitions →
        ∃ function ∈ unit.functions, function.flow = steps.map Step.control ∧
          (∀ which target, .jumps which target ∈ function.flow →
            function.flow.count (.marks target) = 1) ∧
          ((∀ state : LoopState, state.Reached function.flow → state.Complete function.flow) ↔
            ∀ (state : LoopState) label which target, state.Reached function.flow →
              function.flow[state.place]? = some (.jumps which target) →
              function.flow[label]? = some (.marks target) →
              loopsAt function.flow label ⊆ loopsAt function.flow state.place) ∧
          ∀ (state : LoopState) (step : Step), state.Complete function.flow →
            steps[state.place]? = some step → ∀ count ∈ step.iterators,
              ∃ loop ∈ state.set, ∃ opening, steps[loop]? = some opening ∧
                opening.opened? = some count := by
  obtain ⟨code, made, files⟩ := ofUnit_of_generate done
  refine ⟨code, made, files, ?_⟩
  intro heading parameters steps defined
  obtain ⟨function, inside, _, stepped⟩ :=
    (compiled unit member).function_of_definition made defined
  have flow : function.flow = steps.map Step.control := control_of_steps stepped
  refine ⟨function, inside, flow, ?_, complete_iff_no_entry _, ?_⟩
  · intro which target jumps
    exact count_label_of_jump compiled analyzed (mem_functionsIn.mpr ⟨member, inside⟩) jumps
  · intro state step complete here count read
    obtain ⟨loop, around, opened⟩ := loop_of_iterator stepped here read
    rw [← flow] at around
    exact ⟨loop, complete loop around, opened⟩

/-- A jump over the front of a loop whose count is read behind the label. -/
def enteringSteps : List Step :=
  [.jump .jmp "inside", .openEndless 1, .label "inside", .call (.primitive "print") [.iterator 1],
    .breakLoop, .close]

theorem count_of_an_entered_loop_is_not_set :
    ∃ unit table generated code, (∀ other ∈ [unit], other.Compiled) ∧
      analyze [unit] = .ok table ∧ generate {} unit table = .ok generated ∧
      UnitCode.ofUnit unit table = .ok code ∧
      .function .entry [] enteringSteps ∈ code.definitions ∧
      ∃ function ∈ unit.functions, function.flow = enteringSteps.map Step.control ∧
        function.flow.count (.marks "inside") = 1 ∧
        ∃ state : LoopState, state.Reached function.flow ∧ ¬state.Complete function.flow := by
  have accepted : (do
      let unit ← unitOf none "fn main() \x7b
jmp inside
loop
inside:
print $
break
end
\x7d
"
      let table ← (analyze [unit]).toOption
      let code ← (UnitCode.ofUnit unit table).toOption
      return code.definitions.head?) = some (some (.function .entry [] enteringSteps)) := by
    decide +kernel
  obtain ⟨unit, read, accepted⟩ := Option.bind_eq_some_iff.mp accepted
  obtain ⟨table, analyzed, accepted⟩ := Option.bind_eq_some_iff.mp accepted
  obtain ⟨code, made, accepted⟩ := Option.bind_eq_some_iff.mp accepted
  have analyzed := eq_ok_of_toOption analyzed
  have made := eq_ok_of_toOption made
  have defined := List.mem_of_mem_head? (Option.some.inj accepted)
  have compiled : ∀ other ∈ [unit], other.Compiled := by simp [compiled_of_unitOf read]
  have done : generate {} unit table = .ok (code.files {}) := by
    rw [generate, made]
    rfl
  obtain ⟨found, remade, _, functions⟩ :=
    counts_are_set_iff_no_jump_enters_a_loop compiled analyzed List.mem_cons_self done
  rw [made] at remade
  cases remade
  obtain ⟨function, inside, flow, labels, complete, _⟩ := functions _ _ _ defined
  refine ⟨unit, table, _, code, compiled, analyzed, done, made, defined, function, inside, flow, ?_, ?_⟩
  · exact labels .jmp "inside" (by rw [flow]; decide)
  · -- The jump is the first statement, and its label is inside of the loop that opens behind it.
    by_contra all
    have stays := complete.mp fun state reached => by_contra fun missing =>
      all ⟨state, reached, missing⟩
    rw [flow] at stays
    have entered : 1 ∈ loopsAt (enteringSteps.map Step.control) 2 := by decide
    exact absurd (stays _ 2 .jmp "inside" .start rfl rfl entered) (by decide)

end StackLang
